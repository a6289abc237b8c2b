import PropShear.SourceMap.Mappings
import PropShear.Json.Basic
import PropShear.Text.Base64
import PropShear.Text.Integer

/-! Source maps: which position of which source a position of generated text came from.

A map names its sources, may carry their text, and holds the position table in written form. It is
published as a JSON document (`toText`) or inside a URL (`toUrl`). -/
namespace PropShear

structure SourceMap where
  mappings : String
  sources : List (Option String) := []
  sourcesContent : Option (List (Option String)) := none
  names : List String := []
  file : Option String := none
  version : Int := 3
  /-- The version can be written out. -/
  short : Text.IsShort version := by decide
deriving DecidableEq, Repr

namespace SourceMap

/-- A text in a list, or `null` for one that is absent. -/
def textOrNull (s : Option String) : Json := s.elim .null .text

/-- The document of a map; an absent file name or absent source text has no member. -/
def toJson (m : SourceMap) : Json :=
  .object <|
    [("version", .number m.version)] ++
    (m.file.map fun f => ("file", Json.text f)).toList ++
    [("sources", .array (m.sources.map textOrNull))] ++
    (m.sourcesContent.map fun c => ("sourcesContent", Json.array (c.map textOrNull))).toList ++
    [("names", .array (m.names.map .text)), ("mappings", .text m.mappings)]

def toText (m : SourceMap) : String := String.ofList m.toJson.render

/-- The text of the document is ASCII, so its characters are its bytes. -/
def toUrl (m : SourceMap) : String :=
  "data:application/json;charset=utf-8;base64," ++
    String.ofList (Text.Base64.encode (m.toJson.render.map fun c => c.toNat.toUInt8))

def segments (m : SourceMap) : Except Mappings.Error (List (List Segment)) :=
  Mappings.decode m.mappings.toList

end SourceMap
end PropShear
