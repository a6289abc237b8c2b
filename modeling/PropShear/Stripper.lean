import PropShear.Edit.Trace
import PropShear.Options.Settings
import PropShear.Removal.Basic
import PropShear.Source
import PropShear.Version

/-! Strippers: what a host runs over its files.

A stripper is made once from options and the version of its host, and then strips any number of
files. It holds only settings, so files do not influence each other. -/
namespace PropShear

structure Stripper where
  name : String
  settings : Settings
  filter : Filter

/-- A file after stripping. -/
structure Stripped where
  code : String
  /-- What was asked for, in bytes of the file. -/
  removals : List Removal
  /-- What was taken away, in characters of the file. -/
  removed : List Span
  map : Option SourceMap

namespace Stripper

def defaultName : String := "strip-prop-types"

/-- Why a stripper cannot be made. -/
inductive SetupError where
  | version (e : Version.CheckError)
  | options (e : Options.Error)
  | base (e : BaseError)

/-- Why a file cannot be stripped. -/
inductive Error where
  | syntaxError (e : SyntaxError)
  | fault (f : Fault)
  | edit (e : Editor.Error)

/-- Lifts an error into a larger type of errors. -/
def orElse {ε ε' α : Type} (wrap : ε → ε') : Except ε α → Except ε' α
  | .ok a => .ok a
  | .error e => .error (wrap e)

def patternValue : Pattern → Value
  | .glob text => .text text
  | .regex r => .regex r

/-- The note for the log that a stripper is made. -/
def configured (name : String) (s : Settings) : Log.Record :=
  let modules := (s.modules.mergeSort fun a b => !b.points.lex a.points).map Specifier.quoted
  ⟨Log.debug, "propstrip.plugin", name ++ " configured: imports=[" ++
    String.intercalate ", " modules ++ "] include=" ++ (Value.tuple (s.included.map patternValue)).quoted ++
    " exclude=" ++ (Value.tuple (s.excluded.map patternValue)).quoted ++
    " sourceMap=" ++ (Value.bool s.sourceMap).quoted⟩

/-- A stripper with its log: first the version is checked, then the options. -/
def make (options hostVersion : Value) (name : String) (base : Base) :
    Except SetupError (Stripper × List Log.Record) := do
  let _ ← orElse .version (Version.check hostVersion name Version.minimum)
  let (settings, warnings) ← orElse .options (Settings.ofOptions options name)
  let filter ← orElse .base (Filter.make base settings.included settings.excluded)
  return (⟨name, settings, filter⟩, warnings ++ [configured name settings])

/-- Notes a removal in an editor, with marks at its ends if a map is wanted. -/
def note (marked : Bool) (source : List Char) (r : Removal) : Editor.Edit Unit := do
  let start : Int := Text.charIndex source r.start
  let stop : Int := Text.charIndex source r.stop
  if marked then
    Editor.mark start
    Editor.mark stop
  Editor.delete start stop

/-- The editor of a source after its removals are noted. -/
def edited (marked : Bool) (source : List Char) (removals : List Removal) :
    Except Editor.Error Editor :=
  Editor.after (removals.forM (note marked source)) (.ofText source)

/-- Strips a file whose tree is known. -/
def stripTree (s : Stripper) (root : Node) (code : String) (id : String) :
    Except Error Stripped := do
  let source := code.toList
  let removals ← orElse .fault (Removal.find source s.settings.modules root)
  let editor ← orElse .edit (edited s.settings.sourceMap source removals)
  return {
    code := String.ofList editor.result
    removals := removals
    removed := editor.removed
    map := if s.settings.sourceMap then some (editor.sourceMap (some id) (some id) true true)
      else none }

/-- Strips a file that is parsed in the given way; a file that is not eligible is left alone. -/
def stripWith (s : Stripper) (parse : Parser) (code id : String) :
    Except Error (Option Stripped) := do
  if s.filter.isEligible id.toList then
    let root ← orElse .syntaxError (parse id code.toList)
    return some (← s.stripTree root code id)
  else return none

/-- Strips a source file in the grammar of this library. -/
def strip (s : Stripper) (code id : String) : Except Error (Option Stripped) :=
  s.stripWith parseSource code id

/-- The notes for the log that statements of a file are removed. -/
def notes (s : Stripped) (code id : String) : List Log.Record :=
  s.removals.map fun r =>
    let start := Text.charIndex code.toList r.start
    let stop := Text.charIndex code.toList r.stop
    ⟨Log.debug, "propstrip.plugin", id ++ ": strip " ++ r.reason.name ++ " " ++
      (r.module?.map Specifier.shown).getD "" ++ " [" ++ toString start ++ ", " ++ toString stop ++ ")"⟩

end Stripper
end PropShear
