import PropShear.Filter
import PropShear.Log.Record
import PropShear.Options.Validation
import PropShear.Specifier
import PropShear.Value.Printer

/-! Settings: checked options with every default filled in. -/
namespace PropShear

namespace Options

def defaultInclude : List Value := [.text "**/*.jsx", .text "**/*.tsx"]

def defaultExclude : List Value := [.text "node_modules/**"]

def defaultModules : List Specifier := ["prop-types"]

def knownKeys : List String := ["include", "exclude", "imports", "sourceMap", "source_map"]

/-- The distinct patterns of an option, or the fallback if it has none. A single text is a pattern
even if it is empty. -/
def patterns (v : Value) (fallback : List Value) : List Value :=
  if isPattern v then [v]
  else
    match v.items? with
    | some (item :: rest) => Value.distinct (item :: rest)
    | _ => fallback

inductive Error where
  | invalid (message : String) (violations : List String)
  /-- Unknown keys have to be listed in order but cannot be compared with each other. -/
  | unsortableKeys

end Options

structure Settings where
  included : List Pattern
  excluded : List Pattern
  /-- The modules whose imports are removed. -/
  modules : List Specifier
  sourceMap : Bool

namespace Settings

def pattern? : Value → Option Pattern
  | .text s => some (.glob s)
  | .regex r => some (.regex r)
  | _ => none

/-- The warnings about keys that have no meaning, in order of the keys. -/
def unknownKeys (name : String) (entries : List (Value × Value)) :
    Except Options.Error (List Log.Record) :=
  let isKnown (key : Value) : Bool := Options.knownKeys.any fun k => Value.same key (.text k)
  match Value.sorted? ((entries.map (·.1)).filter (!isKnown ·)) with
  | none => .error .unsortableKeys
  | some keys =>
    .ok (keys.map fun key => ⟨Log.warning, "propstrip.config",
      name ++ " | options." ++ key.shown ++ " | unknown option ignored"⟩)

/-- Whether source maps are wanted. The second spelling counts only if the first is absent. -/
def wantsMap (entries : List (Value × Value)) : Bool :=
  let given := match Value.lookup entries "sourceMap" with
    | none | some .none => Value.lookup entries "source_map"
    | found => found
  !(given.getD .none).isBlank

/-- The settings that options stand for, with warnings about unknown ones. -/
def ofOptions (options : Value) (name : String) :
    Except Options.Error (Settings × List Log.Record) := do
  let wrong := Options.violations options
  unless wrong.isEmpty do
    throw (.invalid (String.intercalate "; " (wrong.map fun v => name ++ " | " ++ v)) wrong)
  let entries := match options with
    | .map entries => entries
    | _ => []
  let warnings ← unknownKeys name entries
  let option (key : String) : Value := (Value.lookup entries key).getD .none
  let extra := ((option "imports").items?.getD []).filterMap fun
    | .text s => some (Specifier.ofText s)
    | _ => none
  return (
    { included := (Options.patterns (option "include") Options.defaultInclude).filterMap pattern?
      excluded := (Options.patterns (option "exclude") Options.defaultExclude).filterMap pattern?
      modules := (Options.defaultModules ++ extra).eraseDups
      sourceMap := wantsMap entries }, warnings)

end Settings

namespace Options

/-- The include and exclude patterns of a filter, given as option values. -/
def filterPatterns (included excluded : Value) : Except Error (List Pattern × List Pattern) := do
  let check (key : String) (v : Value) : Except Error Unit :=
    match v with
    | .none => return
    | v =>
      if isPatternOption v then return
      else throw (.invalid (key ++ " | invalid type") ["options." ++ key ++ " | invalid type"])
  check "include" included
  check "exclude" excluded
  return ((patterns included defaultInclude).filterMap Settings.pattern?,
    (patterns excluded defaultExclude).filterMap Settings.pattern?)

/-- The base that a value stands for, from a working directory. `false` is no base at all; other
values that stand for nothing leave the working directory. -/
def base (cwd : List Char) : Value → Base
  | .bool false => .verbatim
  | .text s => .directory (Path.absoluteText cwd s.toList)
  | v => if v.isBlank then .directory cwd else .unusable

/-- Options of a file overridden by options of a command line; absent ones and empty lists do not
override. -/
def merge (file overrides : List (Value × Value)) : List (Value × Value) :=
  let counts : Value → Bool
    | .none | .list [] | .tuple [] => false
    | _ => true
  (overrides.filter fun (_, v) => counts v).foldl (fun m (k, v) => Value.setEntry k v m) file

end Options
end PropShear
