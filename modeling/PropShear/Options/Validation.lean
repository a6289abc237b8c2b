import PropShear.Value.Basic

/-! Checking the types of options.

Blank values count as absent and are never reported. -/
namespace PropShear.Options

def isPattern : Value → Bool
  | .text _ | .regex _ => true
  | _ => false

def isText : Value → Bool
  | .text _ => true
  | _ => false

def isBool : Value → Bool
  | .bool _ => true
  | _ => false

/-- A pattern or a list of patterns. -/
def isPatternOption (v : Value) : Bool :=
  isPattern v || (v.items?.map (·.all isPattern)).getD false

/-- Whether a value has a type that its option allows; unknown options allow all. -/
def allows (key : String) (v : Value) : Bool :=
  if key = "include" || key = "exclude" then isPatternOption v
  else if key = "imports" then (v.items?.map (·.all isText)).getD false
  else if key = "sourceMap" || key = "source_map" then isBool v
  else true

/-- What is wrong with an option, if something is. -/
def violation? : Value × Value → Option String
  | (.text key, v) =>
    if v.isBlank || allows key v then none else some ("options." ++ key ++ " | invalid type")
  | _ => none

/-- Everything that is wrong with options, in their order. -/
def violations : Value → List String
  | .none => []
  | .map entries => entries.filterMap violation?
  | v => ["options | expected a mapping, got " ++ v.typeName]

end PropShear.Options
