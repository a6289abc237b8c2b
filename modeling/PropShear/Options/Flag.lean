import PropShear.Text.Blank

/-! Switches given as text in the environment. -/
namespace PropShear.Options

/-- The spellings of a switch, in lower case. -/
structure Spellings where
  yes : List String
  no : List String

/-- The spellings of switches in general. -/
def switchSpellings : Spellings := ⟨["1", "true", "yes", "on"], ["0", "false", "no", "off"]⟩

/-- The spellings of switches of the log, which may be single letters. -/
def logSpellings : Spellings :=
  ⟨["1", "true", "yes", "y", "on"], ["0", "false", "no", "n", "off"]⟩

/-- The state of a switch: blanks around the text and the case of letters do not count, and any
other text leaves the default. -/
def Spellings.read (s : Spellings) (default : Bool) : Option String → Bool
  | none => default
  | some text =>
    let word := String.ofList ((Text.trim text.toList).map Char.toLower)
    if s.yes.contains word then true else if s.no.contains word then false else default

end PropShear.Options
