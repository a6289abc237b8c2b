import PropShear.Log.Record
import PropShear.Text.Integer
import PropShear.Value.Printer

/-! Levels as callers give them: by number or by name. -/
namespace PropShear.Log

/-- The level of a name in upper case; any other word stands for the middle level. -/
def levelNamed (word : List Char) : Int :=
  match String.ofList word with
  | "CRITICAL" => critical
  | "ERROR" => error
  | "WARNING" => warning
  | "INFO" => info
  | "DEBUG" => debug
  | "NOTSET" => 0
  | _ => info

/-- Upper case of the letters that names of levels have; a dotless `i` and a long `s` become plain
letters too. -/
def upper (c : Char) : Char :=
  if c = 'ı' then 'I' else if c = 'ſ' then 'S' else c.toUpper

def levelOfName (text : String) : Int := levelNamed (text.toList.map upper)

/-- The level of a text: a number or a name. -/
def levelOfText (text : String) : Int :=
  (Text.readDecimal? text.toList).getD (levelOfName text)

/-- A level was given by a value that is neither text nor a number. -/
structure LevelError where

/-- The level of a value that is not text: its number without decimal places. -/
def levelOfNumber (v : Value) : Except LevelError Int :=
  match v.number? with
  | some d => .ok (d.digits.tdiv (Int.pow 10 d.places))
  | none => .error ⟨⟩

/-- The first given of a level asked for, one of the environment and a default; the middle level if
none is given. Empty text and blank values count as not given. -/
def chooseLevel (asked : Value) (environment : Option String) (default : Value) :
    Except LevelError Int :=
  let fallback : Int :=
    match environment with
    | some text => levelOfText text
    | none => if default.isBlank then info else levelOfText default.shown
  match asked with
  | .none => .ok fallback
  | .text s => .ok (if s.isEmpty then fallback else levelOfText s)
  | v => levelOfNumber v

/-- The level of a value; names count, but not numbers written as text. -/
def levelOfValue : Value → Except LevelError Int
  | .text s => .ok (levelOfName s)
  | v => levelOfNumber v

end PropShear.Log
