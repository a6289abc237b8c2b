import PropShear.Text.Integer
import PropShear.Text.Pieces
import PropShear.Value.Basic

/-! What plain text stands for: nothing, a truth value, a number, a day, or itself. -/
namespace PropShear.Yaml

def nothingWords : List String := ["", "~", "null", "Null", "NULL"]

def trueWords : List String :=
  ["yes", "Yes", "YES", "true", "True", "TRUE", "on", "On", "ON"]

def falseWords : List String :=
  ["no", "No", "NO", "false", "False", "FALSE", "off", "Off", "OFF"]

/-! ### Numbers

Underscores may stand between the digits of a number, and after them. -/

/-- Whether text is not empty and consists of digits of a base and underscores. -/
def isDigits (base : Nat) (s : List Char) : Bool :=
  !s.isEmpty && s.all fun c => c == '_' || (Text.digitBelow? base c).isSome

/-- The number that digits of a base write. -/
def digitsValue (base : Nat) (s : List Char) : Nat :=
  (s.filterMap (Text.digitBelow? base)).foldl (fun n d => n * base + d) 0

/-- A sign and what follows it. -/
def splitSign : List Char → Int × List Char
  | '-' :: rest => (-1, rest)
  | '+' :: rest => (1, rest)
  | s => (1, s)

/-- Whether a piece behind a colon is a number below sixty. -/
def isSixtieth : List Char → Bool
  | [c] => c.isDigit
  | [c, d] => '0' ≤ c && c ≤ '5' && d.isDigit
  | _ => false

/-- Whether text starts with a decimal digit and has decimal digits only. -/
def isDecimalRun (s : List Char) : Bool := s.head?.any Char.isDigit && isDigits 10 s

/-- A whole number without its sign: binary, octal, decimal or hexadecimal, or decimal pieces of
which each counts sixty times the next. -/
def natural? (s : List Char) : Option Nat :=
  match s with
  | ['0'] => some 0
  | '0' :: 'b' :: digits => if isDigits 2 digits then some (digitsValue 2 digits) else none
  | '0' :: 'x' :: digits => if isDigits 16 digits then some (digitsValue 16 digits) else none
  | '0' :: digits => if isDigits 8 digits then some (digitsValue 8 digits) else none
  | _ =>
    match Text.pieces ':' s with
    | first :: more =>
      if isDecimalRun first && more.all isSixtieth then
        some (more.foldl (fun n piece => n * 60 + digitsValue 10 piece) (digitsValue 10 first))
      else none
    | [] => none

def whole? (s : List Char) : Option Int :=
  let (sign, rest) := splitSign s
  (natural? rest).map fun n => sign * n

/-- The largest power of ten that is told apart. -/
def powerLimit : Nat := 400

/-- The exponent behind the digits of a decimal number: nothing, or a mark, a sign and digits. -/
def exponent? : List Char → Option Int
  | [] => some 0
  | mark :: sign :: digits =>
    if (mark == 'e' || mark == 'E') && !digits.isEmpty && digits.all Char.isDigit then
      let size : Int := min (digitsValue 10 digits) powerLimit
      if sign == '+' then some size else if sign == '-' then some (-size) else none
    else none
  | _ => none

/-- A number with a point. -/
def decimal? (s : List Char) : Option Decimal := do
  let (sign, rest) := splitSign s
  let isPart (c : Char) : Bool := c.isDigit || c == '_'
  let front := rest.takeWhile isPart
  match rest.dropWhile isPart with
  | '.' :: tail =>
    let back := tail.takeWhile isPart
    guard (if front.isEmpty then s.head? == some '.' && isDecimalRun back
      else isDecimalRun front)
    let power ← exponent? (tail.dropWhile isPart)
    let digits := sign * (digitsValue 10 (front ++ back) : Int)
    let places : Int := (back.filter Char.isDigit).length - power
    return if places < 0 then ⟨digits * Int.pow 10 places.natAbs, 0⟩ else ⟨digits, places.toNat⟩
  | _ => none

/-- A number that no digits write; `shown` is how it is shown. -/
def unwritten (shown : String) (rank : Int) : Foreign :=
  ⟨"float", some (.number, ⟨rank, 0⟩), shown, shown, false⟩

def special? (s : List Char) : Option Foreign :=
  let (sign, rest) := splitSign s
  if [".inf", ".Inf", ".INF"].contains (String.ofList rest) then
    let rank := sign * Int.pow 10 powerLimit
    some (if sign < 0 then unwritten "-inf" rank else unwritten "inf" rank)
  else if [".nan", ".NaN", ".NAN"].contains (String.ofList s) then some (unwritten "nan" 0)
  else none

/-! ### Days -/

def daysIn (year month : Nat) : Nat :=
  if month = 2 then if year % 4 = 0 ∧ (year % 100 ≠ 0 ∨ year % 400 = 0) then 29 else 28
  else if [4, 6, 9, 11].contains month then 30
  else 31

/-- The year, month and day of a date: four digits and twice two, with hyphens between them. -/
def dateParts? (s : List Char) : Option (Nat × Nat × Nat) :=
  match Text.pieces '-' s with
  | [year, month, day] =>
    if year.length = 4 && month.length = 2 && day.length = 2 &&
        (year ++ month ++ day).all Char.isDigit then
      some (digitsValue 10 year, digitsValue 10 month, digitsValue 10 day)
    else none
  | _ => none

/-- A day, if there is such a day. -/
def day? (text : String) (year month day : Nat) : Option Foreign :=
  if 0 < year ∧ 0 < month ∧ month ≤ 12 ∧ 0 < day ∧ day ≤ daysIn year month then
    some ⟨"date", some (.other "date", ⟨(year * 12 + month) * 31 + day, 0⟩), text,
      "datetime.date(" ++ toString year ++ ", " ++ toString month ++ ", " ++ toString day ++ ")",
      false⟩
  else none

/-- The value of plain text. Two signs are reserved for keys and stand for no value. -/
def plainValue? (s : List Char) : Option Value :=
  let word := String.ofList s
  if nothingWords.contains word then some .none
  else if trueWords.contains word then some (.bool true)
  else if falseWords.contains word then some (.bool false)
  else if word = "=" ∨ word = "<<" then none
  else
    match whole? s, decimal? s, special? s, dateParts? s with
    | some n, _, _, _ => some (.int n)
    | _, some d, _, _ => some (.decimal d)
    | _, _, some f, _ => some (.foreign f)
    | _, _, _, some (year, month, day) => (day? word year month day).map .foreign
    | _, _, _, _ => some (.text word)

end PropShear.Yaml
