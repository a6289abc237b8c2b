import PropShear.Text.Integer
import PropShear.Text.Pieces
import PropShear.Value.Printer

/-! Versions of the host that runs the tool.

A version is three numbers, compared from left to right. It is read from text leniently: blanks
around it and letters `v` in front do not count, each number ends at the first character that is no
digit, missing numbers are zero, and reading stops at a piece without a number. -/
namespace PropShear

structure Version where
  major : Nat
  minor : Nat
  patch : Nat
deriving DecidableEq, Repr

namespace Version

def lt (a b : Version) : Bool :=
  a.major < b.major || (a.major == b.major &&
    (a.minor < b.minor || (a.minor == b.minor && a.patch < b.patch)))

inductive Error where
  /-- The text does not start with a number. -/
  | unreadable (quoted : String)
  /-- A number has too many digits to be read. -/
  | tooLong (digits : Nat)

def Error.message : Error → String
  | unreadable quoted => "unparsable version: " ++ quoted
  | tooLong digits => s!"Exceeds the limit ({Text.digitLimit} digits) for integer string conversion: " ++
      s!"value has {digits} digits; use sys.set_int_max_str_digits() to increase the limit"

/-- The number that decimal digits of any script write. -/
def readNumber (digits : List Char) : Except Error Nat :=
  if Text.digitLimit < digits.length then .error (.tooLong digits.length)
  else .ok (digits.foldl (fun n c => n * 10 + (Text.decimalValue? c).getD 0) 0)

/-- The numbers of pieces, up to the first piece without one. -/
def readPieces : List (List Char) → Except Error (List Nat)
  | [] => return []
  | piece :: rest => do
    let digits := piece.takeWhile Text.isDecimal
    if digits.isEmpty then return []
    let n ← readNumber digits
    return n :: (← readPieces rest)

def ofText (text : String) (quoted : String) : Except Error Version := do
  let body := (Text.trim text.toList).dropWhile (· == 'v')
  match ← readPieces ((Text.pieces '.' body).take 3) with
  | [] => throw (.unreadable quoted)
  | [a] => return ⟨a, 0, 0⟩
  | [a, b] => return ⟨a, b, 0⟩
  | a :: b :: c :: _ => return ⟨a, b, c⟩

/-- The version that an option value stands for. -/
def ofValue (v : Value) : Except Error Version := ofText v.shown v.quoted

/-- The host is too old, or its version cannot be read. -/
structure Incompatible where
  message : String
  version : String
  minimum : String

inductive CheckError where
  | incompatible (e : Incompatible)
  | badMinimum (e : Error)

/-- The least host version that is supported. -/
def minimum : String := "0.60.0"

/-- The version of the host, if it is at least the minimum. -/
def check (host : Value) (name least : String) : Except CheckError Version := do
  match ofValue host with
  | .error _ =>
    throw (.incompatible ⟨s!"\"{name}\" cannot read host version " ++ host.quoted ++
      s!"; requires {least} or higher.", host.shown, least⟩)
  | .ok found =>
    match ofText least (Text.quoted least) with
    | .error e => throw (.badMinimum e)
    | .ok needed =>
      if found.lt needed then
        throw (.incompatible ⟨s!"\"{name}\" requires host version {least} or higher (got " ++
          host.shown ++ ").", host.shown, least⟩)
      return found

end Version
end PropShear
