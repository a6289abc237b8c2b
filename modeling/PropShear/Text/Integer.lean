import PropShear.Text.Blank
import PropShear.Text.Digit

/-! Integers written out in a base.

The reader is lenient: blanks may surround the number, a sign may stand before it, `0x` (or `0o`)
may introduce it when it agrees with the base, a single underscore may stand between two digits or
after the introducer, and decimal digits of every script count. -/
namespace PropShear.Text

/-- Writes a decimal digit of any script as the digit of the same value from `0` to `9`. -/
def plainDigit (c : Char) : Char := (decimalValue? c).elim c Nat.digitChar

/-- The value of a digit: `0` to `9`, then the letters from ten on. -/
def digitValue? (c : Char) : Option Nat :=
  if '0' ≤ c && c ≤ '9' then some (c.toNat - '0'.toNat)
  else if 'a' ≤ c && c ≤ 'z' then some (c.toNat - 'a'.toNat + 10)
  else if 'A' ≤ c && c ≤ 'Z' then some (c.toNat - 'A'.toNat + 10)
  else none

/-- A digit below the base. -/
def digitBelow? (base : Nat) (c : Char) : Option Nat :=
  (digitValue? c).filter (· < base)

/-- Continues a number after a digit; an underscore has to be followed by a digit. -/
def readDigits? (base acc : Nat) : List Char → Option Nat
  | [] => some acc
  | '_' :: c :: rest => do readDigits? base (acc * base + (← digitBelow? base c)) rest
  | c :: rest => do readDigits? base (acc * base + (← digitBelow? base c)) rest

/-- Drops `0x` in base 16 and `0o` in base 8, with one underscore after it. -/
def dropIntroducer (base : Nat) (s : List Char) : List Char :=
  let afterIntroducer : List Char → List Char
    | '_' :: rest => rest
    | rest => rest
  match s with
  | '0' :: c :: rest =>
    if (base == 16 && (c == 'x' || c == 'X')) || (base == 8 && (c == 'o' || c == 'O')) then
      afterIntroducer rest
    else s
  | _ => s

def readNat? (base : Nat) (s : List Char) : Option Nat :=
  match dropIntroducer base s with
  | [] => none
  | '_' :: _ => none
  | c :: rest => do readDigits? base (← digitBelow? base c) rest

/-- Blanks that may surround a number; the four information separators may not. -/
def isNumberBlank (c : Char) : Bool := isBlank c && !(28 ≤ c.toNat && c.toNat ≤ 31)

def readInt? (base : Nat) (s : List Char) : Option Int :=
  match dropRightWhile isNumberBlank ((s.map plainDigit).dropWhile isNumberBlank) with
  | '-' :: rest => (readNat? base rest).map fun n => -(n : Int)
  | '+' :: rest => (readNat? base rest).map Int.ofNat
  | rest => (readNat? base rest).map Int.ofNat

/-- The most digits that a decimal number read from text, or written as text, may have. -/
def digitLimit : Nat := 4300

/-- A number has at most as many decimal digits as the limit. -/
def IsShort (n : Int) : Prop := (Nat.toDigits 10 n.natAbs).length ≤ digitLimit
deriving Decidable

/-- A decimal number of at most as many digits as the limit. -/
def readDecimal? (s : List Char) : Option Int :=
  if digitLimit < (s.filter isDecimal).length then none else readInt? 10 s

end PropShear.Text
