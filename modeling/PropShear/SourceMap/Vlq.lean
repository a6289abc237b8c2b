import PropShear.Text.Quoted

/-! Integers as runs of base-64 digits.

An integer is folded into a natural number with its sign in the lowest bit (`zigzag`). That number
is written in groups of five bits, the lowest first, one digit each; the sixth bit of a digit says
that another one follows. `encode` writes one integer, `decode` reads any number of them back. -/
namespace PropShear.SourceMap.Vlq

def alphabet : List Char :=
  "ABCDEFGHIJKLMNOPQRSTUVWXYZabcdefghijklmnopqrstuvwxyz0123456789+/".toList

def digit (n : Nat) : Char := alphabet.getD n 'A'

def digit? (c : Char) : Option Nat := alphabet.idxOf? c

/-- The magnitude doubled, plus one for a negative integer. -/
def zigzag (v : Int) : Nat := if v < 0 then 2 * v.natAbs + 1 else 2 * v.natAbs

def unzigzag (n : Nat) : Int := if n % 2 = 1 then -((n / 2 : Nat) : Int) else ((n / 2 : Nat) : Int)

/-- The digits of a folded number. -/
def digits (n : Nat) : List Char :=
  if n < 32 then [digit n] else digit (n % 32 + 32) :: digits (n / 32)
termination_by n

def encode (v : Int) : List Char := digits (zigzag v)

inductive Error where
  | badCharacter (c : Char)
  | truncated
deriving DecidableEq, Repr

def Error.message : Error → String
  | badCharacter c => "invalid base64 VLQ character: " ++ Text.quoted (String.singleton c)
  | truncated => "truncated VLQ sequence"

/-- Reads on in the middle of a number: `acc` holds the bits read so far, below `2 ^ shift`. -/
def decodeFrom (acc shift : Nat) : List Char → Except Error (List Int)
  | [] => if shift = 0 then .ok [] else .error .truncated
  | c :: rest =>
    match digit? c with
    | none => .error (.badCharacter c)
    | some d =>
      let acc := acc + d % 32 * Nat.pow 2 shift
      if d < 32 then (decodeFrom 0 0 rest).map (unzigzag acc :: ·)
      else decodeFrom acc (shift + 5) rest

/-- The integers that a run of digits holds. -/
def decode (s : List Char) : Except Error (List Int) := decodeFrom 0 0 s

end PropShear.SourceMap.Vlq
