import PropShear.Text.Quoted

/-! UTF-8 text.

Bytes are read one after another. A lead byte says how many bytes follow and, for the first of
them, between which bounds it lies, so that over-long forms, surrogates and numbers beyond the last
character are refused at the first byte that shows it. -/
namespace PropShear.Text.Utf8

def encode (s : List Char) : List UInt8 := s.flatMap String.utf8EncodeChar

/-! ### Errors -/

inductive Reason where
  | badLead
  | badContinuation
  | cutShort
deriving DecidableEq, Repr

def Reason.name : Reason → String
  | badLead => "invalid start byte"
  | badContinuation => "invalid continuation byte"
  | cutShort => "unexpected end of data"

/-- Bytes that are no character: where they are, and the first of them. -/
structure Error where
  start : Nat
  stop : Nat
  first : UInt8
  reason : Reason
deriving DecidableEq, Repr

def Error.message (e : Error) : String :=
  let place :=
    if e.stop = e.start + 1 then
      "byte 0x" ++ String.ofList (hexDigits 2 e.first.toNat) ++ " in position " ++ toString e.start
    else "bytes in position " ++ toString e.start ++ "-" ++ toString (e.stop - 1)
  "'utf-8' codec can't decode " ++ place ++ ": " ++ e.reason.name

/-! ### Reading -/

/-- A character of which some bytes are read. -/
structure Unfinished where
  first : UInt8
  /-- How many bytes are read. -/
  count : Nat
  value : Nat
  /-- How many bytes follow. -/
  missing : Nat
  /-- The bounds of the next byte. -/
  least : Nat
  most : Nat

/-- The character that a lead byte starts. -/
def Unfinished.ofLead? (b : UInt8) : Option Unfinished :=
  let n := b.toNat
  if n < 0xc2 then none
  else if n < 0xe0 then some ⟨b, 1, n - 0xc0, 1, 0x80, 0xbf⟩
  else if n < 0xf0 then
    some ⟨b, 1, n - 0xe0, 2, if n = 0xe0 then 0xa0 else 0x80, if n = 0xed then 0x9f else 0xbf⟩
  else if n < 0xf5 then
    some ⟨b, 1, n - 0xf0, 3, if n = 0xf0 then 0x90 else 0x80, if n = 0xf4 then 0x8f else 0xbf⟩
  else none

/-- Reads on at a position, perhaps inside a character. -/
def decodeFrom (position : Nat) : Option Unfinished → List UInt8 → Except Error (List Char)
  | none, [] => .ok []
  | some u, [] => .error ⟨position - u.count, position, u.first, .cutShort⟩
  | none, b :: rest =>
    if b.toNat < 0x80 then do
      return Char.ofNat b.toNat :: (← decodeFrom (position + 1) none rest)
    else
      match Unfinished.ofLead? b with
      | none => .error ⟨position, position + 1, b, .badLead⟩
      | some u => decodeFrom (position + 1) (some u) rest
  | some u, b :: rest =>
    let n := b.toNat
    if n < u.least ∨ u.most < n then
      .error ⟨position - u.count, position, u.first, .badContinuation⟩
    else
      let value := u.value * 64 + (n - 0x80)
      if u.missing ≤ 1 then do
        return Char.ofNat value :: (← decodeFrom (position + 1) none rest)
      else
        decodeFrom (position + 1)
          (some ⟨u.first, u.count + 1, value, u.missing - 1, 0x80, 0xbf⟩) rest

def decode (bytes : List UInt8) : Except Error (List Char) := decodeFrom 0 none bytes

end PropShear.Text.Utf8
