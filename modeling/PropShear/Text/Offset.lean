/-! Byte offsets and character indices of a text.

Offsets count the bytes of the UTF-8 form. `charIndex` turns an offset into the index of the
character that holds that byte: the offset itself if every character takes one byte, and else what
a search among the offsets of the characters finds. `slice?` cuts the text between two offsets. -/
namespace PropShear.Text

/-- The number of bytes of the UTF-8 form. -/
def byteLength (s : List Char) : Nat := s.foldr (fun c n => c.utf8Size + n) 0

/-- The offset of the first byte of each character; that of the first character is `offset`. -/
def charStarts (offset : Nat) : List Char → List Nat
  | [] => []
  | c :: rest => offset :: charStarts (offset + c.utf8Size) rest

/-- How many entries of an increasing table are at most `b`, if that is a number from `low` to
`high`: the entry in the middle says which half it is in. Open to reduction, so that an index in a
given text can be evaluated. -/
@[semireducible]
def countUpTo (table : Array Nat) (b low high : Nat) (hhigh : high ≤ table.size) : Nat :=
  if h : low < high then
    let middle := (low + high) / 2
    have hmiddle : middle < table.size := by omega
    if b < table[middle] then countUpTo table b low middle (by omega)
    else countUpTo table b (middle + 1) high hhigh
  else low
termination_by high - low

/-- The last character that starts at byte `b` or before it, and the length from the end on. -/
def searchIndex (s : List Char) (b : Nat) : Nat :=
  if byteLength s ≤ b then s.length
  else
    let table := (charStarts 0 s).toArray
    countUpTo table b 0 table.size (Nat.le_refl _) - 1

/-- The index of the character that holds byte `b`. In a text of single bytes an offset is its own
index, also past the end. -/
def charIndex (s : List Char) (b : Nat) : Nat :=
  if byteLength s = s.length then b else searchIndex s b

/-- Drops a number of bytes; `none` if that would cut a character. -/
def dropBytes? : List Char → Nat → Option (List Char)
  | s, 0 => some s
  | [], _ => some []
  | c :: rest, n => if c.utf8Size ≤ n then dropBytes? rest (n - c.utf8Size) else none

/-- Keeps a number of bytes; `none` if that would cut a character. -/
def takeBytes? : List Char → Nat → Option (List Char)
  | _, 0 => some []
  | [], _ => some []
  | c :: rest, n =>
    if c.utf8Size ≤ n then (takeBytes? rest (n - c.utf8Size)).map (c :: ·) else none

/-- The text between two byte offsets, cut short at the end of the text; empty if they are
reversed, and `none` if an end lies inside a character. -/
def slice? (s : List Char) (start stop : Nat) : Option (List Char) :=
  if stop ≤ start then some []
  else do takeBytes? (← dropBytes? s start) (stop - start)

end PropShear.Text
