/-! Glob patterns over whole texts.

`*` stands for any text, slashes included, `?` for any character, and `[…]` for one character of a
set. A set may be negated by `!` and hold ranges; a range whose ends are reversed is empty. A
bracket that is never closed stands for itself. -/
namespace PropShear

namespace Glob

/-- A part of a pattern. -/
inductive Part where
  | anyText
  /-- One character: of the ranges, or of none of them if negated. -/
  | oneOf (negated : Bool) (ranges : List (Char × Char))
  | only (c : Char)
deriving DecidableEq, Repr

def Part.anyChar : Part := .oneOf true []

/-- Whether a part that stands for one character stands for this one. -/
def Part.accepts (c : Char) : Part → Bool
  | .anyText => true
  | .oneOf negated ranges => (ranges.any fun (low, high) => low ≤ c && c ≤ high) != negated
  | .only d => c == d

/-! ### Sets -/

/-- The text of a set and what follows it, after the opening bracket. A closing bracket right at
the start, or right after `!`, belongs to the set. -/
def setText? (s : List Char) : Option (List Char × List Char) :=
  let start := match s with
    | '!' :: ']' :: _ => 2
    | '!' :: _ => 1
    | ']' :: _ => 1
    | _ => 0
  let rest := (s.drop start).takeWhile (· ≠ ']')
  let length := start + rest.length
  if length < s.length then some (s.take length, s.drop (length + 1)) else none

/-- Cuts the text of a set at the hyphens that make ranges. A hyphen makes no range at the start of
a piece or right after the character that follows another range; at the end it stands for
itself. The first `skip` characters belong to the piece. -/
def chunks (skip : Nat) (piece : List Char) : List Char → List (List Char)
  | [] => [piece.reverse]
  | c :: rest =>
    match skip with
    | skip + 1 => chunks skip (c :: piece) rest
    | 0 =>
      if c = '-' then
        if rest.isEmpty then [(c :: piece).reverse] else piece.reverse :: chunks 2 [] rest
      else chunks 0 (c :: piece) rest

/-- Drops ranges whose ends are reversed: the pieces on both sides lose their ends and are
joined. -/
def dropEmptyRanges : List (List Char) → List (List Char)
  | [] => []
  | piece :: more =>
    match dropEmptyRanges more with
    | [] => [piece]
    | next :: rest =>
      match piece.getLast?, next.head? with
      | some low, some high =>
        if high < low then (piece.dropLast ++ next.drop 1) :: rest else piece :: next :: rest
      | _, _ => piece :: next :: rest

/-- The characters and ranges of a piece and of the pieces joined to it by hyphens. -/
def ranges (piece : List Char) : List (List Char) → List (Char × Char)
  | [] => piece.map fun c => (c, c)
  | next :: rest =>
    match piece.getLast?, next with
    | some low, high :: more =>
      piece.dropLast.map (fun c => (c, c)) ++ (low, high) :: ranges more rest
    | _, _ => piece.map (fun c => (c, c)) ++ ranges next rest

/-- The part that the text of a set stands for. -/
def setPart (s : List Char) : Part :=
  match dropEmptyRanges (chunks (if s.head? = some '!' then 2 else 1) [] s) with
  | ('!' :: piece) :: more => .oneOf true (ranges piece more)
  | piece :: more => .oneOf false (ranges piece more)
  | [] => .oneOf false []

/-! ### Patterns -/

/-- Reads a pattern; the first `skip` characters have been read as a set. -/
def partsFrom (skip : Nat) : List Char → List Part
  | [] => []
  | c :: rest =>
    match skip with
    | skip + 1 => partsFrom skip rest
    | 0 =>
      if c = '*' then .anyText :: partsFrom 0 rest
      else if c = '?' then .anyChar :: partsFrom 0 rest
      else if c = '[' then
        match setText? rest with
        | some (set, _) => setPart set :: partsFrom (set.length + 1) rest
        | none => .only c :: partsFrom 0 rest
      else .only c :: partsFrom 0 rest

def parts (pattern : List Char) : List Part := partsFrom 0 pattern

/-- Makes true every entry with a true one after it. -/
def spreadLeft : List Bool → List Bool
  | [] => []
  | b :: rest =>
    match spreadLeft rest with
    | [] => [b]
    | c :: more => (b || c) :: c :: more

/-- For every end of the text, from the whole text to the empty one: whether the parts match it. -/
def matchEnds (s : List Char) : List Part → List Bool
  | [] => s.map (fun _ => false) ++ [true]
  | .anyText :: rest => spreadLeft (matchEnds s rest)
  | part :: rest => List.zipWith (fun c b => part.accepts c && b) s (matchEnds s rest).tail ++ [false]

/-- The pattern matches the whole text. -/
def isMatch (pattern s : List Char) : Bool := (matchEnds s (parts pattern)).headD false

/-- Puts every character that has a meaning in patterns into a set of its own. -/
def escape (s : List Char) : List Char :=
  s.flatMap fun c => if c = '*' || c = '?' || c = '[' then ['[', c, ']'] else [c]

end Glob
end PropShear
