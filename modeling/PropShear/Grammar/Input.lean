import PropShear.Text.Offset

/-! Parsers that read a text from left to right.

A parser takes what is left of the text and either fails or returns a value and what is left after
it. The offset counts the bytes read so far, so every extent in a syntax tree is a pair of offsets
the parser has stood at. -/
namespace PropShear.Grammar

/-- What is left of a text and the number of bytes before it. -/
structure Input where
  rest : List Char
  offset : Nat
deriving Repr

abbrev Parser := StateT Input Option

/-- The first character left, if there is one. -/
def peek : Parser (Option Char) := fun i => some (i.rest.head?, i)

/-- The number of bytes read so far. -/
def offset : Parser Nat := fun i => some (i.offset, i)

/-- What is left of the text. -/
def remaining : Parser (List Char) := fun i => some (i.rest, i)

/-- Moves past a number of characters. -/
def advance (n : Nat) : Parser Unit := fun i =>
  some ((), ⟨i.rest.drop n, i.offset + Text.byteLength (i.rest.take n)⟩)

/-- Succeeds if the condition holds. -/
def require (condition : Bool) : Parser Unit := if condition then pure () else failure

/-- Whether a parser would succeed here. -/
def succeeds {α : Type} (p : Parser α) : Parser Bool := fun i => some ((p i).isSome, i)

/-- Runs a parser if it succeeds. -/
def optional {α : Type} (p : Parser α) : Parser (Option α) := fun i =>
  match p i with
  | some (a, j) => some (some a, j)
  | none => some (none, i)

/-- Repeats a parser at most `n` times, as long as it succeeds and moves on. -/
def repeated {α : Type} (p : Parser α) : Nat → Parser (List α)
  | 0 => pure []
  | n + 1 => fun i =>
    match p i with
    | some (a, j) =>
      if i.offset < j.offset then (repeated p n j).map fun (as, k) => (a :: as, k) else some ([], i)
    | none => some ([], i)

/-- Repeats a parser as long as it succeeds and moves on. -/
def many {α : Type} (p : Parser α) : Parser (List α) := fun i => repeated p i.rest.length i

/-- Repeats a parser at most `n` times, each time from the result of the time before, as long as it
succeeds and moves on. -/
def folded {α : Type} (p : α → Parser α) : Nat → α → Parser α
  | 0, a => pure a
  | n + 1, a => fun i =>
    match p a i with
    | some (b, j) => if i.offset < j.offset then folded p n b j else some (a, i)
    | none => some (a, i)

/-- Extends a value as long as a parser succeeds and moves on. -/
def extended {α : Type} (a : α) (p : α → Parser α) : Parser α := fun i =>
  folded p i.rest.length a i

/-- The first parser that succeeds. -/
def firstOf {α : Type} : List (Parser α) → Parser α
  | [] => failure
  | p :: more => p <|> firstOf more

end PropShear.Grammar
