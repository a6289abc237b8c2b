import PropShear.Yaml.Token

/-! The state of a reader of tokens and its steps.

A scalar or a flow collection may turn out to be the key of a mapping when a colon follows it on the
same line. So the state remembers, for each level of brackets, the token at which such a key would
start, and puts the tokens that announce it there when the colon comes. -/
namespace PropShear.Yaml

/-- A token that may be the start of a key. -/
structure PendingKey where
  /-- The depth of brackets around it. -/
  depth : Nat
  /-- Nothing but a key can stand here. -/
  required : Bool
  /-- How many tokens come before it. -/
  tokens : Nat
  index : Nat
  line : Nat
  column : Nat

structure Scan where
  rest : List Char
  index : Nat
  line : Nat
  column : Nat
  /-- The tokens found so far, the last one first. -/
  found : List Token
  /-- The depth of brackets. -/
  depth : Nat
  /-- The column of the block that is open, and those of the blocks around it. -/
  indent : Int
  outer : List Int
  /-- Whether a key may start here. -/
  keyAllowed : Bool
  pending : List PendingKey

namespace Scan

def ofText (text : List Char) : Scan := ⟨text, 0, 0, 0, [], 0, -1, [], true, []⟩

/-- Moves over a number of characters. -/
def forward (s : Scan) : Nat → Scan
  | 0 => s
  | n + 1 =>
    match s.rest with
    | [] => s
    | c :: rest =>
      let next := { s with rest, index := s.index + 1 }
      let joined := c == '\r' && rest.head? == some '\n'
      if isBreak c && !joined then forward { next with line := s.line + 1, column := 0 } n
      else if c == '\ufeff' then forward next n
      else forward { next with column := s.column + 1 } n

def inFlow (s : Scan) : Bool := 0 < s.depth

/-- Moves over a break and tells what it stands for. -/
def takeBreak (s : Scan) : Option (Char × Scan) :=
  match s.rest with
  | '\r' :: '\n' :: _ => some ('\n', s.forward 2)
  | c :: _ => if isBreak c then some (breakText c, s.forward 1) else none
  | [] => none

/-- Moves over characters of a class. -/
def skip (s : Scan) (p : Char → Bool) : Scan := s.forward (s.rest.takeWhile p).length

/-- Whether a marker between documents stands here: three signs at the start of a line and a gap. -/
def atMarker (s : Scan) (sign : Char) : Bool :=
  s.column == 0 && s.rest.take 3 == [sign, sign, sign] && isGap (s.rest.drop 3).head?

def atAnyMarker (s : Scan) : Bool :=
  (s.rest.take 3 == ['-', '-', '-'] || s.rest.take 3 == ['.', '.', '.']) &&
    isGap (s.rest.drop 3).head?

/-! ### Keys and indentation -/

/-- Adds a token. -/
def add (s : Scan) (t : Token) : Scan := { s with found := t :: s.found }

/-- Puts tokens before the ones from a number on. -/
def insert (s : Scan) (before : Nat) (tokens : List Token) : Scan :=
  let later := s.found.length - before
  { s with found := s.found.take later ++ tokens.reverse ++ s.found.drop later }

/-- Closes the blocks that are indented more than a column. -/
def closeBlocksFrom (s : Scan) (column : Int) : List Int → Scan
  | [] => s
  | outer :: rest =>
    if column < s.indent then
      closeBlocksFrom { s with indent := outer, outer := rest, found := .blockEnd :: s.found } column rest
    else s

def closeBlocks (s : Scan) (column : Int) : Scan :=
  if s.inFlow then s else closeBlocksFrom s column s.outer

/-- Opens a block at a column unless one is open there. -/
def openBlock? (s : Scan) (column : Nat) : Option Scan :=
  if s.indent < column then some { s with indent := column, outer := s.indent :: s.outer } else none

/-- Gives up the possible key at the present depth. -/
def dropKey (s : Scan) : Option Scan :=
  if s.pending.any fun k => k.depth == s.depth && k.required then none
  else some { s with pending := s.pending.filter (·.depth != s.depth) }

/-- A key has to end on its line and within 1024 characters. -/
def isStale (s : Scan) (k : PendingKey) : Bool := k.line != s.line || 1024 < s.index - k.index

/-- Gives up the possible keys that can no longer become keys. -/
def dropStaleKeys (s : Scan) : Option Scan :=
  if s.pending.any fun k => s.isStale k && k.required then none
  else some { s with pending := s.pending.filter (!s.isStale ·) }

/-- Remembers that a key may start here. -/
def markKey (s : Scan) : Option Scan :=
  if s.keyAllowed then do
    let required := !s.inFlow && s.indent == s.column
    let s ← s.dropKey
    return { s with pending :=
      ⟨s.depth, required, s.found.length, s.index, s.line, s.column⟩ :: s.pending }
  else some s

end Scan
end PropShear.Yaml
