/-! Tokens of YAML documents.

Indentation is made explicit: a block collection starts with a token of its own and ends with
`blockEnd`, and every key of a mapping is announced by `key`, also if nothing in the text does so
before its colon. -/
namespace PropShear.Yaml

inductive Token where
  /-- A line that starts with a percent sign. -/
  | directive
  | documentStart
  | documentEnd
  | sequenceStart
  | mappingStart
  | blockEnd
  | openBracket
  | closeBracket
  | openBrace
  | closeBrace
  /-- The dash of an item in a block. -/
  | dash
  | comma
  | key
  | colon
  | alias (name : List Char)
  | anchor (name : List Char)
  /-- Plain text may stand for a number or another value; text in quotes or in a block does not. -/
  | scalar (text : List Char) (plain : Bool)
deriving DecidableEq, Repr

/-! ### Characters -/

def isBreak (c : Char) : Bool :=
  c == '\n' || c == '\r' || c == '\x85' || c == '\u2028' || c == '\u2029'

/-- A blank, a break, or the end of the text. -/
def isGap : Option Char → Bool
  | none => true
  | some c => c == ' ' || c == '\t' || isBreak c

/-- Characters that a document may hold. -/
def isAllowed (c : Char) : Bool :=
  let n := c.toNat
  n == 9 || n == 10 || n == 13 || (0x20 ≤ n && n ≤ 0x7e) || n == 0x85 || (0xa0 ≤ n && n ≤ 0xfffd) ||
    0x10000 ≤ n

/-- What a break stands for in text: most are line feeds. -/
def breakText (c : Char) : Char := if c == '\u2028' || c == '\u2029' then c else '\n'

end PropShear.Yaml
