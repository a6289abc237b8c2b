import PropShear.Grammar.Dialect
import PropShear.Grammar.Lexeme

/-! Semicolons that need not be written.

A statement may end without a semicolon at the end of the text, before a closing brace, and at a
line break unless the next line goes on with something that can continue the statement. -/
namespace PropShear.Grammar

/-- What stands before the place where a semicolon may be left out. -/
inductive Tail where
  | expression
  /-- The head of a function, which a body may follow. -/
  | signature
  | other
deriving DecidableEq

/-- What ends the current line. -/
inductive LineEnd where
  /-- The end of the text, or a closing brace with the text after it. -/
  | closed (rest : List Char)
  /-- Another token. -/
  | token
  /-- A line break with the text after it. -/
  | broken (rest : List Char)

/-- The end of the current line, after blanks and comments; `n` more characters are skipped. -/
def lineEnd (d : Dialect) : Nat → List Char → LineEnd
  | _, [] => .closed []
  | n + 1, _ :: rest => lineEnd d n rest
  | 0, c :: rest =>
    if c == '\x7d' then .closed rest
    else if c == '\n' || (!d.hasTypes && (c.toNat == 0x2028 || c.toNat == 0x2029)) then .broken rest
    else if isGapBlank c then lineEnd d 0 rest
    else
      match commentLength? (c :: rest) with
      | some length => lineEnd d (length - 1) rest
      | none => .token

def isLetter (c : Char) : Bool :=
  ('a' ≤ c && c ≤ 'z') || ('A' ≤ c && c ≤ 'Z') || (128 ≤ c.toNat && isWordStart c)

/-- The text starts with the operator `in` or `instanceof`. -/
def startsWithWordOperator (text : List Char) : Bool :=
  let isWhole (rest : List Char) : Bool := !(rest.head?.map isLetter).getD false
  (("in".toList).isPrefixOf text && isWhole (text.drop 2)) ||
    (("instanceof".toList).isPrefixOf text && isWhole (text.drop 10))

/-- A new line with this text continues the statement before it. -/
def continuesLine (d : Dialect) (tail : Tail) (text : List Char) : Bool :=
  match text with
  | [] => false
  | '.' :: rest => d.hasTypes || !(rest.head?.map fun c => '0' ≤ c && c ≤ '9').getD false
  | '+' :: rest => rest.head? != some '+'
  | '-' :: rest => rest.head? != some '-'
  | '!' :: rest => rest.head? == some '='
  | c :: _ =>
    if c == '(' || c == '[' then !d.hasTypes || tail == .expression
    else if c == '\x7b' then d.hasTypes && tail == .signature
    else if c == 'i' then startsWithWordOperator text
    else "`,:;*%><=?^|&/".toList.contains c

/-- The statement ends here without a semicolon. -/
def endsWithout (d : Dialect) (tail : Tail) (text : List Char) : Bool :=
  match lineEnd d 0 text with
  | .token => false
  | .closed rest => !(d.hasTypes && (rest.dropWhile isGapBlank).head? == some ':')
  | .broken rest =>
    match Gap.after .blank 0 rest with
    | some i => !continuesLine d tail i.rest
    | none => false

/-- Moves past a comment on the same line and returns whether it ends the line. -/
def lineComment : Parser Bool := do
  let rest ← remaining
  let blanks := (rest.takeWhile fun c => isGapBlank c && !isLineEnd c).length
  let found := rest.drop blanks
  let some length := commentLength? found | failure
  advance (blanks + length)
  return ['/', '/'].isPrefixOf found

/-- Comments on the line that belong to a statement without a semicolon: all of them where types
are known, and otherwise those up to one that ends the line, after an expression only. -/
def trailingComments (d : Dialect) (tail : Tail) : Parser Unit := do
  if d.hasTypes then
    let _ ← many lineComment
  else if tail == .expression then
    let _ ← optional do
      let found ← many lineComment
      require (found.getLast? == some true)

/-- A semicolon, written or not. -/
def semicolon (d : Dialect) (tail : Tail) : Parser Unit := do
  if endsWithout d tail (← remaining) then trailingComments d tail else mark ";"

/-- Where an expression stands. -/
structure Context where
  /-- The expression ends a statement, so a line break may end it. -/
  endsStatement : Bool
  /-- The operator `in` is allowed. -/
  allowIn : Bool
  /-- A function may announce its result type after a colon. -/
  allowResultType : Bool

/-- Inside brackets. -/
def Context.inner : Context := ⟨false, true, true⟩

/-- At the end of a statement. -/
def Context.final : Context := ⟨true, true, true⟩

/-- A line break ends the expression here. -/
def Context.isOver (c : Context) (d : Dialect) : Parser Bool := do
  return c.endsStatement && endsWithout d .expression (← remaining)

end PropShear.Grammar
