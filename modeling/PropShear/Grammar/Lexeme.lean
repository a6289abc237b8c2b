import PropShear.Grammar.Input
import PropShear.Text.Blank
import PropShear.Tree.Node

/-! Words, punctuation, literals and the gaps between them.

The parser stands right after the last token it read; `skipGap` moves past blanks and comments to
the next one. Punctuation is read by longest match, so `=` is never read off `==`. -/
namespace PropShear.Grammar

/-! ### Gaps -/

/-- Blanks between tokens. -/
def isGapBlank (c : Char) : Bool :=
  (Text.isBlank c && !(28 ≤ c.toNat && c.toNat ≤ 31)) || c.toNat == 0xfeff || c.toNat == 0x2060 ||
    c.toNat == 0x200b

def isLineEnd (c : Char) : Bool :=
  c == '\n' || c == '\r' || c.toNat == 0x2028 || c.toNat == 0x2029

/-- Where a scan over a gap stands. -/
inductive Gap where
  | blank
  | lineComment
  | blockComment

/-- What is left after a gap, with its offset; `none` inside a comment that does not end. -/
def Gap.after : Gap → Nat → List Char → Option Input
  | .blank, o, '/' :: '/' :: rest => after .lineComment (o + 2) rest
  | .blank, o, '/' :: '*' :: rest =>
    match after .blockComment (o + 2) rest with
    | some i => some i
    | none => some ⟨'/' :: '*' :: rest, o⟩
  | .blank, o, c :: rest =>
    if isGapBlank c then after .blank (o + c.utf8Size) rest else some ⟨c :: rest, o⟩
  | .blank, o, [] => some ⟨[], o⟩
  | .lineComment, o, c :: rest =>
    if isLineEnd c then after .blank (o + c.utf8Size) rest
    else after .lineComment (o + c.utf8Size) rest
  | .lineComment, o, [] => some ⟨[], o⟩
  | .blockComment, o, '*' :: '/' :: rest => after .blank (o + 2) rest
  | .blockComment, o, c :: rest => after .blockComment (o + c.utf8Size) rest
  | .blockComment, _, [] => none

/-- Moves past blanks and comments. -/
def skipGap : Parser Unit := fun i =>
  some ((), (Gap.after .blank i.offset i.rest).getD i)

/-- Moves to the next token and returns its offset. -/
def here : Parser Nat := do skipGap; offset

/-- The text starts with a mark that makes a comment of a line between statements. -/
def startsMarkupComment (text : List Char) : Bool :=
  ['<', '!', '-', '-'].isPrefixOf text || ['-', '-', '>'].isPrefixOf text

/-- Moves past a gap between statements, where lines may be commented out by markup. -/
def Gap.between : Nat → Input → Input
  | 0, i => i
  | n + 1, i =>
    match Gap.after .blank i.offset i.rest with
    | none => i
    | some j =>
      if startsMarkupComment j.rest then
        match Gap.after .lineComment j.offset j.rest with
        | some k => between n k
        | none => j
      else j

/-- Moves past blanks and comments between statements. -/
def skipStatementGap : Parser Unit := fun i => some ((), Gap.between (i.rest.length + 1) i)

/-! ### Nodes -/

/-- A node of a kind with the children that a parser reads. -/
def build (kind : Kind) (p : Parser (List Node)) : Parser Node := do
  let start ← here
  let children ← p
  return Node.branch kind start (← offset) children

/-- A node that starts where another one does and ends at the last token read. -/
def buildFrom (first : Node) (kind : Kind) (children : List Node) : Parser Node := do
  return Node.branch kind first.start (← offset) children

/-- The length of the rest of a block comment. -/
def blockCommentRest? : List Char → Option Nat
  | '*' :: '/' :: _ => some 2
  | _ :: rest => (blockCommentRest? rest).map (· + 1)
  | [] => none

/-- The length of the comment that a text starts with. -/
def commentLength? : List Char → Option Nat
  | '/' :: '/' :: rest => some ((rest.takeWhile fun c => !isLineEnd c).length + 2)
  | '/' :: '*' :: rest => (blockCommentRest? rest).map (· + 2)
  | _ => none

/-- A comment, after blanks only. -/
def comment : Parser Node := do
  advance ((← remaining).takeWhile isGapBlank).length
  let start ← offset
  let some length := commentLength? (← remaining) | failure
  advance length
  return Node.branch .comment start (← offset) []

/-! ### Words -/

/-- Characters that never stand in a word. -/
def separators : List Char := ":;`\"'@#.,|^&<=>+-*/\\%?!~()[]\x7b\x7d".toList

/-- A character that can start a word; words are not limited to letters. -/
def isWordStart (c : Char) : Bool :=
  32 ≤ c.toNat && !isGapBlank c && !('0' ≤ c && c ≤ '9') && !separators.contains c

def isWordPart (c : Char) : Bool := isWordStart c || ('0' ≤ c && c ≤ '9')

def isHexDigit (c : Char) : Bool :=
  ('0' ≤ c && c ≤ '9') || ('a' ≤ c && c ≤ 'f') || ('A' ≤ c && c ≤ 'F')

/-- The length of the code point escape that a text starts with, after its backslash. -/
def codePointEscape? : List Char → Option Nat
  | 'u' :: '\x7b' :: rest =>
    let digits := rest.takeWhile isHexDigit
    if digits.isEmpty || (rest.drop digits.length).head? != some '\x7d' then none
    else some (digits.length + 3)
  | 'u' :: a :: b :: c :: d :: _ => if [a, b, c, d].all isHexDigit then some 5 else none
  | _ => none

/-- The length of the word that a text goes on with; the first `n` characters belong to it. -/
def wordLength : Nat → List Char → Nat
  | _, [] => 0
  | n + 1, _ :: rest => wordLength n rest + 1
  | 0, c :: rest =>
    if isWordPart c then wordLength 0 rest + 1
    else if c = '\\' then
      match codePointEscape? rest with
      | some n => wordLength n rest + 1
      | none => 0
    else 0

/-- A word: an identifier or a keyword. -/
def word : Parser String := do
  skipGap
  let rest ← remaining
  match rest with
  | c :: _ =>
    require (isWordStart c || c == '\\')
    let length := wordLength 0 rest
    require (length != 0)
    advance length
    return String.ofList (rest.take length)
  | [] => failure

/-- The word that comes next, or the empty text. -/
def peekWord : Parser String := fun i => some ((word i).elim "" (·.1), i)

def keyword (name : String) : Parser Unit := do require ((← word) == name)

/-- A word as a node. -/
def wordNode (kind : Kind) : Parser Node := build kind do
  discard word
  return []

/-! ### Punctuation -/

/-- Punctuation of more than one character, longest first. -/
def longPunctuation : List (List Char) :=
  [">>>=", "...", "===", "!==", "**=", "<<=", ">>=", ">>>", "&&=", "||=", "??=", "=>", "==", "!=",
    "<=", ">=", "&&", "||", "??", "?.", "++", "--", "+=", "-=", "*=", "/=", "%=", "&=", "|=", "^=",
    "<<", ">>", "**"].map String.toList

/-- An optional chain is not read off a condition before a number. -/
def isConditionBeforeNumber : List Char → Bool
  | '?' :: '.' :: c :: _ => '0' ≤ c && c ≤ '9'
  | _ => false

/-- The punctuation that a text starts with. -/
def punctuation : List Char → List Char
  | [] => []
  | c :: rest =>
    if isConditionBeforeNumber (c :: rest) then [c]
    else (longPunctuation.find? (·.isPrefixOf (c :: rest))).getD [c]

/-- The punctuation that comes next. -/
def peekMark : Parser String := do
  skipGap
  match ← remaining with
  | [] => return ""
  | rest => return String.ofList (punctuation rest)

def mark (text : String) : Parser Unit := do
  skipGap
  let found := punctuation (← remaining)
  require (found == text.toList)
  advance found.length

/-- A single character, also as a part of longer punctuation. -/
def char (c : Char) : Parser Unit := do
  skipGap
  require ((← peek) == some c)
  advance 1

/-- Whether a mark comes next. -/
def comes (text : String) : Parser Bool := succeeds (mark text)

/-- A separated list in which items may be left out, up to the closing character. -/
def sparseList {α : Type} (item : Parser α) (close : Char) : Parser (List α) := do
  let first ← optional item
  let more ← many do
    char ','
    optional item
  char close
  return (first :: more).filterMap id

/-- A list without gaps that may end in a separator, up to the closing character. -/
def denseList {α : Type} (item : Parser α) (close : Char) : Parser (List α) := do
  let items ← optional do
    let first ← item
    let more ← many do
      char ','
      item
    let _ ← optional (char ',')
    return first :: more
  char close
  return items.getD []

/-! ### Numbers -/

def isDecimalDigit (c : Char) : Bool := '0' ≤ c && c ≤ '9'

/-- The length of more digits of a class, each perhaps after an underscore. -/
def moreDigits (p : Char → Bool) : List Char → Nat
  | [] => 0
  | '_' :: c :: rest => if p c then moreDigits p rest + 2 else 0
  | c :: rest => if p c then moreDigits p rest + 1 else 0

/-- The length of the digits of a class that a text starts with; single underscores may stand
between them. -/
def digitRun (p : Char → Bool) : List Char → Nat
  | [] => 0
  | c :: rest => if p c then moreDigits p rest + 1 else 0

/-- The length of an exponent, if the text starts with one. -/
def exponentLength : List Char → Nat
  | e :: rest =>
    if e == 'e' || e == 'E' then
      let sign := match rest with
        | '+' :: _ | '-' :: _ => 1
        | _ => 0
      let digits := digitRun isDecimalDigit (rest.drop sign)
      if digits == 0 then 0 else 1 + sign + digits
    else 0
  | [] => 0

/-- The length of the number that a text starts with, or zero. -/
def numberLength (text : List Char) : Nat :=
  let withSuffix (n : Nat) : Nat := if (text.drop n).head? == some 'n' then n + 1 else n
  let radix (inRadix : Char → Bool) : Nat :=
    let digits := digitRun inRadix (text.drop 2)
    if digits == 0 then 1 else withSuffix (digits + 2)
  match text with
  | '0' :: 'x' :: _ | '0' :: 'X' :: _ => radix isHexDigit
  | '0' :: 'o' :: _ | '0' :: 'O' :: _ => radix fun c => '0' ≤ c && c ≤ '7'
  | '0' :: 'b' :: _ | '0' :: 'B' :: _ => radix fun c => c == '0' || c == '1'
  | '.' :: rest =>
    let digits := digitRun isDecimalDigit rest
    if digits == 0 then 0 else digits + 1 + exponentLength (rest.drop digits)
  | _ =>
    let n := digitRun isDecimalDigit text
    if n == 0 then 0
    else
      match text.drop n with
      | '.' :: rest =>
        let m := n + 1 + digitRun isDecimalDigit rest
        m + exponentLength (text.drop m)
      | rest => if exponentLength rest == 0 then withSuffix n else n + exponentLength rest

def number : Parser Node := build (.other "number") do
  let length := numberLength (← remaining)
  require (length != 0)
  advance length
  return []

/-! ### Strings -/

def isOctalDigit (c : Char) : Bool := '0' ≤ c && c ≤ '7'

/-- The length of an escape sequence after its backslash. -/
def escapeLength? : List Char → Option Nat
  | [] => none
  | 'x' :: a :: b :: _ => if isHexDigit a && isHexDigit b then some 3 else none
  | 'x' :: _ => none
  | 'u' :: rest => codePointEscape? ('u' :: rest)
  | '\r' :: c :: _ | '?' :: c :: _ =>
    if c == '\n' || c.toNat == 0x2028 || c.toNat == 0x2029 then some 2 else some 1
  | c :: rest =>
    if isOctalDigit c then some (((c :: rest).take 3).takeWhile isOctalDigit).length
    else some 1

def escapeSequence : Parser Node := do
  let start ← offset
  let '\\' :: rest ← remaining | failure
  let some length := escapeLength? rest | failure
  advance (length + 1)
  return Node.branch .escapeSequence start (← offset) []

/-- Characters of a literal up to one that ends the fragment. -/
def fragment (kind : Kind) (ends : Char → Bool) : Parser Node := do
  let start ← offset
  let length := ((← remaining).takeWhile fun c => !ends c).length
  require (length != 0)
  advance length
  return Node.branch kind start (← offset) []

/-- A string in the given quotes. -/
def stringIn (quote : Char) : Parser Node := build .string do
  require ((← peek) == some quote)
  advance 1
  let isEnd (c : Char) : Bool := c == quote || c == '\\' || c == '\n' || c == '\r'
  let parts ← many (fragment (.other "string_fragment") isEnd <|> escapeSequence)
  require ((← peek) == some quote)
  advance 1
  return parts

def string : Parser Node := stringIn '"' <|> stringIn '\''

/-! ### Regular expressions -/

/-- The length of a regular expression after its first slash, up to and with the last one. -/
def regexRest? (inClass : Bool) : List Char → Option Nat
  | [] => none
  | '\\' :: c :: rest => if isLineEnd c then none else (regexRest? inClass rest).map (· + 2)
  | c :: rest =>
    if c == '\n' || c == '\r' then none
    else if c == '/' && !inClass then some 1
    else (regexRest? (c == '[' || (inClass && c != ']')) rest).map (· + 1)

def regex : Parser Node := build (.other "regex") do
  let '/' :: rest ← remaining | failure
  require (rest.head? != some '/' && rest.head? != some '*')
  let some length := regexRest? false rest | failure
  advance (length + 1)
  let flags := (← remaining).takeWhile fun c => 'a' ≤ c && c ≤ 'z'
  advance flags.length
  return []

end PropShear.Grammar
