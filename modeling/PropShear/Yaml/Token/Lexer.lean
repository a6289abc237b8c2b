import PropShear.Yaml.Token.Scalar

/-! Cutting a YAML document into tokens. -/
namespace PropShear.Yaml

namespace Scan

/-- Moves over blanks, comments and breaks. Outside brackets a key may start on a new line. -/
def skipToToken : Nat → Scan → Scan
  | 0, s => s
  | fuel + 1, s =>
    let s := s.skip (· == ' ')
    let s := if s.rest.head? == some '#' then s.skip (!isBreak ·) else s
    match s.takeBreak with
    | none => s
    | some (_, t) => skipToToken fuel { t with keyAllowed := s.keyAllowed || !s.inFlow }

/-! ### Tokens between documents -/

/-- Closes everything that is open in the document. -/
def close (s : Scan) : Option Scan := do
  let s ← (s.closeBlocks (-1)).dropKey
  return { s with keyAllowed := false }

def directiveToken (s : Scan) : Option Scan := do
  let s ← s.close
  return (s.skip (!isBreak ·)).add .directive

def markerToken (s : Scan) (t : Token) : Option Scan := do
  let s ← s.close
  return (s.forward 3).add t

/-! ### Tokens of flow collections -/

def openingToken (s : Scan) (t : Token) : Option Scan := do
  let s ← s.markKey
  return ({ s with depth := s.depth + 1, keyAllowed := true }.forward 1).add t

/-- A closing bracket needs an open one. -/
def closingToken (s : Scan) (t : Token) : Option Scan := do
  guard s.inFlow
  let s ← s.dropKey
  return ({ s with depth := s.depth - 1, keyAllowed := false }.forward 1).add t

def commaToken (s : Scan) : Option Scan := do
  let s ← s.dropKey
  return ({ s with keyAllowed := true }.forward 1).add .comma

/-! ### Tokens of block collections -/

/-- Opens a block here, if none is open, with a token that says of what kind. Blocks start where a
key may start. -/
def startBlock (s : Scan) (t : Token) : Option Scan :=
  if s.inFlow then some s
  else if !s.keyAllowed then none
  else
    match s.openBlock? s.column with
    | some s => some (s.add t)
    | none => some s

def dashToken (s : Scan) : Option Scan := do
  let s ← s.startBlock .sequenceStart
  let s ← s.dropKey
  return ({ s with keyAllowed := true }.forward 1).add .dash

/-- A question mark announces a key. -/
def questionToken (s : Scan) : Option Scan := do
  let s ← s.startBlock .mappingStart
  let s ← s.dropKey
  return ({ s with keyAllowed := !s.inFlow }.forward 1).add .key

/-- A colon makes a key of the token that may be one; without such a token the key is empty. -/
def colonToken (s : Scan) : Option Scan := do
  match s.pending.find? (·.depth == s.depth) with
  | some k =>
    let s := { s with pending := s.pending.filter (·.depth != s.depth), keyAllowed := false }
    let s :=
      if s.inFlow then s.insert k.tokens [.key]
      else
        match s.openBlock? k.column with
        | some opened => opened.insert k.tokens [.mappingStart, .key]
        | none => s.insert k.tokens [.key]
    return (s.forward 1).add .colon
  | none =>
    let s ← s.startBlock .mappingStart
    let s ← s.dropKey
    return ({ s with keyAllowed := !s.inFlow }.forward 1).add .colon

/-! ### Tokens of nodes -/

def isNameChar (c : Char) : Bool := c.isAlphanum || c == '-' || c == '_'

/-- The characters that may stand right behind a name. -/
def nameEnds : List Char := "?:,]\x7d%@".toList ++ [Char.ofNat 96]

/-- The name of an anchor or alias, behind its sign. -/
def nameToken (s : Scan) (make : List Char → Token) : Option Scan := do
  let s ← s.markKey
  let s := { s with keyAllowed := false }.forward 1
  let name := s.rest.takeWhile isNameChar
  guard (!name.isEmpty)
  let s := s.forward name.length
  let next := s.rest.head?
  guard (isGap next || next.any nameEnds.contains)
  return s.add (make name)

def quotedToken (s : Scan) (double : Bool) : Option Scan := do
  let s ← s.markKey
  let (text, s) ← { s with keyAllowed := false }.takeQuoted double
  return s.add (.scalar text false)

def blockToken (s : Scan) (folded : Bool) : Option Scan := do
  let s ← s.dropKey
  let (text, s) ← { s with keyAllowed := true }.takeBlock folded
  return s.add (.scalar text false)

def plainToken (s : Scan) : Option Scan := do
  let s ← s.markKey
  let (text, s) := { s with keyAllowed := false }.takePlain
  return s.add (.scalar text true)

/-- The characters that have a meaning at the start of a token. -/
def indicators : List Char := "-?:,[]\x7b\x7d#&*!|>'\"%@".toList ++ [Char.ofNat 96]

/-- Whether plain text may start with a character, followed by another one. -/
def startsPlain (s : Scan) (c : Char) (next : Option Char) : Bool :=
  !(isGap (some c) || indicators.contains c) ||
    (!isGap next && (c == '-' || (!s.inFlow && (c == '?' || c == ':'))))

/-! ### All tokens -/

/-- The token that starts with a character. -/
def nextToken (s : Scan) (c : Char) (next : Option Char) : Option Scan :=
  if c == '%' && s.column == 0 then s.directiveToken
  else if s.atMarker '-' then s.markerToken .documentStart
  else if s.atMarker '.' then s.markerToken .documentEnd
  else if c == '[' then s.openingToken .openBracket
  else if c == '\x7b' then s.openingToken .openBrace
  else if c == ']' then s.closingToken .closeBracket
  else if c == '\x7d' then s.closingToken .closeBrace
  else if c == ',' then s.commaToken
  else if c == '-' && isGap next then s.dashToken
  else if c == '?' && (s.inFlow || isGap next) then s.questionToken
  else if c == ':' && (s.inFlow || isGap next) then s.colonToken
  else if c == '*' then s.nameToken .alias
  else if c == '&' then s.nameToken .anchor
  else if c == '|' && !s.inFlow then s.blockToken false
  else if c == '>' && !s.inFlow then s.blockToken true
  else if c == '\'' then s.quotedToken false
  else if c == '"' then s.quotedToken true
  else if s.startsPlain c next then s.plainToken
  else none

/-- Takes tokens up to the end of the text. -/
def run : Nat → Scan → Option Scan
  | 0, _ => none
  | fuel + 1, s => do
    let s ← (skipToToken (s.rest.length + 1) s).dropStaleKeys
    let s := s.closeBlocks s.column
    match s.rest with
    | [] => s.close
    | c :: rest => run fuel (← s.nextToken c rest.head?)

end Scan

/-- The tokens of a document. A byte order mark at its start does not count. -/
def tokens? (text : List Char) : Option (List Token) := do
  guard (text.all isAllowed)
  let text := if text.head? == some '\ufeff' then text.drop 1 else text
  return (← (Scan.ofText text).run (text.length + 1)).found.reverse

end PropShear.Yaml
