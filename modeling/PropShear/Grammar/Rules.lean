import PropShear.Grammar.Semicolon

/-! The rules of the grammar that refer to each other.

A parser for one construct takes the others from a record of rules, so each can be written on its
own; `Grammar.Program` ties the knot. -/
namespace PropShear.Grammar

structure Rules where
  dialect : Dialect
  /-- An expression without a comma operator at its top. -/
  expression : Context → Parser Node
  /-- An expression with operators that bind at least as tightly as a level. -/
  binary : Context → Nat → Parser Node
  /-- An expression without binary operators. -/
  unary : Context → Parser Node
  /-- A value with the calls and accesses after it. -/
  operand : Context → Parser Node
  /-- A value on its own. -/
  primary : Context → Parser Node
  statement : Parser Node
  /-- A target of a destructuring. -/
  pattern : Parser Node
  type : Parser Node
  /-- A JSX element. -/
  element : Parser Node

/-- The rules that accept nothing. -/
def Rules.empty (d : Dialect) : Rules where
  dialect := d
  expression _ := failure
  binary _ _ := failure
  unary _ := failure
  operand _ := failure
  primary _ := failure
  statement := failure
  pattern := failure
  type := failure
  element := failure

/-! ### Names -/

/-- Words that are no names in any position. -/
def reservedWords : List String :=
  ["break", "case", "catch", "class", "const", "continue", "debugger", "default", "delete", "do",
    "else", "export", "extends", "false", "finally", "for", "function", "if", "import", "in",
    "instanceof", "new", "null", "return", "super", "switch", "this", "throw", "true", "try",
    "typeof", "var", "void", "while", "with", "yield", "await"]

/-- Words that start an expression of their own where types are known; all other words are read as
names where a name is expected. -/
def operandWords : List String :=
  ["class", "delete", "false", "function", "import", "new", "null", "super", "this", "true",
    "typeof", "void", "yield", "await"]

/-- A name, as an expression. -/
def identifier (d : Dialect) : Parser Node := build .identifier do
  let name ← word
  require !((if d.hasTypes then operandWords else reservedWords).contains name)
  return []

/-- A name that is bound. -/
def bindingName (d : Dialect) : Parser Node := build .identifier do
  let name ← word
  require (d.hasTypes || !reservedWords.contains name)
  return []

/-- A name after a dot. -/
def propertyName : Parser Node := wordNode .propertyIdentifier

/-- A private name, with its number sign. -/
def privateName : Parser Node := build (.other "private_property_identifier") do
  require ((← peek) == some '#')
  advance 1
  let rest ← remaining
  let length := wordLength 0 rest
  require (length != 0)
  advance length
  return []

/-! ### Parts shared by several constructs -/

/-- Expressions joined by commas. -/
def Rules.sequence (r : Rules) (c : Context) : Parser Node := do
  let first ← r.expression c
  let more ← many do
    mark ","
    r.expression c
  if more.isEmpty then return first
  else buildFrom first (.other "sequence_expression") (first :: more)

def Rules.parenthesized (r : Rules) : Parser Node := build .parenthesizedExpression do
  char '('
  let inner ← r.sequence .inner
  char ')'
  return [inner]

/-- Statements in braces. -/
def Rules.block (r : Rules) : Parser Node := build .statementBlock do
  char '\x7b'
  let body ← many r.statement
  char '\x7d'
  return body

/-- Three dots and an expression. -/
def Rules.spread (r : Rules) : Parser Node := build (.other "spread_element") do
  mark "..."
  return [← r.expression .inner]

/-- The arguments of a call. -/
def Rules.arguments (r : Rules) : Parser Node := build .arguments do
  char '('
  sparseList (r.spread <|> r.expression .inner) ')'

/-- A name between brackets that is computed. -/
def Rules.computedName (r : Rules) : Parser Node := build (.other "computed_property_name") do
  char '['
  let inner ← r.sequence .inner
  char ']'
  return [inner]

/-- The name of a member of an object or a class. -/
def Rules.memberName (r : Rules) : Parser Node :=
  firstOf [propertyName, privateName, string, number, r.computedName]

/-- The default or first value of a variable, with its equals sign. -/
def Rules.initializer (r : Rules) (c : Context) : Parser Node := do
  mark "="
  r.expression c

/-- A modifier in front of a member name: the word is a modifier only if a name follows. -/
def modifier (words : List String) : Parser String := do
  let found ← word
  require (words.contains found)
  skipGap
  let next := (← peek).getD ' '
  require (isWordPart next || next == '"' || next == '\'' || next == '[' || next == '#' ||
    next == '\\' || next == '*')
  return found

/-! ### Templates -/

/-- A part of a template that is computed. -/
def Rules.substitution (r : Rules) : Parser Node := do
  let start ← offset
  let '$' :: '\x7b' :: _ ← remaining | failure
  advance 2
  let inner ← r.sequence .inner
  char '\x7d'
  return Node.branch (.other "template_substitution") start (← offset) [inner]

/-- Characters of a template: up to a backquote, a backslash or a substitution. -/
def templateLength : List Char → Nat
  | [] => 0
  | '$' :: '\x7b' :: _ => 0
  | c :: rest => if c == Char.ofNat 96 || c == '\\' then 0 else templateLength rest + 1

def templateText : Parser Node := do
  let start ← offset
  let length := templateLength (← remaining)
  require (length != 0)
  advance length
  return Node.branch (.other "string_fragment") start (← offset) []

def Rules.template (r : Rules) : Parser Node := build (.other "template_string") do
  require ((← peek) == some (Char.ofNat 96))
  advance 1
  let parts ← many (firstOf [templateText, escapeSequence, r.substitution])
  require ((← peek) == some (Char.ofNat 96))
  advance 1
  return parts

end PropShear.Grammar
