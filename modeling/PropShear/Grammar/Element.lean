import PropShear.Grammar.Types

/-! JSX elements.

Between tags blanks and comment marks are plain text, so only the inside of a tag skips gaps. The
name in a closing tag is not compared with the one in the opening tag. -/
namespace PropShear.Grammar

/-- A name in a tag, in which hyphens are allowed. -/
def tagWord : Parser Unit := do
  skipGap
  let rest ← remaining
  require ((rest.head?.map isWordStart).getD false)
  advance (rest.takeWhile fun c => isWordPart c || c == '-').length

/-- The name of an element, with dots or a namespace. -/
def elementName : Parser Node := build .identifier do
  tagWord
  let _ ← many do
    mark "." <|> mark ":"
    tagWord
  return []

/-- A computed child or attribute, a spread of several, or nothing. -/
def Rules.jsxExpression (r : Rules) : Parser Node := build (.other "jsx_expression") do
  char '\x7b'
  let inner ← optional (r.spread <|> r.sequence .inner)
  char '\x7d'
  return inner.toList

/-- Text in quotes, which has no escapes and may span lines. -/
def attributeText (quote : Char) : Parser Node := build .string do
  require ((← peek) == some quote)
  advance 1
  let part ← optional (fragment (.other "string_fragment") (· == quote))
  require ((← peek) == some quote)
  advance 1
  return part.toList

def Rules.attribute (r : Rules) : Parser Node := do
  let named := build (.other "jsx_attribute") do
    let name ← build .propertyIdentifier do
      tagWord
      let _ ← optional do
        mark ":"
        tagWord
      return []
    let value ← optional do
      char '='
      firstOf [attributeText '"', attributeText '\'', r.jsxExpression, r.element]
    return name :: value.toList
  named <|> r.jsxExpression

/-- The length of a character reference such as an ampersand, `nbsp` and a semicolon. -/
def characterReference? : List Char → Option Nat
  | '&' :: '#' :: rest =>
    let digits := match rest with
      | 'x' :: more | 'X' :: more => (more.takeWhile isHexDigit).length + 1
      | more => (more.takeWhile fun c => '0' ≤ c && c ≤ '9').length
    if 0 < digits && (rest.drop digits).head? == some ';' then some (digits + 3) else none
  | '&' :: rest =>
    let letters := (rest.takeWhile fun c => ('a' ≤ c && c ≤ 'z') || ('A' ≤ c && c ≤ 'Z') ||
      ('0' ≤ c && c ≤ '9')).length
    if 0 < letters && (rest.drop letters).head? == some ';' then some (letters + 2) else none
  | _ => none

def reference : Parser Node := do
  let start ← offset
  let some length := characterReference? (← remaining) | failure
  advance length
  return Node.branch (.other "html_character_reference") start (← offset) []

def elementText : Parser Node :=
  fragment (.other "jsx_text") fun c => "\x7b\x7d<>&".toList.contains c

/-- The children of an element up to its closing tag, and the closing tag. -/
def Rules.elementRest (r : Rules) (name : Parser (List Node)) : Parser (List Node) := do
  let children ← many (firstOf [elementText, reference, r.jsxExpression, r.element])
  let closing ← build (.other "jsx_closing_element") do
    char '<'
    char '/'
    let n ← name
    char '>'
    return n
  return children ++ [closing]

def Rules.jsxElement (r : Rules) : Parser Node := do
  let start ← here
  char '<'
  let blank := do
    char '>'
    let rest ← r.elementRest (pure [])
    return Node.branch (.other "jsx_element") start (← offset) rest
  let element := do
    let name ← elementName
    let types ← r.typed r.typeArguments
    let attributes ← many r.attribute
    let head := name :: types ++ attributes
    let closed := do
      char '/'
      require ((← peek) == some '>')
      advance 1
      return Node.branch (.other "jsx_self_closing_element") start (← offset) head
    let opened := do
      char '>'
      let opening := Node.branch (.other "jsx_opening_element") start (← offset) head
      let rest ← r.elementRest (return [← elementName])
      return Node.branch (.other "jsx_element") start (← offset) (opening :: rest)
    closed <|> opened
  blank <|> element

end PropShear.Grammar
