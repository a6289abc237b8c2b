import PropShear.Grammar.Types

/-! Members of objects and classes. -/
namespace PropShear.Grammar

/-- Modifiers that may stand before a method. -/
def Rules.methodWords (r : Rules) : List String :=
  ["static", "async", "get", "set"] ++ if r.dialect.hasTypes then accessWords else []

/-- A method with its body. -/
def Rules.method (r : Rules) (decorators : List Node) : Parser (List Node) := do
  let _ ← many (modifier r.methodWords)
  let _ ← optional (char '*')
  let name ← r.memberName
  if r.dialect.hasTypes then
    let _ ← optional (mark "?")
  let signature ← r.signature
  let body ← r.block
  return decorators ++ [name] ++ signature ++ [body]

/-! ### Objects -/

def Rules.object (r : Rules) : Parser Node := construct "object" do
  let method := construct "method_definition" (r.method [])
  let pair := construct "pair" do
    let name ← r.memberName
    mark ":"
    return [name, ← r.expression .inner]
  let shorthand := do
    let name ← identifier r.dialect
    return Node.branch (.other "shorthand_property_identifier") name.start name.stop []
  char '\x7b'
  sparseList (firstOf [r.spread, method, pair, shorthand]) '\x7d'

/-! ### Classes -/

/-- Modifiers that may stand before a field. -/
def Rules.fieldWords (r : Rules) : List String :=
  if r.dialect.hasTypes then ["static", "declare", "abstract", "accessor"] ++ accessWords
  else ["static"]

/-- A member that is not a method may end here: at a semicolon or where one may be left out. -/
def Rules.memberEnds (r : Rules) (tail : Tail) : Parser Unit := do
  unless endsWithout r.dialect tail (← remaining) do
    require ((← comes ";") || (r.dialect.hasTypes && (← comes ",")))

/-- A field, without the semicolon after it. -/
def Rules.field (r : Rules) : Parser Node := do
  let kind := if r.dialect.hasTypes then "public_field_definition" else "field_definition"
  let (field, tail) ← (do
    let start ← here
    let decorators ← many r.decorator
    let _ ← many (modifier r.fieldWords)
    let name ← r.memberName
    if r.dialect.hasTypes then
      let _ ← optional (mark "?" <|> mark "!")
    let annotation ← r.typed r.typeAnnotation
    let value ← optional (r.initializer .final)
    let children := decorators ++ [name.inRole .property] ++ annotation ++ value.toList
    return (Node.branch (.other kind) start (← offset) children,
      if value.isSome then Tail.expression else .other) : Parser (Node × Tail))
  r.memberEnds tail
  return field

/-- The head of a method without a body. -/
def Rules.methodSignature (r : Rules) : Parser Node := do
  require r.dialect.hasTypes
  let head ← construct "method_signature" do
    let _ ← many (modifier ("abstract" :: r.methodWords))
    let _ ← optional (char '*')
    let name ← r.memberName
    let _ ← optional (mark "?")
    return name :: (← r.signature)
  r.memberEnds .signature
  return head

def Rules.classIndexSignature (r : Rules) : Parser Node := do
  require r.dialect.hasTypes
  let signature ← construct "index_signature" do
    let _ ← many (modifier ["static", "readonly"])
    return [← r.indexSignature]
  r.memberEnds .other
  return signature

/-- A separator between class members. -/
def Rules.memberSeparator (r : Rules) : Parser Node := do
  let start ← here
  let found := (← peek).getD ' '
  require (found == ';' || (r.dialect.hasTypes && found == ','))
  advance 1
  return Node.token (if found == ';' then .semicolon else .other ",") start (← offset)

/-- A class member with the decorators that stand beside it. Where types are known, the decorators
of a method are members of their own. -/
def Rules.classMember (r : Rules) : Parser (List Node) := do
  let one (p : Parser Node) : Parser (List Node) := return [← p]
  let staticBlock := build .classStaticBlock do
    keyword "static"
    return [← r.block]
  let method := do
    let start ← here
    let decorators ← many r.decorator
    if r.dialect.hasTypes then
      let m ← construct "method_definition" (r.method []) <|> r.methodSignature
      return decorators ++ [m]
    else
      let children ← r.method decorators
      return [Node.branch (.other "method_definition") start (← offset) children]
  firstOf [one comment, one r.memberSeparator, one staticBlock, method, one r.classIndexSignature,
    one r.field]

def Rules.classBody (r : Rules) : Parser Node := build .classBody do
  char '\x7b'
  let members ← many r.classMember
  char '\x7d'
  return members.flatten

/-- The classes and interfaces that a class builds on. -/
def Rules.heritage (r : Rules) : Parser Node := construct "class_heritage" do
  if r.dialect.hasTypes then
    let item := do
      let value ← r.operand .inner
      return value :: (← optional r.typeArguments).toList
    let extended ← optional do
      keyword "extends"
      let first ← item
      let more ← many do
        mark ","
        item
      return first ++ more.flatten
    let implemented ← optional do
      keyword "implements"
      let first ← r.type
      let more ← many do
        mark ","
        r.type
      return first :: more
    require (extended.isSome || implemented.isSome)
    return extended.getD [] ++ implemented.getD []
  else
    keyword "extends"
    return [← r.expression .inner]

/-- The class after its decorators: keyword, name, heritage and body. -/
def Rules.classRest (r : Rules) (needsName : Bool) : Parser (List Node) := do
  keyword "class"
  let name ← optional do
    require (!(["extends", "implements"].contains (← peekWord)))
    bindingName r.dialect
  require (name.isSome || !needsName)
  let typeParameters ← r.typed r.typeParameters
  let heritage ← optional r.heritage
  let body ← r.classBody
  return name.toList ++ typeParameters ++ heritage.toList ++ [body]

def Rules.classExpression (r : Rules) : Parser Node := construct "class" do
  let decorators ← many r.decorator
  return decorators ++ (← r.classRest false)

end PropShear.Grammar
