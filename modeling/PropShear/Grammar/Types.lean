import PropShear.Grammar.Pattern

/-! Types, type parameters and the heads of functions. -/
namespace PropShear.Grammar

/-- A node of a kind known by its name only. -/
def construct (name : String) (p : Parser (List Node)) : Parser Node := build (.other name) p

/-! ### Arguments and parameters of types -/

def Rules.typeArguments (r : Rules) : Parser Node := construct "type_arguments" do
  char '<'
  let first ← r.type
  let more ← many do
    char ','
    r.type
  let _ ← optional (char ',')
  char '>'
  return first :: more

def Rules.typeParameter (r : Rules) : Parser Node := construct "type_parameter" do
  let _ ← many (modifier ["const", "in", "out"])
  let _ ← word
  let bound ← optional do
    keyword "extends" <|> mark ":"
    r.type
  let default ← optional do
    mark "="
    r.type
  return bound.toList ++ default.toList

def Rules.typeParameters (r : Rules) : Parser Node := construct "type_parameters" do
  char '<'
  let first ← r.typeParameter
  let more ← many do
    char ','
    r.typeParameter
  let _ ← optional (char ',')
  char '>'
  return first :: more

/-- Something that is only there where types are known. -/
def Rules.typed (r : Rules) (p : Parser Node) : Parser (List Node) := do
  if r.dialect.hasTypes then return (← optional p).toList else return []

def Rules.typeAnnotation (r : Rules) : Parser Node := construct "type_annotation" do
  mark ":"
  return [← r.type]

/-! ### Functions -/

/-- A decorator: an at sign and a name, a call of it, or an expression in parentheses. -/
def Rules.decorator (r : Rules) : Parser Node := construct "decorator" do
  char '@'
  let first ← r.parenthesized <|> bindingName r.dialect
  let member (n : Node) : Parser Node := do
    mark "."
    let name ← propertyName
    buildFrom n .memberExpression [n, name.inRole .property]
  let callee ← extended first member
  let typeArguments ← optional (do
    require r.dialect.hasTypes
    let types ← r.typeArguments
    require (← comes "(")
    return types)
  match ← optional r.arguments with
  | some a =>
    return [← buildFrom callee .callExpression
      ([callee.inRole .function] ++ typeArguments.toList ++ [a.inRole .arguments])]
  | none => return [callee]

/-- Words that may stand before a parameter or a class member. -/
def accessWords : List String := ["public", "private", "protected", "override", "readonly"]

/-- A modifier of a parameter: a name, a pattern or another modifier follows. -/
def parameterModifier : Parser Unit := do
  let found ← word
  require (accessWords.contains found)
  skipGap
  let next := (← peek).getD ' '
  require (isWordStart next || next == '[' || next == '\x7b')

def Rules.parameter (r : Rules) : Parser Node := do
  if r.dialect.hasTypes then
    construct "required_parameter" do
      let decorators ← many r.decorator
      let _ ← many parameterModifier
      let target ← r.restPattern <|> r.binding
      let _ ← optional (mark "?")
      let annotation ← optional r.typeAnnotation
      let default ← optional (r.initializer .inner)
      return decorators ++ [target] ++ annotation.toList ++ default.toList
  else
    r.restPattern <|> do
      r.withDefault (.other "assignment_pattern") (← r.binding)

def Rules.parameters (r : Rules) : Parser Node := construct "formal_parameters" do
  char '('
  denseList r.parameter ')'

/-- A result type that asserts something about a parameter. -/
def Rules.predicate (r : Rules) : Parser Node := construct "type_predicate" do
  let asserts ← optional do
    keyword "asserts"
    skipGap
    require (((← peek).map isWordStart).getD false)
  let subject ← word
  require (subject != "is")
  if asserts.isSome then
    let type ← optional do
      keyword "is"
      r.type
    return type.toList
  else
    keyword "is"
    return [← r.type]

/-- The result of a function: a type or a predicate. -/
def Rules.resultType (r : Rules) : Parser Node := construct "type_annotation" do
  mark ":"
  return [← r.predicate <|> r.type]

/-- Type parameters, parameters and result type of a function. -/
def Rules.signature (r : Rules) : Parser (List Node) := do
  let typeParameters ← r.typed r.typeParameters
  let parameters ← r.parameters
  let result ← r.typed r.resultType
  return typeParameters ++ [parameters] ++ result

/-! ### Object types -/

/-- A signature `[key: Type]: Type` or `[Key in Type]: Type`. -/
def Rules.indexSignature (r : Rules) : Parser Node := construct "index_signature" do
  let _ ← optional do
    let _ ← optional (char '+' <|> char '-')
    keyword "readonly"
  char '['
  let _ ← word
  let key ← (do mark ":"; return [← r.type]) <|> do
    keyword "in"
    let source ← r.type
    let renamed ← optional do
      keyword "as"
      r.type
    return source :: renamed.toList
  char ']'
  let _ ← optional do
    let _ ← optional (char '+' <|> char '-')
    char '?'
  let value ← optional r.resultType
  return key ++ value.toList

/-- A method, getter, setter or property of an object type. -/
def Rules.typeMember (r : Rules) : Parser Node := do
  let constructSignature := construct "construct_signature" do
    keyword "new"
    r.signature
  let callSignature := construct "call_signature" r.signature
  let methodSignature := construct "method_signature" do
    let _ ← many (modifier ["get", "set", "async", "static", "readonly"])
    let _ ← optional (char '*')
    let name ← r.memberName
    let _ ← optional (mark "?")
    return name :: (← r.signature)
  let propertySignature := construct "property_signature" do
    let _ ← many (modifier ("static" :: accessWords))
    let name ← r.memberName
    let _ ← optional (mark "?")
    let annotation ← optional r.typeAnnotation
    return name :: annotation.toList
  firstOf [constructSignature, callSignature, r.indexSignature, methodSignature, propertySignature]

/-- The members of an object type in braces. -/
def Rules.typeMembers (r : Rules) : Parser (List Node) := do
  char '\x7b'
  let _ ← optional (char '|')
  let separator := mark ";" <|> mark ","
  let _ ← many separator
  let members ← many do
    let member ← r.typeMember
    unless endsWithout r.dialect .other (← remaining) do
      skipGap
      unless (← peek) == some '\x7d' || (← peek) == some '|' do separator
    let _ ← many separator
    return member
  let _ ← optional (char '|')
  char '\x7d'
  return members

def Rules.objectType (r : Rules) : Parser Node := construct "object_type" r.typeMembers

/-! ### Types -/

/-- A name with dots: `A.B.C`. -/
def dottedName : Parser Node := construct "nested_type_identifier" do
  let _ ← word
  let _ ← many do
    mark "."
    word
  return []

/-- An expression without operators after `typeof`. -/
def Rules.queriedValue (r : Rules) : Parser Node := do
  let imported := build (.other "import") do
    keyword "import"
    return []
  let name ← imported <|> wordNode .identifier
  let call (callee : Node) : Parser Node := do
    let arguments ← r.arguments
    buildFrom callee .callExpression [callee.inRole .function, arguments.inRole .arguments]
  let suffix (n : Node) : Parser Node := do
    let member := do
      let _ ← mark "." <|> mark "?."
      let property ← propertyName <|> privateName
      buildFrom n .memberExpression [n, property.inRole .property]
    let index := do
      char '['
      let i ← string <|> number
      char ']'
      buildFrom n (.other "subscript_expression") [n, i]
    firstOf [member, index, call n]
  let value ← extended name suffix
  let types ← optional r.typeArguments
  match types with
  | some t => buildFrom value (.other "instantiation_expression") [value, t]
  | none => return value

def Rules.typeQuery (r : Rules) : Parser Node := construct "type_query" do
  keyword "typeof"
  return [← r.queriedValue]

/-- An item of a tuple type, possibly named, optional or a rest. -/
def Rules.tupleItem (r : Rules) : Parser Node := do
  let named := construct "tuple_parameter" do
    let _ ← optional (mark "...")
    let _ ← word
    let _ ← optional (mark "?")
    mark ":"
    return [← r.type]
  let rest := construct "rest_type" do
    mark "..."
    return [← r.type]
  let plain := do
    let t ← r.type
    match ← optional (mark "?") with
    | some _ => buildFrom t (.other "optional_type") [t]
    | none => return t
  firstOf [named, rest, plain]

/-- A function type, with or without `new`. -/
def Rules.functionType (r : Rules) : Parser Node := construct "function_type" do
  let _ ← optional do
    let _ ← optional (keyword "abstract")
    keyword "new"
  let typeParameters ← optional r.typeParameters
  let parameters ← r.parameters
  mark "=>"
  return typeParameters.toList ++ [parameters, ← r.predicate <|> r.type]

/-- A template with types in it. -/
def Rules.templateType (r : Rules) : Parser Node := construct "template_literal_type" do
  require ((← peek) == some (Char.ofNat 96))
  advance 1
  let substitution := do
    let start ← offset
    let '$' :: '\x7b' :: _ ← remaining | failure
    advance 2
    let t ← r.type
    char '\x7d'
    return Node.branch (.other "template_type") start (← offset) [t]
  let parts ← many (firstOf [templateText, escapeSequence, substitution])
  require ((← peek) == some (Char.ofNat 96))
  advance 1
  return parts

/-- A type named by a path, with its arguments; `import(…)` may start the path. -/
def Rules.namedType (r : Rules) : Parser Node := do
  let name ← dottedName
  match ← optional r.typeArguments with
  | some a => buildFrom name (.other "generic_type") [name, a]
  | none => return name

/-- A type without operators around it. -/
def Rules.primaryType (r : Rules) : Parser Node := do
  let literal := construct "literal_type" do
    let negative := do
      char '-' <|> char '+'
      number
    return [← firstOf [string, number, negative]]
  let tuple := construct "tuple_type" do
    char '['
    sparseList r.tupleItem ']'
  let parenthesized := construct "parenthesized_type" do
    char '('
    let t ← r.type
    char ')'
    return [t]
  let unique := construct "unique_symbol" do
    keyword "unique"
    keyword "symbol"
    return []
  let inferred := construct "infer_type" do
    keyword "infer"
    let _ ← word
    let bound ← optional do
      keyword "extends"
      let t ← r.type
      skipGap
      require ((← peek) != some '?')
      return t
    return bound.toList
  let imported := construct "import_type" do
    keyword "import"
    let a ← r.arguments
    let path ← many do
      mark "."
      wordNode (.other "type_identifier")
    let types ← optional r.typeArguments
    return a :: path ++ types.toList
  let anything := construct "existential_type" do
    char '*'
    return []
  firstOf [r.objectType, tuple, parenthesized, literal, r.templateType, r.typeQuery, unique,
    inferred, imported, anything, r.namedType]

/-- Array brackets, look-ups and trailing marks after a type on the same line. -/
def Rules.postfixType (r : Rules) : Parser Node := do
  let suffix (t : Node) : Parser Node := do
    require !(endsWithout r.dialect .other (← remaining))
    char '['
    let index ← optional r.type
    char ']'
    buildFrom t (.other "lookup_type") (t :: index.toList)
  extended (← r.primaryType) suffix

/-- An operator in front of a type; a type has to follow, else the word is a type itself. -/
def typeOperator : Parser Unit := do
  keyword "keyof" <|> keyword "readonly" <|> char '?'
  skipGap
  let next := (← peek).getD ' '
  require (isWordPart next || "([\x7b\"'-`".toList.contains next)

/-- A type with operators in front of it, or a function type. -/
def Rules.operatorType (r : Rules) : Parser Node := do
  let applied := construct "index_type_query" do
    typeOperator
    let _ ← many typeOperator
    return [← r.postfixType]
  firstOf [r.functionType, applied, r.postfixType]

/-- Alternatives and intersections. -/
def Rules.unionType (r : Rules) : Parser Node := do
  let operator := mark "|" <|> mark "&"
  let leading := construct "union_type" do
    operator
    return [← r.operatorType]
  let first ← leading <|> r.operatorType
  let more ← many do
    operator
    r.operatorType
  if more.isEmpty then return first
  else buildFrom first (.other "union_type") (first :: more)

/-- A type, conditional ones included. -/
def Rules.fullType (r : Rules) : Parser Node := do
  let t ← r.unionType
  let conditional := do
    require !(endsWithout r.dialect .other (← remaining))
    keyword "extends"
    let bound ← r.unionType
    mark "?"
    let yes ← r.type
    mark ":"
    let no ← r.type
    buildFrom t (.other "conditional_type") [t, bound, yes, no]
  conditional <|> pure t

end PropShear.Grammar
