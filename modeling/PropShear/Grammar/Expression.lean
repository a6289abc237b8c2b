import PropShear.Grammar.Element
import PropShear.Grammar.Member

/-! Expressions.

Values (`primaryRule`) are followed by calls and accesses (`operandRule`), preceded by unary
operators and assigned to (`unaryRule`), joined by binary operators (`binaryRule`) and chosen by
conditions (`expressionRule`). -/
namespace PropShear.Grammar

/-! ### Functions -/

def Rules.functionExpression (r : Rules) : Parser Node := construct "function_expression" do
  let _ ← optional (keyword "async")
  keyword "function"
  let _ ← optional (char '*')
  let name ← optional (bindingName r.dialect)
  let signature ← r.signature
  return name.toList ++ signature ++ [← r.block]

/-- What follows an opening brace can be the first member of an object: a spread, a name with a
comma, a colon, an equals sign or the closing brace after it, or a method. -/
def Rules.objectFollows (r : Rules) : Parser Bool := succeeds do
  char '\x7b'
  let named := do
    let _ ← optional r.memberName
    skipGap
    require (",:=\x7d".toList.contains ((← peek).getD ' '))
  let method := do
    require !(reservedWords.contains (← peekWord))
    let _ ← r.memberName
    let _ ← r.parameters
    require (← comes "\x7b")
  firstOf [mark "...", named, method]

/-- The body of an arrow function. One in braces is a block if it can be read as one. -/
def Rules.arrowBody (r : Rules) (c : Context) : Parser Node := do
  skipGap
  if (← peek) == some '\x7b' then
    r.block <|> do
      require (← r.objectFollows)
      r.expression c
  else r.expression c

/-- An arrow function. -/
def Rules.arrow (r : Rules) (c : Context) : Parser Node := do
  let single := do
    let name ← bindingName r.dialect
    return [name]
  let several := do
    let typeParameters ← r.typed r.typeParameters
    let parameters ← r.parameters
    let result ← if c.allowResultType then r.typed r.resultType else pure []
    return typeParameters ++ [parameters] ++ result
  let headed (head : Parser (List Node)) : Parser Node := construct "arrow_function" do
    let parameters ← head
    mark "=>"
    return parameters ++ [← r.arrowBody c]
  let waiting := do
    keyword "async"
    single <|> several
  firstOf [headed waiting, headed single, headed several]

/-! ### Values -/

/-- An equals sign comes next. -/
def assignmentFollows : Parser Bool := comes "="

/-- An object or array: a literal, or a pattern if an assignment follows. -/
def literalOrPattern (literal pattern : Parser Node) : Parser Node := fun i =>
  match literal i with
  | some (n, j) =>
    match assignmentFollows j with
    | some (true, _) => (pattern i).or (some (n, j))
    | _ => some (n, j)
  | none => (do
    let n ← pattern
    require (← assignmentFollows)
    return n) i

def Rules.array (r : Rules) : Parser Node := construct "array" do
  char '['
  sparseList (r.spread <|> r.expression .inner) ']'

/-- The keyword `import` as the start of a call or of `import.meta`. -/
def importValue : Parser Node := do
  let n ← wordValue "import"
  let property := do
    mark "."
    let _ ← word
    buildFrom n (.other "meta_property") []
  property <|> do
    require (← comes "(")
    return n

def Rules.call (r : Rules) (n : Node) : Parser Node := do
  let arguments ← r.arguments <|> r.template
  buildFrom n .callExpression [n.inRole .function, arguments.inRole .arguments]

/-- A call with type arguments. -/
def Rules.typedCall (r : Rules) (n : Node) : Parser Node := do
  require r.dialect.hasTypes
  let types ← r.typeArguments
  let arguments ← r.arguments <|> r.template
  buildFrom n .callExpression [n.inRole .function, types, arguments.inRole .arguments]

/-- Type arguments without a call: what follows must not be an operand. -/
def Rules.instantiation (r : Rules) (n : Node) : Parser Node := do
  require r.dialect.hasTypes
  let types ← r.typeArguments
  let next ← peekMark
  require (["", ")", "]", "\x7d", ",", ";", ":", ".", "?.", "==", "===", "!=", "!==", "&&", "||",
    "??", "=", "=>", "?"].contains next)
  buildFrom n (.other "instantiation_expression") [n, types]

def Rules.optionalChain (r : Rules) (n : Node) : Parser Node := do
  mark "?."
  let member := do
    let property ← propertyName <|> privateName
    buildFrom n .memberExpression [n, property.inRole .property]
  firstOf [r.call n, r.subscript n, r.typedCall n, member]

/-- The keyword `new` with a constructor and its arguments. -/
def Rules.construction (r : Rules) : Parser Node := do
  let start ← here
  keyword "new"
  let property := do
    mark "."
    keyword "target"
    return Node.branch (.other "meta_property") start (← offset) []
  let creation := do
    let value ← r.primary .inner
    let constructor ← extended value fun n => firstOf [memberAccess n, r.subscript n]
    let types ← r.typed r.typeArguments
    let arguments ← optional r.arguments
    return Node.branch (.other "new_expression") start (← offset)
      ([constructor] ++ types ++ arguments.toList)
  property <|> creation

/-- A private name on the left of `in`. -/
def privateCheck : Parser Node := do
  let n ← privateName
  require ((← peekWord) == "in")
  return n

/-- A value that a word starts. -/
def Rules.wordPrimary (r : Rules) (c : Context) (name : String) : Parser Node :=
  match name with
  | "function" => r.functionExpression
  | "class" => r.classExpression
  | "new" => r.construction
  | "import" => importValue
  | "this" | "super" | "null" | "true" | "false" => wordValue name
  | "async" => firstOf [r.functionExpression, r.arrow c, identifier r.dialect]
  | _ => r.arrow c <|> identifier r.dialect

def Rules.primaryRule (r : Rules) (c : Context) : Parser Node := do
  skipGap
  match (← peek).getD ' ' with
  | '(' => r.arrow c <|> r.parenthesized
  | '\x7b' => literalOrPattern r.object r.objectPattern
  | '[' => literalOrPattern r.array r.arrayPattern
  | '"' | '\'' => string
  | '/' => regex
  | '#' => privateCheck
  | '@' => r.classExpression
  | '<' =>
    (do require r.dialect.hasTypes; r.arrow c) <|> (do require r.dialect.hasElements; r.element)
  | '.' => number
  | next =>
    if '0' ≤ next && next ≤ '9' then number
    else if next.toNat == 96 then r.template
    else do r.wordPrimary c (← peekWord)

/-! ### Calls and accesses -/

/-- A value without the operators that an expression may not be followed by. -/
def Rules.suffix (r : Rules) (c : Context) (n : Node) : Parser Node := do
  require !(← c.isOver r.dialect)
  skipGap
  match (← peek).getD ' ' with
  | '.' => memberAccess n
  | '?' => r.optionalChain n
  | '[' => r.subscript n
  | '(' => r.call n
  | '<' => r.typedCall n <|> r.instantiation n
  | '!' =>
    require r.dialect.hasTypes
    mark "!"
    buildFrom n (.other "non_null_expression") [n]
  | next =>
    require (next.toNat == 96)
    r.call n

def Rules.operandRule (r : Rules) (c : Context) : Parser Node := do
  extended (← r.primaryRule c) (r.suffix c)

/-! ### Assignments and unary operators -/

def augmentedOperators : List String :=
  ["+=", "-=", "*=", "/=", "%=", "^=", "&=", "|=", ">>=", ">>>=", "<<=", "**=", "&&=", "||=", "??="]

/-- What an equals sign may follow. -/
def isAssignmentTarget (n : Node) : Bool :=
  isAssignable n || n.kind == .parenthesizedExpression || n.kind == .other "object_pattern" ||
    n.kind == .other "array_pattern"

/-- An assignment to a target that has been read. -/
def Rules.assignment (r : Rules) (c : Context) (target : Node) : Parser Node := do
  require (isAssignmentTarget target)
  let plain := do
    mark "="
    let value ← r.expression c
    buildFrom target .assignmentExpression [target.inRole .left, value]
  let augmented := do
    let operator ← peekMark
    require (augmentedOperators.contains operator)
    mark operator
    let value ← r.expression c
    buildFrom target .augmentedAssignmentExpression [target.inRole .left, value]
  plain <|> augmented

/-- An operand with an assignment or a counting operator after it. -/
def Rules.assigned (r : Rules) (c : Context) : Parser Node := do
  let n ← r.operandRule c
  let update (n : Node) : Parser Node := do
    require !(← c.isOver r.dialect)
    mark "++" <|> mark "--"
    buildFrom n (.other "update_expression") [n]
  r.assignment c n <|> extended n update

def Rules.yieldExpression (r : Rules) (c : Context) : Parser Node := construct "yield_expression" do
  keyword "yield"
  if ← c.isOver r.dialect then return []
  let delegated := do
    mark "*"
    return [← r.expression c]
  delegated <|> do return (← optional (r.expression c)).toList

/-- A type in angle brackets in front of a value. -/
def Rules.typeAssertion (r : Rules) (c : Context) : Parser Node := construct "type_assertion" do
  require (r.dialect == .typescript)
  let types ← r.typeArguments
  return [types, ← r.unary c]

def Rules.unaryRule (r : Rules) (c : Context) : Parser Node := do
  let operator := construct "unary_expression" do
    let found ← peekMark
    if ["!", "~", "-", "+"].contains found then mark found
    else require (["typeof", "void", "delete"].contains (← word))
    return [← r.unary c]
  let update := construct "update_expression" do
    mark "++" <|> mark "--"
    return [← r.unary c]
  let awaited := construct "await_expression" do
    keyword "await"
    return [← r.unary c]
  firstOf [operator, update, awaited, r.yieldExpression c, r.assigned c, r.typeAssertion c]

/-! ### Binary operators -/

/-- How tightly a binary operator binds. -/
def operatorLevel? : String → Option Nat
  | "??" => some 1
  | "||" => some 2
  | "&&" => some 3
  | "|" => some 4
  | "^" => some 5
  | "&" => some 6
  | "==" | "!=" | "===" | "!==" => some 7
  | "<" | ">" | "<=" | ">=" | "in" | "instanceof" => some 8
  | "<<" | ">>" | ">>>" => some 9
  | "+" | "-" => some 10
  | "*" | "/" | "%" => some 11
  | "**" => some 12
  | _ => none

/-- The binary operator that comes next and its level. -/
def binaryOperator (c : Context) : Parser Nat := do
  let name ← peekWord
  if name.isEmpty then
    let found ← peekMark
    let some level := operatorLevel? found | failure
    mark found
    return level
  else
    require (c.allowIn || name != "in")
    let some level := operatorLevel? name | failure
    keyword name
    return level

/-- Extends an expression by an operator that binds at least as tightly as a level. -/
def Rules.binaryStep (r : Rules) (c : Context) (least : Nat) (left : Node) : Parser Node := do
  require !(← c.isOver r.dialect)
  let operation := do
    let level ← binaryOperator c
    require (least ≤ level)
    let right ← r.binary c (if level == 12 then level else level + 1)
    buildFrom left (.other "binary_expression") [left, right]
  let conversion := do
    require (r.dialect.hasTypes && least ≤ 8)
    let name ← word
    require (name == "as" || name == "satisfies")
    let t ← r.type
    buildFrom left (.other (name ++ "_expression")) [left, t]
  operation <|> conversion

def Rules.binaryRule (r : Rules) (c : Context) (least : Nat) : Parser Node := do
  extended (← r.unaryRule c) (r.binaryStep c least)

/-! ### Conditions -/

/-- The middle of a condition. Where a colon could announce a result type as well, the reading that
leaves a colon for the condition wins. -/
def Rules.consequence (r : Rules) : Parser Node := do
  let upToColon (c : Context) : Parser Node := do
    let n ← r.expression c
    mark ":"
    return n
  upToColon .inner <|> do
    require r.dialect.hasTypes
    upToColon ⟨false, true, false⟩

def Rules.expressionRule (r : Rules) (c : Context) : Parser Node := do
  let n ← r.binaryRule c 0
  let condition := do
    require !(← c.isOver r.dialect)
    mark "?"
    let yes ← r.consequence
    let no ← r.expression c
    buildFrom n (.other "ternary_expression") [n, yes, no]
  condition <|> pure n

end PropShear.Grammar
