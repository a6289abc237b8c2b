import PropShear.Grammar.Expression

/-! Statements and declarations.

A statement reaches to its semicolon, or to its last token where the semicolon is left out. -/
namespace PropShear.Grammar

def Rules.expressionStatement (r : Rules) : Parser Node := build .expressionStatement do
  let n ← r.sequence .final
  semicolon r.dialect .expression
  return [n]

/-! ### Variables -/

/-- A variable with its type and first value, and what it ends with. -/
def Rules.declarator (r : Rules) (c : Context) : Parser (Node × Tail) := do
  let start ← here
  let name ← r.binding
  if r.dialect.hasTypes then
    let _ ← optional do
      mark "!"
      require (← comes ":")
  let annotation ← r.typed r.typeAnnotation
  let value ← optional (r.initializer c)
  return (Node.branch .variableDeclarator start (← offset) ([name] ++ annotation ++ value.toList),
    if value.isSome then .expression else .other)

def Rules.declarators (r : Rules) (c : Context) : Parser (List Node × Tail) := do
  let first ← r.declarator c
  let more ← many do
    mark ","
    r.declarator c
  let all := first :: more
  return (all.map (·.1), (all.getLast?.map (·.2)).getD .other)

/-- A keyword that declares variables, and the kind of the declaration. -/
def declarationKeyword : Parser Kind := do
  match ← word with
  | "var" => return .variableDeclaration
  | "let" | "const" => return .lexicalDeclaration
  | _ => failure

/-- Variables with the semicolon that ends them. -/
def Rules.bindings (r : Rules) (c : Context) (ending : Tail → Parser Unit) : Parser Node := do
  let start ← here
  let kind ← declarationKeyword
  let (children, tail) ← r.declarators c
  ending tail
  return Node.branch kind start (← offset) children

def Rules.variableStatement (r : Rules) : Parser Node :=
  r.bindings .final (semicolon r.dialect)

/-- Variables that are disposed of at the end of their block. -/
def Rules.usingStatement (r : Rules) : Parser Node := construct "using_declaration" do
  require !r.dialect.hasTypes
  let _ ← optional (keyword "await")
  keyword "using"
  let name ← peekWord
  require (!name.isEmpty && !(["in", "of", "instanceof"].contains name))
  let (children, tail) ← r.declarators .final
  semicolon r.dialect tail
  return children

/-! ### Functions and classes -/

/-- A function with a name, or only its head where types are known. -/
def Rules.functionDeclaration (r : Rules) : Parser Node := do
  let start ← here
  let _ ← optional (keyword "async")
  keyword "function"
  let _ ← optional (char '*')
  let name ← bindingName r.dialect
  let signature ← r.signature
  match ← optional r.block with
  | some body =>
    return Node.branch (.other "function_declaration") start (← offset)
      (name :: signature ++ [body])
  | none =>
    require r.dialect.hasTypes
    semicolon r.dialect .signature
    return Node.branch (.other "function_signature") start (← offset) (name :: signature)

def Rules.classDeclaration (r : Rules) : Parser Node := construct "class_declaration" do
  let decorators ← many r.decorator
  if r.dialect.hasTypes then
    let _ ← optional (keyword "abstract")
  return decorators ++ (← r.classRest true)

/-! ### Declarations of types and modules -/

def Rules.typeAlias (r : Rules) : Parser Node := construct "type_alias_declaration" do
  keyword "type"
  let _ ← word
  let typeParameters ← r.typed r.typeParameters
  mark "="
  let t ← r.type
  semicolon r.dialect .other
  return typeParameters ++ [t]

def Rules.interfaceDeclaration (r : Rules) : Parser Node := construct "interface_declaration" do
  keyword "interface"
  let _ ← word
  let typeParameters ← r.typed r.typeParameters
  let parents ← optional do
    keyword "extends"
    let first ← r.namedType
    let more ← many do
      mark ","
      r.namedType
    return first :: more
  let body ← construct "interface_body" r.typeMembers
  return typeParameters ++ parents.getD [] ++ [body]

def Rules.enumDeclaration (r : Rules) : Parser Node := construct "enum_declaration" do
  let _ ← optional (keyword "const")
  keyword "enum"
  let name ← wordNode .identifier
  let member := construct "enum_assignment" do
    let key ← r.memberName
    let value ← optional (r.initializer .inner)
    return key :: value.toList
  let body ← construct "enum_body" do
    char '\x7b'
    denseList member '\x7d'
  return [name, body]

/-- A namespace or module with its body; a module may also be announced without one. -/
def Rules.moduleDeclaration (r : Rules) : Parser Node := construct "internal_module" do
  let found ← word
  require (found == "namespace" || found == "module")
  let _ ← string <|> dottedName
  match ← optional r.block with
  | some body => return [body]
  | none =>
    require (found == "module")
    semicolon r.dialect .other
    return []

/-- The keyword `declare` with a declaration or the global scope. -/
def Rules.ambientDeclaration (r : Rules) (declaration : Parser Node) : Parser Node :=
  construct "ambient_declaration" do
    keyword "declare"
    let scope := do
      keyword "global"
      r.block
    return [← scope <|> declaration]

/-- A name for a path of names: `import A = B.C`. -/
def Rules.importAlias (r : Rules) : Parser Node := construct "import_alias" do
  keyword "import"
  let _ ← optional (modifier ["type"])
  let name ← wordNode .identifier
  mark "="
  let target ← dottedName
  semicolon r.dialect .other
  return [name, target]

/-- Declarations that may follow `export`. -/
def Rules.declaration (r : Rules) : Parser Node :=
  let plain := [r.functionDeclaration, r.classDeclaration, r.variableStatement]
  let typed := [r.enumDeclaration, r.typeAlias, r.interfaceDeclaration, r.moduleDeclaration,
    r.importAlias]
  if r.dialect.hasTypes then
    let basic := firstOf (typed ++ plain)
    firstOf [basic, r.ambientDeclaration basic]
  else firstOf plain

/-! ### Control flow -/

def Rules.ifStatement (r : Rules) : Parser Node := construct "if_statement" do
  keyword "if"
  let condition ← r.parenthesized
  let yes ← r.statement
  let no ← optional (construct "else_clause" do
    keyword "else"
    return [← r.statement])
  return [condition, yes] ++ no.toList

/-- The head of a loop over the members of a value. -/
def Rules.forInHead (r : Rules) : Parser (List Node) := do
  let declared := do
    let found ← word
    require (["var", "let", "const", "using"].contains found)
    let target ← r.binding
    let annotation ← r.typed r.typeAnnotation
    let value ← optional (r.initializer ⟨false, false, true⟩)
    return [target.inRole .left] ++ annotation ++ value.toList
  let existing := do
    let target ← r.pattern <|> r.parenthesized
    return [target.inRole .left]
  let ranging (left : Parser (List Node)) : Parser (List Node) := do
    let target ← left
    keyword "in" <|> keyword "of"
    return target ++ [← r.sequence .inner]
  ranging declared <|> ranging existing

/-- The head of a loop with a start, a condition and a step. -/
def Rules.forHead (r : Rules) : Parser (List Node) := do
  let empty := construct "empty_statement" do
    mark ";"
    return []
  let expression := do
    let n ← r.sequence .inner
    mark ";"
    return n
  let start ← firstOf [empty, r.bindings .inner fun _ => mark ";", expression]
  let condition ← empty <|> expression
  let step ← optional (r.sequence .inner)
  return [start, condition] ++ step.toList

def Rules.forStatement (r : Rules) : Parser Node := do
  let start ← here
  keyword "for"
  let _ ← optional (keyword "await")
  char '('
  let ranged := do
    let head ← r.forInHead
    char ')'
    return (Kind.other "for_in_statement", head)
  let counted := do
    let head ← r.forHead
    char ')'
    return (Kind.other "for_statement", head)
  let (kind, head) ← ranged <|> counted
  let body ← r.statement
  return Node.branch kind start (← offset) (head ++ [body])

def Rules.whileStatement (r : Rules) : Parser Node := construct "while_statement" do
  keyword "while"
  let condition ← r.parenthesized
  return [condition, ← r.statement]

def Rules.doStatement (r : Rules) : Parser Node := construct "do_statement" do
  keyword "do"
  let body ← r.statement
  keyword "while"
  let condition ← r.parenthesized
  let _ ← optional (semicolon r.dialect .other)
  return [body, condition]

def Rules.switchCase (r : Rules) : Parser Node := build .switchCase do
  keyword "case"
  let value ← r.sequence .inner
  mark ":"
  return value :: (← many r.statement)

def Rules.switchDefault (r : Rules) : Parser Node := build .switchDefault do
  keyword "default"
  mark ":"
  many r.statement

def Rules.switchStatement (r : Rules) : Parser Node := construct "switch_statement" do
  keyword "switch"
  let value ← r.parenthesized
  let body ← construct "switch_body" do
    char '\x7b'
    let cases ← many (r.switchCase <|> r.switchDefault)
    char '\x7d'
    return cases
  return [value, body]

def Rules.tryStatement (r : Rules) : Parser Node := construct "try_statement" do
  keyword "try"
  let body ← r.block
  let handler ← optional (construct "catch_clause" do
    keyword "catch"
    let parameter ← optional do
      char '('
      let target ← r.binding
      let annotation ← r.typed r.typeAnnotation
      char ')'
      return target :: annotation
    return parameter.getD [] ++ [← r.block])
  let last ← optional (construct "finally_clause" do
    keyword "finally"
    return [← r.block])
  return body :: handler.toList ++ last.toList

def Rules.withStatement (r : Rules) : Parser Node := construct "with_statement" do
  keyword "with"
  let value ← r.parenthesized
  return [value, ← r.statement]

/-- The keyword `return` with the value, if there is one. -/
def Rules.returnStatement (r : Rules) : Parser Node := construct "return_statement" do
  keyword "return"
  if endsWithout r.dialect .other (← remaining) then return []
  let value ← optional (r.sequence .final)
  semicolon r.dialect (if value.isSome then .expression else .other)
  return value.toList

def Rules.throwStatement (r : Rules) : Parser Node := construct "throw_statement" do
  keyword "throw"
  let value ← r.sequence .final
  semicolon r.dialect .expression
  return [value]

/-- A jump, possibly to a label. -/
def Rules.jumpStatement (r : Rules) (name : String) : Parser Node :=
  construct (name ++ "_statement") do
    keyword name
    if endsWithout r.dialect .other (← remaining) then return []
    let label ← optional (bindingName r.dialect)
    semicolon r.dialect .other
    return label.toList

def Rules.debuggerStatement (r : Rules) : Parser Node := construct "debugger_statement" do
  keyword "debugger"
  semicolon r.dialect .other
  return []

def Rules.labeledStatement (r : Rules) : Parser Node := construct "labeled_statement" do
  let label ← bindingName r.dialect
  mark ":"
  return [label, ← r.statement]

end PropShear.Grammar
