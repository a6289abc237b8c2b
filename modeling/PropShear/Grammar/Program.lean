import PropShear.Grammar.Module

/-! Programs.

`rules` ties the parsers of all constructs together: rules of depth `n + 1` use rules of depth `n`,
so a depth bounds how deeply constructs are nested. `parse?` chooses a depth that no text of the
given length reaches. -/
namespace PropShear.Grammar

/-- Words that start a statement of their own kind and nothing else. -/
def Rules.keywordStatement? (r : Rules) : String → Option (Parser Node)
  | "if" => some r.ifStatement
  | "for" => some r.forStatement
  | "while" => some r.whileStatement
  | "do" => some r.doStatement
  | "switch" => some r.switchStatement
  | "try" => some r.tryStatement
  | "with" => some r.withStatement
  | "return" => some r.returnStatement
  | "throw" => some r.throwStatement
  | "break" => some (r.jumpStatement "break")
  | "continue" => some (r.jumpStatement "continue")
  | "debugger" => some r.debuggerStatement
  | "export" => some r.exportStatement
  | "var" => some r.variableStatement
  | "const" => some r.declaration
  | "case" | "default" | "else" | "catch" | "finally" => some failure
  | _ => none

def Rules.labeledOrExpression (r : Rules) : Parser Node :=
  r.labeledStatement <|> r.expressionStatement

/-- A function or class with a name comes next, which can only be a declaration. -/
def Rules.namedHeadFollows (r : Rules) : Parser Bool := succeeds do
  let function := do
    let _ ← optional (keyword "async")
    keyword "function"
    let _ ← optional (char '*')
  function <|> keyword "class"
  let name ← word
  require (name != "extends" && (r.dialect.hasTypes || !reservedWords.contains name))

/-- Words that may start a declaration but are names otherwise. -/
def Rules.wordStatement (r : Rules) : String → Parser Node
  | "import" => firstOf [r.importStatement, (do require r.dialect.hasTypes; r.importAlias),
      r.expressionStatement]
  | "using" | "await" => r.usingStatement <|> r.labeledOrExpression
  | "function" | "async" | "class" => r.declaration <|> do
    require !(← r.namedHeadFollows)
    r.labeledOrExpression
  | "let" | "type" | "interface" | "enum" | "namespace" | "module" | "declare" | "abstract" =>
    r.declaration <|> r.labeledOrExpression
  | _ => r.labeledOrExpression

def Rules.statementRule (r : Rules) : Parser Node := do
  skipStatementGap
  match (← peek).getD ' ' with
  | '\x7b' => r.block <|> do
    require (← r.objectFollows)
    r.expressionStatement
  | ';' => construct "empty_statement" do
    mark ";"
    return []
  | '@' => firstOf [r.exportStatement, r.classDeclaration, r.expressionStatement]
  | _ =>
    let name ← peekWord
    if name.isEmpty then r.expressionStatement
    else
      match r.keywordStatement? name with
      | some p => p
      | none => r.wordStatement name

/-- The rules for constructs nested up to a depth. -/
def rules (d : Dialect) : Nat → Rules
  | 0 => Rules.empty d
  | n + 1 =>
    { dialect := d
      expression := fun c i => (rules d n).expressionRule c i
      binary := fun c least i => (rules d n).binaryRule c least i
      unary := fun c i => (rules d n).unaryRule c i
      operand := fun c i => (rules d n).operandRule c i
      primary := fun c i => (rules d n).primaryRule c i
      statement := fun i => (rules d n).statementRule i
      pattern := fun i => (rules d n).target i
      type := fun i => (rules d n).fullType i
      element := fun i => (rules d n).jsxElement i }

/-- A first line that names an interpreter. -/
def interpreterLine : Parser Unit := do
  skipGap
  let '#' :: '!' :: rest ← remaining | failure
  advance ((rest.takeWhile fun c => !isLineEnd c).length + 2)

def program (r : Rules) : Parser Node := do
  let _ ← optional interpreterLine
  let statements ← many r.statement
  skipStatementGap
  require (← remaining).isEmpty
  return Node.branch .program 0 (← offset) statements

/-- The syntax tree of a program, if it is one. -/
def parse? (d : Dialect) (source : List Char) : Option Node :=
  ((program (rules d (4 * source.length + 16))) ⟨source, 0⟩).map (·.1)

end PropShear.Grammar
