import PropShear.Grammar.Statement

/-! Imports and exports. -/
namespace PropShear.Grammar

/-- The name of a module, in the role in which imports are recognised. -/
def moduleSource : Parser Node := return (← string).inRole .source

def fromClause : Parser Node := do
  keyword "from"
  moduleSource

/-- Attributes after the name of a module. -/
def Rules.attributes (r : Rules) : Parser Node := construct "import_attribute" do
  keyword "with" <|> keyword "assert"
  return [← r.object]

/-- A name inside an import or export list: a word or a string. -/
def listedName : Parser Node := string <|> wordNode .identifier

/-- An item of an import or export list, possibly renamed or marked as a type. -/
def Rules.specifier (r : Rules) (kind : String) : Parser Node := do
  let plain := do
    let name ← listedName
    let renamed ← optional do
      keyword "as"
      listedName
    return name :: renamed.toList
  let typed := construct kind do
    require r.dialect.hasTypes
    keyword "type" <|> keyword "typeof"
    let names ← plain
    skipGap
    let next := (← peek).getD ' '
    require (next == ',' || next == '\x7d')
    return names
  let untyped := construct kind do
    let names ← plain
    skipGap
    let next := (← peek).getD ' '
    require (next == ',' || next == '\x7d')
    return names
  untyped <|> typed

def Rules.specifiers (r : Rules) (list kind : String) : Parser Node := construct list do
  char '\x7b'
  denseList (r.specifier kind) '\x7d'

def Rules.importClause (r : Rules) : Parser Node := construct "import_clause" do
  let namespaceImport := construct "namespace_import" do
    mark "*"
    keyword "as"
    return [← bindingName r.dialect]
  let named := r.specifiers "named_imports" "import_specifier"
  let first := do
    let name ← bindingName r.dialect
    let more ← optional do
      mark ","
      namespaceImport <|> named
    return name :: more.toList
  firstOf [do return [← namespaceImport], do return [← named], first]

/-- An import that binds what a call of `require` returns. -/
def Rules.importRequireClause (r : Rules) : Parser Node := build .importRequireClause do
  require r.dialect.hasTypes
  let name ← bindingName r.dialect
  mark "="
  keyword "require"
  char '('
  let source ← moduleSource
  char ')'
  return [name, source]

/-- What follows the keyword `import`, up to the semicolon. -/
def Rules.importRest (r : Rules) : Parser (List Node) := do
  let clause := do
    let names ← r.importClause
    return [names, ← fromClause]
  let bare := do return [← moduleSource]
  let required := do return [← r.importRequireClause]
  let body ← firstOf [clause, required, bare]
  return body ++ (← optional r.attributes).toList

def Rules.importStatement (r : Rules) : Parser Node := do
  let ofTypes := build .importStatement do
    keyword "import"
    require r.dialect.hasTypes
    keyword "type" <|> keyword "typeof"
    let body ← r.importRest
    semicolon r.dialect .other
    return body
  let ofValues := build .importStatement do
    keyword "import"
    let body ← r.importRest
    semicolon r.dialect .other
    return body
  ofTypes <|> ofValues

/-! ### Exports -/

/-- An export of names, from here or from another module. -/
def Rules.exportNames (r : Rules) : Parser (List Node) := do
  if r.dialect.hasTypes then
    let _ ← optional do
      keyword "type"
      skipGap
      let next := (← peek).getD ' '
      require (next == '\x7b' || next == '*')
  let everything := do
    mark "*"
    let _ ← optional do
      keyword "as"
      listedName
    return [← fromClause]
  let listed := do
    let names ← r.specifiers "export_clause" "export_specifier"
    return names :: (← optional fromClause).toList
  let body ← everything <|> listed
  let attributes ← optional r.attributes
  semicolon r.dialect .other
  return body ++ attributes.toList

/-- A default export: a declaration, or an expression with its semicolon. -/
def Rules.exportDefault (r : Rules) : Parser (List Node) := do
  keyword "default"
  let value := do
    let n ← r.expression .final
    semicolon r.dialect .expression
    return n
  return [← r.declaration <|> value]

/-- Exports that only exist where types are known. -/
def Rules.exportTyped (r : Rules) : Parser (List Node) := do
  require r.dialect.hasTypes
  let assigned := do
    mark "="
    let n ← r.sequence .final
    semicolon r.dialect .expression
    return [n]
  let global := do
    keyword "as"
    keyword "namespace"
    let name ← wordNode .identifier
    semicolon r.dialect .other
    return [name]
  let imported := do return [← r.importStatement]
  firstOf [assigned, global, imported]

def Rules.exportStatement (r : Rules) : Parser Node := construct "export_statement" do
  let decorators ← many r.decorator
  keyword "export"
  let declared := do return [← r.declaration]
  return decorators ++ (← firstOf [r.exportNames, r.exportDefault, declared, r.exportTyped])

end PropShear.Grammar
