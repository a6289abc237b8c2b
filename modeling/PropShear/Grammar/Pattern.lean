import PropShear.Grammar.Rules

/-! Destructuring patterns: what stands on the left of an assignment or is bound by a
declaration. -/
namespace PropShear.Grammar

/-- A pattern with a default value, if one follows. -/
def Rules.withDefault (r : Rules) (kind : Kind) (target : Node) : Parser Node := do
  match ← optional (r.initializer .inner) with
  | some value => buildFrom target kind [target.inRole .left, value]
  | none => return target

/-- A rest element: `...target`. -/
def Rules.restPattern (r : Rules) : Parser Node := build (.other "rest_pattern") do
  mark "..."
  return [← r.pattern]

/-- An element of an array pattern, or the target of a member in an object pattern. -/
def Rules.patternElement (r : Rules) : Parser Node := do
  r.restPattern <|> (do r.withDefault (.other "assignment_pattern") (← r.pattern))

/-- A member with its own target: `name: target`. -/
def Rules.pairPattern (r : Rules) : Parser Node := build (.other "pair_pattern") do
  let name ← r.memberName
  mark ":"
  return [name, ← r.patternElement]

/-- A member that is bound under its own name. -/
def Rules.shorthandPattern (r : Rules) : Parser Node := do
  let name ← bindingName r.dialect
  let name := Node.branch (.other "shorthand_property_identifier_pattern") name.start name.stop []
  r.withDefault (.other "object_assignment_pattern") name

def Rules.objectPattern (r : Rules) : Parser Node := build (.other "object_pattern") do
  char '\x7b'
  sparseList (firstOf [r.restPattern, r.pairPattern, r.shorthandPattern]) '\x7d'

def Rules.arrayPattern (r : Rules) : Parser Node := build (.other "array_pattern") do
  char '['
  sparseList r.patternElement ']'

/-- An expression that can be assigned to. -/
def isAssignable (n : Node) : Bool :=
  [Kind.identifier, .memberExpression, .other "subscript_expression",
    .other "non_null_expression"].contains n.kind

/-- A property of a value, after a dot. -/
def memberAccess (n : Node) : Parser Node := do
  mark "."
  let property ← propertyName <|> privateName
  buildFrom n .memberExpression [n, property.inRole .property]

/-- A member of a value, between brackets. -/
def Rules.subscript (r : Rules) (n : Node) : Parser Node := do
  char '['
  let index ← r.sequence .inner
  char ']'
  buildFrom n (.other "subscript_expression") [n, index]

/-- A word that is a value of its own. -/
def wordValue (name : String) : Parser Node := build (.other name) do
  keyword name
  return []

/-- A target of a destructuring assignment: a pattern, a name, or a member reached by properties
and brackets. -/
def Rules.target (r : Rules) : Parser Node := do
  let chain := do
    let first ← firstOf [wordValue "this", wordValue "super", identifier r.dialect]
    let n ← extended first fun n => memberAccess n <|> r.subscript n
    require (isAssignable n)
    return n
  firstOf [r.objectPattern, r.arrayPattern, chain]

/-- What a declaration binds: a name or a pattern. -/
def Rules.binding (r : Rules) : Parser Node :=
  firstOf [r.objectPattern, r.arrayPattern, bindingName r.dialect]

end PropShear.Grammar
