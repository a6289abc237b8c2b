import PropShear.Removal.Literal
import PropShear.Specifier

/-! The three shapes of code that can be removed.

* An import: `import … from 'm'`, `import 'm'`, `import type …`, `import x = require('m')`.
* A require: a call of `require` with a single string argument.
* An assignment of a checked property: `X.propTypes = …` or `X.defaultProps = …` as a statement,
  for any `X`, with any assignment operator and any parentheses around it. -/
namespace PropShear.Shape

/-- The properties whose assignments are removed. -/
def checkedProperties : List String := ["propTypes", "defaultProps"]

/-- The node that names the module of an import. -/
def importSource? (n : Node) : Option Node :=
  (n.childIn .source).or
    ((n.namedChildren.find? (·.kind == .importRequireClause)).bind (·.childIn .source))

/-- The module that an import statement names. -/
def importModule? (source : List Char) (n : Node) : Except Fault (Option (List Nat)) :=
  match importSource? n with
  | some literal => Literal.value? source literal
  | none => return none

/-- The module that a call of `require` names. -/
def requireModule? (source : List Char) (n : Node) : Except Fault (Option (List Nat)) := do
  let some callee := n.childIn .function | return none
  if callee.kind ≠ .identifier then return none
  if (← Literal.textOf source callee) ≠ "require".toList then return none
  let some arguments := n.childIn .arguments | return none
  if arguments.kind ≠ .arguments then return none
  match arguments.parts with
  | [argument] => Literal.value? source argument
  | _ => return none

mutual
/-- Takes off parentheses that hold a single expression. -/
def unwrap? : Node → Option Node
  | n@(.mk kind _ _ _ _ _ _ children) =>
    if kind = .parenthesizedExpression then unwrapOnly? children else some n

/-- Unwraps the only part among the children of a pair of parentheses. -/
def unwrapOnly? : List Node → Option Node
  | [] => none
  | n :: rest =>
    if n.named && n.kind != .comment then
      if rest.any (fun m => m.named && m.kind != .comment) then none else unwrap? n
    else unwrapOnly? rest
end

/-- The checked property that an expression statement assigns. -/
def assignedProperty? (source : List Char) (n : Node) : Except Fault (Option String) := do
  let [expression] := n.parts | return none
  let some assignment := unwrap? expression | return none
  unless assignment.kind.isAssignment do return none
  let some target := (assignment.childIn .left).bind unwrap? | return none
  if target.kind ≠ .memberExpression then return none
  let some property := target.childIn .property | return none
  if property.kind ≠ .propertyIdentifier then return none
  let name := String.ofList (← Literal.textOf source property)
  return if checkedProperties.contains name then some name else none

/-- The tracked module that code points spell, if they spell one. -/
def tracked? (modules : List Specifier) (points : Option (List Nat)) : Option Specifier :=
  points.bind fun p => modules.find? fun m => m.points == p

/-- The node imports a tracked module. -/
def importOf? (source : List Char) (modules : List Specifier) (n : Node) :
    Except Fault (Option Specifier) := do
  if n.kind = .importStatement then return tracked? modules (← importModule? source n)
  else return none

/-- The node requires a tracked module. -/
def requireOf? (source : List Char) (modules : List Specifier) (n : Node) :
    Except Fault (Option Specifier) := do
  if n.kind = .callExpression then return tracked? modules (← requireModule? source n)
  else return none

/-- The node is a statement that assigns a checked property. -/
def assigns (source : List Char) (n : Node) : Except Fault Bool := do
  if n.kind = .expressionStatement then return (← assignedProperty? source n).isSome
  else return false

end PropShear.Shape
