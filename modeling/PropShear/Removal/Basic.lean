import PropShear.Removal.Extent

/-! What is removed from a program.

`Removal.at?` decides for one place of the tree, `Removal.find` lists the removals of a whole tree
in pre-order. -/
namespace PropShear

inductive Removal.Reason where
  | imported
  | required
  | assigned
deriving DecidableEq, Repr

def Removal.Reason.name : Reason → String
  | .imported => "import"
  | .required => "require"
  | .assigned => "static_prop_assignment"

/-- Bytes to remove and why. -/
structure Removal where
  reason : Removal.Reason
  /-- The tracked module that is imported or required. -/
  module? : Option Specifier
  start : Nat
  stop : Nat
deriving DecidableEq, Repr

namespace Removal

def ofImport? (source : List Char) (modules : List Specifier) (p : Place) :
    Except Fault (Option Removal) := do
  let some m ← Shape.importOf? source modules p.node | return none
  let (start, stop) := Extent.ofStatement (Extent.enclosing p)
  return some ⟨.imported, some m, start, stop⟩

def ofRequire? (source : List Char) (modules : List Specifier) (p : Place) :
    Except Fault (Option Removal) := do
  let some m ← Shape.requireOf? source modules p.node | return none
  let (start, stop) := (← Extent.ofDeclarator? source modules p).getD
    (Extent.ofStatement (Extent.enclosing p))
  return some ⟨.required, some m, start, stop⟩

def ofAssignment? (source : List Char) (p : Place) : Except Fault (Option Removal) := do
  if ← Shape.assigns source p.node then
    let (start, stop) := Extent.ofStatement (Extent.enclosing p)
    return some ⟨.assigned, none, start, stop⟩
  else return none

/-- The removal that the node at a place asks for. -/
def at? (source : List Char) (modules : List Specifier) (p : Place) :
    Except Fault (Option Removal) :=
  match p.node.kind with
  | .importStatement => ofImport? source modules p
  | .callExpression => ofRequire? source modules p
  | .expressionStatement => ofAssignment? source p
  | _ => return none

/-- The removals of a tree, in pre-order of the nodes that ask for them. -/
def find (source : List Char) (modules : List Specifier) (root : Node) :
    Except Fault (List Removal) := do
  let found ← root.places.mapM (at? source modules)
  return found.filterMap id

end Removal
end PropShear
