import PropShear.Removal.Shape
import PropShear.Tree.Walk

/-! How much of the text goes with a removed node.

Normally the whole statement or class member around it, so that nothing dangles; in a class body
with a semicolon right after it. A require in one declarator of several takes only that declarator
and the gap on one side of it, unless every declarator of the declaration goes. -/
namespace PropShear.Extent

/-- The place at or above this one whose parent is a container of statements, else the root. -/
def enclosing : Place → Place
  | .root n => .root n
  | p@(.child _ _ parent) => if parent.node.kind.isContainer then p else enclosing parent

/-- The bytes of a statement or class member. -/
def ofStatement (p : Place) : Nat × Nat :=
  match p.parentKind?, p.next? with
  | some .classBody, some next =>
    if next.kind = .semicolon then (p.node.start, next.stop) else (p.node.start, p.node.stop)
  | _, _ => (p.node.start, p.node.stop)

/-- The declarator around a place and its declaration, below the next container of statements. -/
def declarator? : Place → Option (Node × Node)
  | .root _ => none
  | .child n _ parent =>
    if parent.node.kind.isContainer then none
    else if n.kind = .variableDeclarator ∧ parent.node.kind.isDeclaration then
      some (n, parent.node)
    else declarator? parent

mutual
/-- A tracked require stands in the node, not counting what containers of statements hold. The
search has no limit of depth; a program with a bounded stack gives up on declarators that are nested
more deeply than it can follow. -/
def holdsRequire (source : List Char) (modules : List Specifier) : Node → Except Fault Bool
  | n@(.mk _ _ _ _ _ _ _ children) => do
    if (← Shape.requireOf? source modules n).isSome then return true
    anyHoldsRequire source modules children

def anyHoldsRequire (source : List Char) (modules : List Specifier) : List Node → Except Fault Bool
  | [] => return false
  | n :: rest => do
    if n.named && !n.kind.isContainer then
      if ← holdsRequire source modules n then return true
    anyHoldsRequire source modules rest
end

/-- The bytes that go with one of several declarators: the gap before it if a declarator before it
stays, else the gap after it. -/
def amongDeclarators (declarators : List Node) (doomed : List Bool) (n : Node) :
    Except Fault (Nat × Nat) :=
  match declarators.findIdx? (·.start == n.start) with
  | none => .error .strayDeclarator
  | some i =>
    if (doomed.take i).any not then
      match declarators[i - 1]? with
      | some before => .ok (before.stop, n.stop)
      | none => .error .strayDeclarator
    else
      match declarators[i + 1]? with
      | some after => .ok (n.start, after.start)
      | none => .error .lastDeclarator

/-- The bytes of the declarator around a place, if its declaration keeps another one. -/
def ofDeclarator? (source : List Char) (modules : List Specifier) (p : Place) :
    Except Fault (Option (Nat × Nat)) := do
  let some (n, declaration) := declarator? p | return none
  let declarators := declaration.namedChildren.filter (·.kind == .variableDeclarator)
  let doomed ← declarators.mapM (holdsRequire source modules)
  if declarators.length < 2 || doomed.all id then return none
  return some (← amongDeclarators declarators doomed n)

end PropShear.Extent
