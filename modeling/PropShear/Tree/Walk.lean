import PropShear.Tree.Node

/-! Places in a tree and the walk through them.

A place is a node together with what surrounds it: its later siblings and the place of its parent.
The walk goes from place to place, one move at a time, until it has left the root. It enters every
place in pre-order and leaves it after its children. -/
namespace PropShear

inductive Place where
  | root (node : Node)
  | child (node : Node) (after : List Node) (parent : Place)

namespace Place

def node : Place → Node
  | root node => node
  | child node _ _ => node

def parent? : Place → Option Place
  | root _ => none
  | child _ _ parent => some parent

/-- The sibling right after, punctuation included. -/
def next? : Place → Option Node
  | root _ => none
  | child _ after _ => after.head?

/-- The place of the first child. -/
def firstChild? (p : Place) : Option Place :=
  match p.node.children with
  | [] => none
  | n :: rest => some (child n rest p)

/-- The place of the sibling right after. -/
def nextSibling? : Place → Option Place
  | root _ => none
  | child _ [] _ => none
  | child _ (n :: rest) parent => some (child n rest parent)

/-- The kind of the parent. -/
def parentKind? (p : Place) : Option Kind := p.parent?.map (·.node.kind)

end Place

/-- A step of the walk. -/
inductive Visit where
  | enter (place : Place)
  | leave (place : Place)

namespace Visit

mutual
/-- Enters a node, walks its children from left to right and leaves it. -/
def walk (place : Place) : Node → List Visit
  | .mk _ _ _ _ _ _ _ children => enter place :: walkAll place children ++ [leave place]

def walkAll (parent : Place) : List Node → List Visit
  | [] => []
  | n :: rest => walk (.child n rest parent) n ++ walkAll parent rest
end

/-- The step after this one. A node that has been entered is followed by its first child; without
children it is left again. After a node has been left comes its next sibling, and after the last one
the parent is left. -/
def next? : Visit → Option Visit
  | enter place =>
    match place.firstChild? with
    | some child => some (enter child)
    | none => some (leave place)
  | leave place =>
    match place.nextSibling? with
    | some sibling => some (enter sibling)
    | none => place.parent?.map leave

/-- What is left to do after a place has been left. -/
def aheadOf : Place → List Visit
  | .root _ => []
  | .child _ after parent => walkAll parent after ++ leave parent :: aheadOf parent

/-- The steps from one on. -/
def ahead : Visit → List Visit
  | enter place => walk place place.node ++ aheadOf place
  | leave place => leave place :: aheadOf place

theorem walk_eq (p : Place) (n : Node) :
    walk p n = enter p :: walkAll p n.children ++ [leave p] := by
  cases n with
  | mk => rfl

/-- One step is done, and the next one has the others ahead. -/
theorem ahead_eq (v : Visit) : v.ahead = v :: (v.next?.map ahead).getD [] := by
  cases v with
  | enter p =>
    rw [ahead, walk_eq, next?, Place.firstChild?]
    cases p.node.children with
    | nil => rfl
    | cons n rest => simp [walkAll, ahead, aheadOf, Place.node]
  | leave p =>
    cases p with
    | root n => rfl
    | child n after parent =>
      cases after with
      | nil => rfl
      | cons m rest => simp [ahead, aheadOf, walkAll, next?, Place.nextSibling?, Place.node]

theorem length_ahead_lt {v w : Visit} (h : v.next? = some w) : w.ahead.length < v.ahead.length := by
  rw [ahead_eq v, h]
  exact Nat.lt_succ_self _

/-- The walk from a step on, behind the steps that are done, the last of them first. -/
@[semireducible] def walkFrom (done : List Visit) (v : Visit) : List Visit :=
  match h : v.next? with
  | none => (v :: done).reverse
  | some w =>
    have := length_ahead_lt h
    walkFrom (v :: done) w
termination_by v.ahead.length

def entered? : Visit → Option Place
  | enter place => some place
  | leave _ => none

end Visit

/-- The steps of the walk of a tree. -/
def Node.walk (root : Node) : List Visit := Visit.walkFrom [] (.enter (.root root))

/-- The places of a tree in pre-order. -/
def Node.places (root : Node) : List Place := root.walk.filterMap Visit.entered?

end PropShear
