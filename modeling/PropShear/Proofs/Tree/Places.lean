import PropShear.Tree.Walk

/-! Places: which ones a tree has and how they lie to each other.

The children of a place are places again, and a place lies *within* another if steps from parent to
child lead to it. `mem_places` says that the walk enters exactly the places within the root, and
`map_node_places` that it does so in pre-order. Two places that neither lie within the other come
from two children of one place (`within_cases`); everything about extents rests on that. -/
namespace PropShear
namespace Place

/-- The places of some of the children of a place, given with all children after them. -/
def childrenFrom (p : Place) : List Node → List Place
  | [] => []
  | n :: rest => .child n rest p :: childrenFrom p rest

def children (p : Place) : List Place := childrenFrom p p.node.children

/-- The siblings after a place. -/
def later : Place → List Place
  | root _ => []
  | child _ after parent => childrenFrom parent after

/-- The place is at or below another one. -/
inductive Within (q : Place) : Place → Prop
  | refl : Within q q
  | child {p c : Place} (h : Within q p) (hc : c ∈ p.children) : Within q c

/-- The place is at or below another one, with no container of statements below that one on the way
and the place itself no container either. -/
inductive Reaches (q : Place) : Place → Prop
  | refl : Reaches q q
  | child {p c : Place} (h : Reaches q p) (hc : c ∈ p.children)
      (ho : c.node.kind.isContainer = false) : Reaches q c

/-! ### Children -/

@[simp] theorem node_root (n : Node) : (root n).node = n := rfl

@[simp] theorem node_child (n : Node) (after : List Node) (p : Place) :
    (child n after p).node = n := rfl

theorem map_node_childrenFrom (p : Place) (ns : List Node) :
    (childrenFrom p ns).map node = ns := by
  induction ns with
  | nil => rfl
  | cons n rest ih => simp only [childrenFrom, List.map_cons, ih, node_child]

theorem map_node_children (p : Place) : p.children.map node = p.node.children :=
  map_node_childrenFrom p p.node.children

theorem node_mem_children {p c : Place} (hc : c ∈ p.children) : c.node ∈ p.node.children := by
  rw [← map_node_children]
  exact List.mem_map_of_mem hc

theorem parent_of_mem_childrenFrom {p c : Place} {ns : List Node} (hc : c ∈ childrenFrom p ns) :
    c.parent? = some p := by
  induction ns with
  | nil => cases hc
  | cons n rest ih =>
    rcases List.mem_cons.mp hc with rfl | hc
    · rfl
    · exact ih hc

theorem parent_of_mem_children {p c : Place} (hc : c ∈ p.children) : c.parent? = some p :=
  parent_of_mem_childrenFrom hc

/-- A child is spelled with its parent and the siblings after it. -/
theorem eq_child {p c : Place} (hc : c ∈ p.children) : ∃ after, c = .child c.node after p := by
  have hp := parent_of_mem_children hc
  cases c with
  | root n => cases hp
  | child n after parent =>
    cases hp
    exact ⟨after, rfl⟩

theorem children_eq_nil {p : Place} (h : p.node.children = []) : p.children = [] := by
  rw [children, h]
  rfl

/-- Of two children one is the other, or comes after it. -/
theorem childrenFrom_cases {p a b : Place} {ns : List Node} (ha : a ∈ childrenFrom p ns)
    (hb : b ∈ childrenFrom p ns) : a = b ∨ b ∈ a.later ∨ a ∈ b.later := by
  induction ns with
  | nil => cases ha
  | cons n rest ih =>
    rcases List.mem_cons.mp ha with rfl | ha <;> rcases List.mem_cons.mp hb with rfl | hb
    · exact .inl rfl
    · exact .inr (.inl hb)
    · exact .inr (.inr ha)
    · exact ih ha hb

theorem later_subset {p a b : Place} {ns : List Node} (ha : a ∈ childrenFrom p ns)
    (hb : b ∈ a.later) : b ∈ childrenFrom p ns := by
  induction ns with
  | nil => cases ha
  | cons n rest ih =>
    rcases List.mem_cons.mp ha with rfl | ha
    · exact List.mem_cons_of_mem _ hb
    · exact List.mem_cons_of_mem _ (ih ha)

/-- The sibling right after a child, as a place. -/
theorem later_of_next {p a : Place} {m : Node} (ha : a ∈ p.children) (hm : a.next? = some m) :
    ∃ b, a.later = b :: b.later ∧ b ∈ p.children ∧ b.node = m := by
  obtain ⟨after, hspell⟩ := eq_child ha
  rw [hspell] at hm
  cases after with
  | nil => cases hm
  | cons m' rest =>
    cases hm
    have hlater : a.later = .child m rest p :: childrenFrom p rest := by rw [hspell]; rfl
    refine ⟨.child m rest p, hlater, ?_, rfl⟩
    exact later_subset ha (hlater ▸ List.mem_cons_self)

/-! ### Within -/

theorem Within.trans {a b c : Place} (hab : Within a b) (hbc : Within b c) : Within a c := by
  induction hbc with
  | refl => exact hab
  | child _ hc ih => exact .child ih hc

theorem Within.of_child {p c q : Place} (hc : c ∈ p.children) (h : Within c q) : Within p q :=
  (Within.refl.child hc).trans h

/-- What lies within a place is that place or lies within one of its children. -/
theorem Within.eq_or_child {p q : Place} (h : Within p q) :
    q = p ∨ ∃ c ∈ p.children, Within c q := by
  induction h with
  | refl => exact .inl rfl
  | child _ hd ih =>
    rcases ih with rfl | ⟨c, hc, hw⟩
    · exact .inr ⟨_, hd, .refl⟩
    · exact .inr ⟨c, hc, hw.child hd⟩

/-- Two places of a tree: the same one, one strictly within the other, or within two children of
one place. -/
theorem within_cases {root p q : Place} (hp : Within root p) (hq : Within root q) :
    p = q ∨ (∃ c ∈ p.children, Within c q) ∨ (∃ c ∈ q.children, Within c p) ∨
      ∃ s a b, Within root s ∧ a ∈ s.children ∧ b ∈ a.later ∧
        (Within a p ∧ Within b q ∨ Within a q ∧ Within b p) := by
  induction hp with
  | refl =>
    rcases hq.eq_or_child with rfl | h
    · exact .inl rfl
    · exact .inr (.inl h)
  | @child s c hs hc ih =>
    -- compare with the parent first: only what lies below the parent needs a closer look
    rcases ih with rfl | ⟨d, hd, hdq⟩ | ⟨d, hd, hds⟩ | ⟨t, a, b, ht, ha, hb, h⟩
    · exact .inr (.inr (.inl ⟨c, hc, .refl⟩))
    · rcases childrenFrom_cases hc hd with rfl | hlater | hlater
      · rcases hdq.eq_or_child with rfl | h
        · exact .inl rfl
        · exact .inr (.inl h)
      · exact .inr (.inr (.inr ⟨s, c, d, hs, hc, hlater, .inl ⟨.refl, hdq⟩⟩))
      · exact .inr (.inr (.inr ⟨s, d, c, hs, hd, hlater, .inr ⟨hdq, .refl⟩⟩))
    · exact .inr (.inr (.inl ⟨d, hd, hds.child hc⟩))
    · refine .inr (.inr (.inr ⟨t, a, b, ht, ha, hb, ?_⟩))
      rcases h with ⟨h₁, h₂⟩ | ⟨h₁, h₂⟩
      · exact .inl ⟨h₁.child hc, h₂⟩
      · exact .inr ⟨h₁, h₂.child hc⟩

/-! ### Reaches -/

theorem Reaches.within {p q : Place} (h : Reaches p q) : Within p q := by
  induction h with
  | refl => exact .refl
  | child _ hc _ ih => exact ih.child hc

theorem Reaches.trans {a b c : Place} (hab : Reaches a b) (hbc : Reaches b c) : Reaches a c := by
  induction hbc with
  | refl => exact hab
  | child _ hc ho ih => exact .child ih hc ho

theorem Reaches.isContainer {p q : Place} (h : Reaches p q)
    (hp : p.node.kind.isContainer = false) : q.node.kind.isContainer = false := by
  cases h with
  | refl => exact hp
  | child _ _ ho => exact ho

/-- The first step of the way down, in place of the last. -/
theorem reaches_iff {p q : Place} : Reaches p q ↔
    q = p ∨ ∃ c ∈ p.children, c.node.kind.isContainer = false ∧ Reaches c q := by
  constructor
  · intro h
    induction h with
    | refl => exact .inl rfl
    | child _ hd ho ih =>
      rcases ih with rfl | ⟨c, hc, hco, hr⟩
      · exact .inr ⟨_, hd, ho, .refl⟩
      · exact .inr ⟨c, hc, hco, hr.child hd ho⟩
  · rintro (rfl | ⟨c, hc, ho, h⟩)
    · exact .refl
    · exact (Reaches.refl.child hc ho).trans h

end Place

/-! ### The walk -/

/-- The walk from a step on takes the steps ahead, one after another. -/
theorem Visit.walkFrom_eq (done : List Visit) (v : Visit) :
    walkFrom done v = done.reverse ++ v.ahead := by
  fun_induction walkFrom done v with
  | case1 done v hlast => simp [ahead_eq v, hlast]
  | case2 done v w hnext _ ih => simp [ahead_eq v, hnext, ih]

/-- Move by move, the walk of a tree takes the steps of the recursion over it. -/
theorem Node.walk_eq (root : Node) : root.walk = Visit.walk (.root root) root := by
  rw [Node.walk, Visit.walkFrom_eq]
  exact List.append_nil _

/-- The places that a walk enters. -/
def Visit.entered (visits : List Visit) : List Place := visits.filterMap Visit.entered?

theorem Visit.entered_walk (p : Place) (n : Node) :
    entered (walk p n) = p :: entered (walkAll p n.children) := by
  cases n with
  | mk => simp [entered, walk, entered?, Node.children]

theorem Visit.entered_walkAll_cons (p : Place) (n : Node) (rest : List Node) :
    entered (walkAll p (n :: rest)) =
      entered (walk (.child n rest p) n) ++ entered (walkAll p rest) := by
  simp [entered, walkAll]

mutual

theorem Visit.mem_entered_walk (n : Node) (p q : Place) (hn : p.node = n) :
    q ∈ entered (walk p n) ↔ p.Within q := by
  match n with
  | .mk kind start stop role named missing flagged children =>
    have hall := mem_entered_walkAll children p q
    have hchildren : p.children = p.childrenFrom children := by rw [Place.children, hn]; rfl
    rw [entered_walk, List.mem_cons]
    constructor
    · rintro (rfl | h)
      · exact .refl
      · obtain ⟨c, hc, hw⟩ := hall.mp h
        exact .of_child (hchildren ▸ hc) hw
    · intro h
      rcases h.eq_or_child with rfl | ⟨c, hc, hw⟩
      · exact .inl rfl
      · exact .inr (hall.mpr ⟨c, hchildren ▸ hc, hw⟩)

theorem Visit.mem_entered_walkAll (ns : List Node) (p q : Place) :
    q ∈ entered (walkAll p ns) ↔ ∃ c ∈ p.childrenFrom ns, c.Within q := by
  match ns with
  | [] => simp [entered, walkAll, Place.childrenFrom]
  | n :: rest =>
    have hhead := mem_entered_walk n (.child n rest p) q rfl
    have htail := mem_entered_walkAll rest p q
    rw [entered_walkAll_cons, List.mem_append, hhead, htail]
    simp only [Place.childrenFrom, List.mem_cons, exists_eq_or_imp]

end

/-- The walk enters exactly the places within the root. -/
theorem Node.mem_places {root : Node} {p : Place} :
    p ∈ root.places ↔ (Place.root root).Within p := by
  rw [Node.places, Node.walk_eq]
  exact Visit.mem_entered_walk root (.root root) p rfl

mutual

theorem Visit.map_node_walk (n : Node) (p : Place) (hn : p.node = n) :
    (entered (walk p n)).map Place.node = n.preorder := by
  match n with
  | .mk kind start stop role named missing flagged children =>
    rw [entered_walk, List.map_cons, hn, Node.preorder]
    exact congrArg _ (map_node_walkAll children p)

theorem Visit.map_node_walkAll (ns : List Node) (p : Place) :
    (entered (walkAll p ns)).map Place.node = Node.preorderAll ns := by
  match ns with
  | [] => rfl
  | n :: rest =>
    rw [entered_walkAll_cons, List.map_append, Node.preorderAll]
    rw [map_node_walk n (.child n rest p) rfl, map_node_walkAll rest p]

end

/-- The walk enters the nodes of a tree in pre-order, each of them once. -/
theorem Node.map_node_places (root : Node) : root.places.map Place.node = root.preorder := by
  rw [Node.places, Node.walk_eq]
  exact Visit.map_node_walk root (.root root) rfl

theorem Place.Within.node_mem_preorder {p q : Place} (h : p.Within q) :
    q.node ∈ p.node.preorder := by
  rw [← Visit.map_node_walk p.node p rfl]
  exact List.mem_map_of_mem ((Visit.mem_entered_walk p.node p q rfl).mpr h)

end PropShear
