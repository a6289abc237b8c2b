import PropShear.Proofs.Tree.Places

/-! The walk as a run of moves.

A run takes one step after another, each the next of the one before, and ends where there is no next
one (`Runs`). From every step there is one run, and it takes the steps ahead (`runs_iff`). The walk
of a tree is the run from its root, so it ends, and it is the recursion over the tree move by move.
A place lies within at most one place of each depth (`Within.eq_of_depth`), hence the subtrees of
two siblings have no place in common, and the walk comes to no place twice (`nodup_entered_walk`).
It leaves the places that it enters, in another order (`perm_left_walk`). -/
namespace PropShear

namespace Visit

/-- Steps from one on, each the next of the one before, until there is none. -/
inductive Runs : Visit → List Visit → Prop
  | last {v : Visit} (h : v.next? = none) : Runs v [v]
  | step {v w : Visit} {visits : List Visit} (h : v.next? = some w) (hrest : Runs w visits) :
    Runs v (v :: visits)

theorem runs_ahead (v : Visit) : v.Runs v.ahead := by
  rw [ahead_eq]
  cases h : v.next? with
  | none => exact .last h
  | some w => exact .step h (runs_ahead w)
termination_by v.ahead.length
decreasing_by exact length_ahead_lt h

/-- There is a run from every step, and only one. -/
theorem runs_iff {v : Visit} {visits : List Visit} : v.Runs visits ↔ visits = v.ahead := by
  constructor
  · intro h
    induction h with
    | @last v h => rw [ahead_eq v, h]; rfl
    | @step v w visits h _ ih => rw [ahead_eq v, h, ih]; rfl
  · rintro rfl
    exact runs_ahead v

def left? : Visit → Option Place
  | enter _ => none
  | leave place => some place

/-- The places that a walk leaves. -/
def left (visits : List Visit) : List Place := visits.filterMap left?

theorem left_walk (p : Place) (n : Node) :
    left (walk p n) = left (walkAll p n.children) ++ [p] := by
  rw [walk_eq, left, List.cons_append, List.filterMap_cons, List.filterMap_append]
  rfl

theorem left_walkAll_cons (p : Place) (n : Node) (rest : List Node) :
    left (walkAll p (n :: rest)) = left (walk (.child n rest p) n) ++ left (walkAll p rest) := by
  simp [left, walkAll]

end Visit

/-! ### No place twice -/

namespace Place

/-- The number of places above. -/
def depth : Place → Nat
  | root _ => 0
  | child _ _ parent => parent.depth + 1

theorem mem_childrenFrom {p c : Place} {ns : List Node} :
    c ∈ p.childrenFrom ns ↔ ∃ n rest, n :: rest <:+ ns ∧ c = .child n rest p := by
  induction ns with
  | nil => simp [childrenFrom]
  | cons m more ih =>
    rw [childrenFrom, List.mem_cons, ih]
    constructor
    · rintro (rfl | ⟨n, rest, hsuffix, rfl⟩)
      · exact ⟨m, more, List.suffix_rfl, rfl⟩
      · exact ⟨n, rest, hsuffix.trans (List.suffix_cons m more), rfl⟩
    · rintro ⟨n, rest, hsuffix, rfl⟩
      rcases List.suffix_cons_iff.mp hsuffix with heq | hsuffix
      · cases heq
        exact .inl rfl
      · exact .inr ⟨n, rest, hsuffix, rfl⟩

theorem depth_of_mem_children {p c : Place} (hc : c ∈ p.children) : c.depth = p.depth + 1 := by
  obtain ⟨after, hspell⟩ := eq_child hc
  rw [hspell]
  rfl

theorem Within.depth_le {p q : Place} (h : Within p q) : p.depth ≤ q.depth := by
  induction h with
  | refl => exact Nat.le_refl _
  | child _ hc ih =>
    rw [depth_of_mem_children hc]
    omega

/-- A place lies within one place of each depth. -/
theorem Within.eq_of_depth {a b q : Place} (ha : Within a q) (hb : Within b q)
    (h : a.depth = b.depth) : a = b := by
  induction ha with
  | refl =>
    cases hb with
    | refl => rfl
    | child hb hc =>
      have hle := hb.depth_le
      rw [depth_of_mem_children hc] at h
      omega
  | child ha hc ih =>
    cases hb with
    | refl =>
      have hle := ha.depth_le
      rw [depth_of_mem_children hc] at h
      omega
    | child hb hc' =>
      -- The way up from a place is given with it.
      have hparent := (parent_of_mem_children hc).symm.trans (parent_of_mem_children hc')
      cases hparent
      exact ih hb

end Place

namespace Visit

mutual

theorem nodup_entered_walk (n : Node) (p : Place) : (entered (walk p n)).Nodup := by
  match n with
  | .mk kind start stop role named missing flagged children =>
    rw [entered_walk, List.nodup_cons]
    refine ⟨fun hmem => ?_, nodup_entered_walkAll children p⟩
    obtain ⟨c, hc, hw⟩ := (mem_entered_walkAll children p p).mp hmem
    obtain ⟨m, rest, -, rfl⟩ := Place.mem_childrenFrom.mp hc
    exact Nat.not_succ_le_self _ hw.depth_le

theorem nodup_entered_walkAll (ns : List Node) (p : Place) : (entered (walkAll p ns)).Nodup := by
  match ns with
  | [] => exact List.nodup_nil
  | n :: rest =>
    rw [entered_walkAll_cons, List.nodup_append]
    refine ⟨nodup_entered_walk n (.child n rest p), nodup_entered_walkAll rest p, ?_⟩
    rintro q hq _ hq' rfl
    have hfirst := (mem_entered_walk n (.child n rest p) q rfl).mp hq
    obtain ⟨c, hc, hlater⟩ := (mem_entered_walkAll rest p q).mp hq'
    obtain ⟨m, more, hsuffix, rfl⟩ := Place.mem_childrenFrom.mp hc
    cases hfirst.eq_of_depth hlater rfl
    have hlength := hsuffix.length_le
    rw [List.length_cons] at hlength
    omega

end

mutual

theorem perm_left_walk (n : Node) (p : Place) : (left (walk p n)).Perm (entered (walk p n)) := by
  match n with
  | .mk kind start stop role named missing flagged children =>
    rw [left_walk, entered_walk]
    exact List.perm_append_comm.trans ((perm_left_walkAll children p).cons p)

theorem perm_left_walkAll (ns : List Node) (p : Place) :
    (left (walkAll p ns)).Perm (entered (walkAll p ns)) := by
  match ns with
  | [] => exact .refl _
  | n :: rest =>
    rw [left_walkAll_cons, entered_walkAll_cons]
    exact (perm_left_walk n (.child n rest p)).append (perm_left_walkAll rest p)

end

end Visit

/-! ### Post-order -/

namespace Node

mutual
/-- The nodes of the tree in post-order. -/
def postorder : Node → List Node
  | n@(mk _ _ _ _ _ _ _ children) => postorderAll children ++ [n]

def postorderAll : List Node → List Node
  | [] => []
  | n :: rest => postorder n ++ postorderAll rest
end

end Node

mutual

theorem Visit.map_node_left_walk (n : Node) (p : Place) (hn : p.node = n) :
    (left (walk p n)).map Place.node = n.postorder := by
  match n with
  | .mk kind start stop role named missing flagged children =>
    rw [left_walk, List.map_append, Node.postorder, List.map_singleton, hn]
    exact congrArg (· ++ _) (map_node_left_walkAll children p)

theorem Visit.map_node_left_walkAll (ns : List Node) (p : Place) :
    (left (walkAll p ns)).map Place.node = Node.postorderAll ns := by
  match ns with
  | [] => rfl
  | n :: rest =>
    rw [left_walkAll_cons, List.map_append, Node.postorderAll]
    rw [map_node_left_walk n (.child n rest p) rfl, map_node_left_walkAll rest p]

end

/-- The places list every place of the tree once. -/
def Node.ListsOnce (root : Node) (places : List Place) : Prop :=
  places.Nodup ∧ ∀ p, p ∈ places ↔ (Place.root root).Within p

/-- The moves of the walk come to an end, and they are those of the recursion that enters a node,
goes through its children from left to right and leaves it. Every place is entered once, in
pre-order, and left once, in post-order. -/
theorem Node.walk_traverses (root : Node) :
    (∀ visits, (Visit.enter (.root root)).Runs visits ↔ visits = root.walk) ∧
      root.walk = Visit.walk (.root root) root ∧
      root.ListsOnce (Visit.entered root.walk) ∧
      (Visit.entered root.walk).map Place.node = root.preorder ∧
      root.ListsOnce (Visit.left root.walk) ∧
      (Visit.left root.walk).map Place.node = root.postorder := by
  have hmem := fun p => Visit.mem_entered_walk root (.root root) p rfl
  have hperm := Visit.perm_left_walk root (.root root)
  have hnodup := Visit.nodup_entered_walk root (.root root)
  refine ⟨fun visits => ?_, root.walk_eq, ?_⟩
  · rw [Visit.runs_iff, Node.walk, Visit.walkFrom_eq]
    rfl
  · rw [root.walk_eq]
    exact ⟨⟨hnodup, hmem⟩, Visit.map_node_walk root (.root root) rfl,
      ⟨hperm.nodup_iff.mpr hnodup, fun p => hperm.mem_iff.trans (hmem p)⟩,
      Visit.map_node_left_walk root (.root root) rfl⟩

end PropShear
