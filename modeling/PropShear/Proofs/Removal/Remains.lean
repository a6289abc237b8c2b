import PropShear.Proofs.Removal.Mirror
import PropShear.Proofs.Removal.Nesting
import PropShear.Proofs.Splice

/-! What remains of a tree when removals are cut out of its text.

`remains` compares the trees of the text before and after: single statements and declarators that
lie in a removal are missing, all else is still there, and leaves have moved with the text. Every
removal belongs to a place that may lose children and cuts none of them (`Spans.owner`). So what
stays has no match in it (`Stays.not_asks`), leaves that stay are apart from all removals
(`Stays.apart`), and what remains mirrors what stays (`mirrors_left`). -/
namespace PropShear

variable {source : List Char} {modules : List Specifier} {removals : List Removal} {root : Node}
  {p c o s : Place} {start stop : Nat}

namespace Removal

/-- The whole node lies in one of the removals. -/
def takesNode (removals : List Removal) (n : Node) : Bool :=
  removals.any fun r => r.start ≤ n.start && n.stop ≤ r.stop

mutual

/-- The second tree is what remains of the first one, whatever the extents of nodes with
children. -/
def remains (removals : List Removal) : Node → Node → Bool
  | .mk kind start stop role named _ _ children, m =>
    m.kind == kind && m.role == role && m.named == named &&
      (!children.isEmpty || m.start == Text.moved (gone removals) start &&
        m.stop == Text.moved (gone removals) stop) &&
      allRemain removals kind.sheds children m.children

/-- The same of the children of a node, some of which may be lost. -/
def allRemain (removals : List Removal) (sheds : Bool) : List Node → List Node → Bool
  | [], left => left.isEmpty
  | n :: rest, left =>
    if sheds && takesNode removals n then allRemain removals sheds rest left
    else left.head?.any (remains removals n) && allRemain removals sheds rest left.tail

end

/-- The place is not lost, nor is a place above it. -/
inductive Stays (removals : List Removal) (root : Node) : Place → Prop
  | root : Stays removals root (.root root)
  | child {p c : Place} (h : Stays removals root p) (hc : c ∈ p.children)
      (kept : (p.node.kind.sheds && takesNode removals c.node) = false) : Stays removals root c

/-! ### Places that stay -/

theorem takesNode_of_mem {r : Removal} {n : Node} (hr : r ∈ removals) (hstart : r.start ≤ n.start)
    (hstop : n.stop ≤ r.stop) : takesNode removals n = true :=
  List.any_eq_true.mpr ⟨r, hr, by simp [hstart, hstop]⟩

theorem Stays.within (h : Stays removals root p) : (Place.root root).Within p := by
  induction h with
  | root => exact .refl
  | child _ hc _ ih => exact ih.child hc

theorem Stays.parent (h : Stays removals root c) (hc : c ∈ p.children) :
    Stays removals root p ∧ (p.node.kind.sheds && takesNode removals c.node) = false := by
  have hparent := Place.parent_of_mem_children hc
  cases h with
  | root => cases hparent
  | child h hc' kept =>
    rw [Place.parent_of_mem_children hc'] at hparent
    cases hparent
    exact ⟨h, kept⟩

theorem Stays.above (h : Stays removals root p) (hw : s.Within p) : Stays removals root s := by
  induction hw with
  | refl => exact h
  | child _ hc ih => exact ih (h.parent hc).1

/-- A child that a removal takes is lost where children can be lost. -/
theorem Stays.not_taken (h : Stays removals root p) (hs : s ∈ o.children) (hw : s.Within p)
    (hsheds : o.node.kind.sheds = true) {r : Removal} (hr : r ∈ removals)
    (hstart : r.start ≤ s.node.start) (hstop : s.node.stop ≤ r.stop) : False := by
  have hkept := ((h.above hw).parent hs).2
  rw [hsheds, takesNode_of_mem hr hstart hstop] at hkept
  cases hkept

end Removal

/-! ### Removals and what stays -/

/-- A match below the root belongs to a place that may lose children. What it takes cuts none of
them and holds the one around the match. -/
theorem Extent.Spans.owner (h : Spans source modules root p start stop)
    (wf : root.WellFormed source) (hroot : root.kind.isContainer = true)
    (hp : (Place.root root).Within p) (hne : p ≠ .root root) :
    ∃ o s, (Place.root root).Within o ∧ o.node.kind.sheds = true ∧ Respects o start stop ∧
      s ∈ o.children ∧ s.Within p ∧ start ≤ s.node.start ∧ s.node.stop ≤ stop := by
  cases h with
  | whole =>
    rcases hp.eq_or_child with rfl | ⟨s, hs, hw⟩
    · exact absurd rfl hne
    have hinside : ∀ c ∈ (Place.root root).children,
        root.start ≤ c.node.start ∧ c.node.stop ≤ root.stop :=
      fun c hc => wf.sound.inside c.node (Place.node_mem_children hc)
    refine ⟨.root root, s, .refl, ?_, ⟨Nat.le_refl _, Nat.le_refl _, ?_⟩, hs, hw, hinside s hs⟩
    · rw [Place.node_root, Kind.sheds, hroot, Bool.true_or]
    · exact fun c hc => .inr (.inr (hinside c hc))
  | @statement o s ho hcontainer hs hw =>
    have wfo : o.node.WellFormed source := ho.wellFormed wf
    refine ⟨o, s, ho, ?_, statement_respects wfo hs, hs, hw, Nat.le_refl _,
      (statement_bounds wfo.tiled hs).1⟩
    rw [Kind.sheds, hcontainer, Bool.true_or]
  | @declarator q d _ _ hq hdecl hd hr _ cut =>
    have wfq : q.node.WellFormed source := hq.wellFormed wf
    obtain ⟨hstart, hstop, -⟩ := cut.bounds wfq.tiled
    refine ⟨q, d, hq, ?_, cut.respects wfq, (mem_declarators.mp hd).1, hr.within, hstart, hstop⟩
    rw [Kind.sheds, hdecl, Bool.or_true]

namespace Removal

theorem Asks.isContainer {n : Node} {reason : Reason} {module? : Option Specifier}
    (h : Asks source modules n reason module?) : n.kind.isContainer = false := by
  cases h with
  | imported h => rw [importOf?_kind h]; rfl
  | required h => rw [Node.Requires.kind ⟨_, h⟩]; rfl
  | assigned h => rw [assigns_kind h]; rfl

/-- Every removal has an owner. -/
theorem find_owner (wf : root.WellFormed source) (hroot : root.kind.isContainer = true)
    (hfind : find source modules root = .ok removals) {r : Removal}
    (hp : (Place.root root).Within p) (hat : at? source modules p = .ok (some r)) :
    r ∈ removals ∧ ∃ o s, (Place.root root).Within o ∧ o.node.kind.sheds = true ∧
      Extent.Respects o r.start r.stop ∧ s ∈ o.children ∧ s.Within p ∧
      r.start ≤ s.node.start ∧ s.node.stop ≤ r.stop := by
  refine ⟨(mem_find hfind).mpr ⟨p, hp, hat⟩, ?_⟩
  rcases at?_cases wf hp with ⟨r', hat', hasks, hspans⟩ | ⟨hat', -⟩
  · rw [hat'] at hat
    cases hat
    refine hspans.owner wf hroot hp ?_
    rintro rfl
    rw [Place.node_root] at hasks
    rw [hasks.isContainer] at hroot
    cases hroot
  · rw [hat'] at hat
    cases hat

/-- What stays has none of the three shapes. -/
theorem Stays.not_asks (h : Stays removals root p) (wf : root.WellFormed source)
    (hroot : root.kind.isContainer = true) (hfind : find source modules root = .ok removals)
    (reason : Reason) (module? : Option Specifier) : ¬ Asks source modules p.node reason module? := by
  intro hasks
  rcases at?_cases wf h.within with ⟨r, hat, -⟩ | ⟨-, hnone⟩
  · obtain ⟨hr, o, s, -, hsheds, -, hs, hw, hstart, hstop⟩ :=
      find_owner wf hroot hfind h.within hat
    exact h.not_taken hs hw hsheds hr hstart hstop
  · exact hnone reason module? hasks

/-- A leaf that stays lies before or after each removal. -/
theorem Stays.apart (h : Stays removals root p) (wf : root.WellFormed source)
    (hroot : root.kind.isContainer = true) (hfind : find source modules root = .ok removals)
    (hleaf : p.node.children = []) {r : Removal} (hr : r ∈ removals) :
    p.node.stop ≤ r.start ∨ r.stop ≤ p.node.start := by
  obtain ⟨q, hq, hat⟩ := (mem_find hfind).mp hr
  obtain ⟨-, o, s, ho, hsheds, hrespects, hs, -⟩ := find_owner wf hroot hfind hq hat
  have hnone : p.children = [] := Place.children_eq_nil hleaf
  have := hrespects.starts
  have := hrespects.stops
  rcases Place.nested_or_apart wf.tiled h.within ho with rfl | ⟨c, hc, -⟩ | ⟨c, hc, hw⟩ | hap | hap
  · rw [hnone] at hs
    cases hs
  · rw [hnone] at hc
    cases hc
  · have hinside := hw.inside ((ho.tiled wf.tiled).child (Place.node_mem_children hc))
    rcases hrespects.children c hc with hbefore | hafter | hin
    · exact .inl (by omega)
    · exact .inr (by omega)
    · exact (h.not_taken hc hw hsheds hr hin.1 hin.2).elim
  · exact .inl (by omega)
  · exact .inr (by omega)

/-! ### The two trees -/

theorem remains_iff {n m : Node} : remains removals n m = true ↔
    m.kind = n.kind ∧ m.role = n.role ∧ m.named = n.named ∧
      (n.children = [] → m.start = Text.moved (gone removals) n.start ∧
        m.stop = Text.moved (gone removals) n.stop) ∧
      allRemain removals n.kind.sheds n.children m.children = true := by
  cases n with
  | mk kind start stop role named missing flagged children =>
    cases children with
    | nil => simp [remains, Node.kind, Node.role, Node.named, Node.children, Node.start, Node.stop,
        and_assoc]
    | cons => simp [remains, Node.kind, Node.role, Node.named, Node.children, and_assoc]

/-- Each remaining child is what remains of a child that is not lost. -/
theorem allRemain_mem {sheds : Bool} {ns ms : List Node} {m : Node}
    (h : allRemain removals sheds ns ms = true) (hm : m ∈ ms) :
    ∃ n ∈ ns, (sheds && takesNode removals n) = false ∧ remains removals n m = true := by
  induction ns generalizing ms with
  | nil =>
    rw [allRemain, List.isEmpty_iff] at h
    rw [h] at hm
    cases hm
  | cons n rest ih =>
    rw [allRemain] at h
    split at h
    · obtain ⟨n', hn', hleft⟩ := ih h hm
      exact ⟨n', List.mem_cons_of_mem _ hn', hleft⟩
    · next hkept =>
      cases ms with
      | nil => cases h
      | cons m' left =>
        rw [Bool.and_eq_true] at h
        rcases List.mem_cons.mp hm with rfl | hm
        · exact ⟨n, List.mem_cons_self, Bool.eq_false_iff.mpr hkept, h.1⟩
        · obtain ⟨n', hn', hleft⟩ := ih h.2 hm
          exact ⟨n', List.mem_cons_of_mem _ hn', hleft⟩

/-- Where no child can be lost, they remain one by one. -/
theorem allRemain_forall₂ {ns ms : List Node} (h : allRemain removals false ns ms = true) :
    List.Forall₂ (fun n m => remains removals n m = true) ns ms := by
  induction ns generalizing ms with
  | nil =>
    rw [allRemain, List.isEmpty_iff] at h
    rw [h]
    exact .nil
  | cons n rest ih =>
    rw [allRemain, Bool.false_and, if_neg Bool.false_ne_true] at h
    cases ms with
    | nil => cases h
    | cons m left =>
      rw [Bool.and_eq_true] at h
      exact .cons h.1 (ih h.2)

/-- The first node stays, and the second one is what remains of it. -/
def Left (removals : List Removal) (root n m : Node) : Prop :=
  ∃ p, Stays removals root p ∧ p.node = n ∧ remains removals n m = true

/-- All of the second tree is left from the first one. -/
theorem left_of_within {root' : Node} {p' : Place} (h : remains removals root root' = true)
    (hp' : (Place.root root').Within p') : ∃ n, Left removals root n p'.node := by
  induction hp' with
  | refl => exact ⟨root, .root root, .root, rfl, h⟩
  | child _ hc ih =>
    obtain ⟨_, q, hq, rfl, hremains⟩ := ih
    obtain ⟨-, -, -, -, hchildren⟩ := remains_iff.mp hremains
    obtain ⟨n, hn, hkept, hleft⟩ := allRemain_mem hchildren (Place.node_mem_children hc)
    rw [← Place.map_node_children] at hn
    obtain ⟨c, hc, rfl⟩ := List.mem_map.mp hn
    exact ⟨c.node, c, hq.child hc hkept, rfl, hleft⟩

/-- A leaf that stays spells the same where it has moved. -/
theorem Stays.text_eq {spans : List Span} (h : Stays removals root p) (wf : root.WellFormed source)
    (hroot : root.kind.isContainer = true) (hfind : find source modules root = .ok removals)
    (hcovers : ∀ i, Span.covers spans i = true ↔ Takes source removals i)
    (hleaf : p.node.children = []) :
    Text.slice? (Editor.keptFrom spans 0 source) (Text.moved (gone removals) p.node.start)
      (Text.moved (gone removals) p.node.stop) = p.node.text? source := by
  have hsound := (h.within.wellFormed wf).sound
  obtain ⟨i, hi, hstart⟩ := hsound.starts
  obtain ⟨k, hk, hstop⟩ := hsound.stops
  have hik : i ≤ k := by
    have := hsound.ordered
    rwa [← hstart, ← hstop, Text.byteOffset_le_iff source hi] at this
  have hfate := sharesFate (fun r hr => find_fits wf.tiled hfind hr) hcovers
  have hfree : ∀ j, i ≤ j → j < k → Span.covers spans j = false := by
    intro j hij hjk
    rw [Bool.eq_false_iff, ne_eq, hcovers]
    rintro ⟨hj, r, hr, hrstart, hrstop⟩
    have hwidth : Text.byteOffset source j < Text.byteOffset source (j + 1) :=
      Text.byteOffset_lt source (Nat.lt_succ_self j) hj
    have hfirst := Text.byteOffset_mono source hij
    have hlast := Text.byteOffset_mono source (i := j + 1) hjk
    rcases h.apart wf hroot hfind hleaf hr with hbefore | hafter <;> omega
  rw [← hstart, ← hstop, hfate.slice?_eq hik hk hfree, Node.text?, ← hstart, ← hstop]

/-- What remains mirrors what stays. -/
theorem mirrors_left {spans : List Span} (wf : root.WellFormed source)
    (hroot : root.kind.isContainer = true) (plain : ∀ n ∈ root.preorder, n.Plain)
    (hfind : find source modules root = .ok removals)
    (hcovers : ∀ i, Span.covers spans i = true ↔ Takes source removals i) :
    Mirrors source (Editor.keptFrom spans 0 source) (Left removals root) where
  kind := fun ⟨_, _, _, hremains⟩ => (remains_iff.mp hremains).1
  role := fun ⟨_, _, _, hremains⟩ => (remains_iff.mp hremains).2.1
  named := fun ⟨_, _, _, hremains⟩ => (remains_iff.mp hremains).2.2.1
  plain := by
    rintro _ _ ⟨p, hp, rfl, -⟩
    exact plain p.node hp.within.node_mem_preorder
  text := by
    rintro _ m ⟨p, hp, rfl, hremains⟩ hleaf
    obtain ⟨-, -, -, hmoved, -⟩ := remains_iff.mp hremains
    obtain ⟨hstart, hstop⟩ := hmoved hleaf
    rw [Node.text?, hstart, hstop, hp.text_eq wf hroot hfind hcovers hleaf]
  children := by
    rintro _ m ⟨p, hp, rfl, hremains⟩ hsheds
    obtain ⟨-, -, -, -, hchildren⟩ := remains_iff.mp hremains
    rw [hsheds] at hchildren
    have hall := allRemain_forall₂ hchildren
    rw [← Place.map_node_children, List.forall₂_map_left_iff] at hall ⊢
    rw [List.forall₂_iff_zip] at hall ⊢
    refine ⟨hall.1, fun {c d} hcd => ⟨c, hp.child (List.of_mem_zip hcd).1 ?_, rfl, hall.2 hcd⟩⟩
    rw [hsheds, Bool.false_and]

end Removal
end PropShear
