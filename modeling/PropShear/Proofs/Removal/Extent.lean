import PropShear.Proofs.Removal.Total
import PropShear.Removal.Extent

/-! How far a removal reaches, in terms of places.

A climb from a place stops at the statement around it (`enclosing_within`, `enclosing_top`) or at a
declarator (`climb?_reaches`), and the search below a declarator finds a tracked require exactly
if such a climb can start there (`holdsRequire_iff`). So a declarator that a climb stops at is
doomed, and a declaration that keeps a declarator always has one to give the gap to:
`ofDeclarator?_cases` says which bytes go. -/
namespace PropShear

/-- The node requires a tracked module. -/
def Node.Requires (source : List Char) (modules : List Specifier) (n : Node) : Prop :=
  ∃ m, Shape.requireOf? source modules n = .ok (some m)

namespace Place

/-- A tracked require stands at or below the place, with no container of statements between. -/
def Doomed (source : List Char) (modules : List Specifier) (d : Place) : Prop :=
  ∃ p, d.Reaches p ∧ p.node.Requires source modules

def declarators (q : Place) : List Place :=
  q.children.filter fun c => c.node.named && c.node.kind == .variableDeclarator

end Place

variable {source : List Char} {modules : List Specifier} {p q d : Place}

/-! ### Requires -/

theorem Node.Requires.kind {n : Node} (h : n.Requires source modules) :
    n.kind = .callExpression := by
  obtain ⟨m, h⟩ := h
  unfold Shape.requireOf? at h
  split at h
  · next hkind => exact hkind
  · cases h

/-- A call of `require` has a callee, so it is no leaf. -/
theorem Node.Requires.children_ne_nil {n : Node} (h : n.Requires source modules) :
    n.children ≠ [] := by
  intro hnil
  obtain ⟨m, h⟩ := h
  have hcallee : n.childIn .function = none := by rw [Node.childIn, hnil]; rfl
  unfold Shape.requireOf? at h
  split at h
  · simp only [Shape.requireModule?, hcallee] at h
    cases h
  · cases h

theorem Place.Reaches.named (h : d.Reaches p) (ht : d.node.Tiled source)
    (hp : p.node.children ≠ []) : d.node.named = true := by
  cases hnamed : d.node.named with
  | true => rfl
  | false =>
    have hleaf := ht.laid.leaf hnamed
    rcases Place.reaches_iff.mp h with rfl | ⟨c, hc, -, -⟩
    · exact absurd hleaf hp
    · rw [Place.children_eq_nil hleaf] at hc
      cases hc

theorem Place.doomed_iff : d.Doomed source modules ↔ d.node.Requires source modules ∨
    ∃ c ∈ d.children, c.node.kind.isContainer = false ∧ c.Doomed source modules := by
  constructor
  · rintro ⟨p, hr, hp⟩
    rcases reaches_iff.mp hr with rfl | ⟨c, hc, ho, hr⟩
    · exact .inl hp
    · exact .inr ⟨c, hc, ho, p, hr, hp⟩
  · rintro (h | ⟨c, hc, ho, p, hr, hp⟩)
    · exact ⟨d, .refl, h⟩
    · exact ⟨p, reaches_iff.mpr (.inr ⟨c, hc, ho, hr⟩), hp⟩

/-! ### The search below a node -/

namespace Extent

theorem holdsRequire_of_ok {n : Node} {found : Option Specifier}
    (h : Shape.requireOf? source modules n = .ok found) :
    holdsRequire source modules n =
      if found.isSome then .ok true else anyHoldsRequire source modules n.children := by
  cases n with
  | mk =>
    rw [holdsRequire, h]
    rfl

theorem anyHoldsRequire_cons_of_ok {n : Node} {rest : List Node} {b : Bool}
    (h : holdsRequire source modules n = .ok b) :
    anyHoldsRequire source modules (n :: rest) =
      if n.named && !n.kind.isContainer && b then .ok true
      else anyHoldsRequire source modules rest := by
  rw [anyHoldsRequire, h]
  cases n.named && !n.kind.isContainer <;> cases b <;> rfl

mutual

theorem holdsRequire_errs (n : Node) (ht : n.Tiled source) :
    Errs (Fault.IsOverflow source n) (holdsRequire source modules n) := by
  match n with
  | .mk kind start stop role named missing flagged children =>
    rw [holdsRequire]
    refine (requireOf?_errs modules ht).bind fun found _ => ?_
    split
    · exact .ok true
    · refine (anyHoldsRequire_errs children fun c hc => ht.child hc).mono fun e he => ?_
      obtain ⟨rfl, c, hc, hlarge⟩ := he
      exact ⟨rfl, hlarge.above (Node.mem_preorder_of_mem_children hc)⟩

theorem anyHoldsRequire_errs (ns : List Node) (ht : ∀ n ∈ ns, n.Tiled source) :
    Errs (fun e => e = .escapeTooLarge ∧ ∃ n ∈ ns, n.Overflows source)
      (anyHoldsRequire source modules ns) := by
  match ns with
  | [] => exact .ok false
  | n :: rest =>
    have hhead : Errs (fun e => e = .escapeTooLarge ∧ ∃ m ∈ n :: rest, m.Overflows source)
        (holdsRequire source modules n) :=
      (holdsRequire_errs n (ht n List.mem_cons_self)).mono fun _ he =>
        ⟨he.1, n, List.mem_cons_self, he.2⟩
    have htail : Errs (fun e => e = .escapeTooLarge ∧ ∃ m ∈ n :: rest, m.Overflows source)
        (anyHoldsRequire source modules rest) :=
      (anyHoldsRequire_errs rest fun c hc => ht c (List.mem_cons_of_mem n hc)).mono fun _ he =>
        ⟨he.1, he.2.imp fun m hm => ⟨List.mem_cons_of_mem n hm.1, hm.2⟩⟩
    rw [anyHoldsRequire]
    split
    · refine hhead.bind fun b _ => ?_
      split
      · exact .ok true
      · exact htail
    · exact htail

end

mutual

/-- The search below a node finds what the places below it hold, if it ends. -/
theorem holdsRequire_iff (n : Node) (d : Place) (hn : d.node = n) (ht : n.Tiled source) {b : Bool}
    (h : holdsRequire source modules n = .ok b) : b = true ↔ d.Doomed source modules := by
  match n with
  | .mk kind start stop role named missing flagged children =>
    have hchildren : d.children = d.childrenFrom children := by rw [Place.children, hn]; rfl
    cases hfound : Shape.requireOf? source modules
        (.mk kind start stop role named missing flagged children) with
    | error e =>
      rw [holdsRequire, hfound] at h
      cases h
    | ok found =>
      rw [holdsRequire_of_ok hfound, Node.children] at h
      rw [Place.doomed_iff, hn, hchildren, Node.Requires, hfound]
      cases found with
      | some m =>
        cases h
        simp
      | none =>
        rw [anyHoldsRequire_iff children d (fun c hc => ht.child hc) h]
        simp

theorem anyHoldsRequire_iff (ns : List Node) (p : Place) (ht : ∀ n ∈ ns, n.Tiled source) {b : Bool}
    (h : anyHoldsRequire source modules ns = .ok b) : b = true ↔ ∃ c ∈ p.childrenFrom ns,
      c.node.kind.isContainer = false ∧ c.Doomed source modules := by
  match ns with
  | [] =>
    cases h
    simp [Place.childrenFrom]
  | n :: rest =>
    have hn := ht n List.mem_cons_self
    have htail : ∀ {b}, anyHoldsRequire source modules rest = .ok b → (b = true ↔ _) := fun h =>
      anyHoldsRequire_iff rest p (fun c hc => ht c (List.mem_cons_of_mem n hc)) h
    -- an anonymous node is a leaf, so nothing is missed by not looking below it
    have hnamed : Place.Doomed source modules (.child n rest p) → n.named = true :=
      fun ⟨q, hr, hq⟩ => hr.named hn hq.children_ne_nil
    simp only [Place.childrenFrom, List.mem_cons, exists_eq_or_imp, Place.node_child]
    by_cases hlooks : n.named && !n.kind.isContainer
    · cases hheld : holdsRequire source modules n with
      | error e =>
        rw [anyHoldsRequire, if_pos hlooks, hheld] at h
        cases h
      | ok held =>
        have hhead := holdsRequire_iff n (.child n rest p) rfl hn hheld
        rw [anyHoldsRequire_cons_of_ok hheld, hlooks] at h
        cases held with
        | true =>
          cases h
          simp_all
        | false =>
          rw [htail h]
          simp_all
    · rw [anyHoldsRequire, if_neg hlooks] at h
      rw [htail h]
      simp only [Bool.and_eq_true, Bool.not_eq_true', not_and, Bool.not_eq_false] at hlooks
      constructor
      · exact .inr
      · rintro (⟨hopen, hdoomed⟩ | hrest)
        · rw [hlooks (hnamed hdoomed)] at hopen
          cases hopen
        · exact hrest

end

theorem doomed_iff_holdsRequire (wf : d.node.WellFormed source) :
    d.Doomed source modules ↔ holdsRequire source modules d.node = .ok true := by
  obtain ⟨b, hb⟩ := (holdsRequire_errs d.node wf.tiled).succeeds_of_wellFormed wf
  rw [← holdsRequire_iff d.node d rfl wf.tiled hb, hb, Except.ok.injEq]

/-! ### Climbs -/

theorem enclosing_child {c : Place} (hc : c ∈ p.children) :
    enclosing c = if p.node.kind.isContainer then c else enclosing p := by
  obtain ⟨after, hspell⟩ := Place.eq_child hc
  rw [hspell]
  rfl

/-- The place of the declarator around a place, below the next container of statements. -/
def climb? : Place → Option Place
  | .root _ => none
  | p@(.child n _ parent) =>
    if parent.node.kind.isContainer then none
    else if n.kind = .variableDeclarator ∧ parent.node.kind.isDeclaration then some p
    else climb? parent

theorem declarator?_eq (p : Place) : declarator? p =
    (climb? p).bind fun d => d.parent?.map fun q => (d.node, q.node) := by
  induction p with
  | root n => rfl
  | child n after parent ih =>
    rw [declarator?, climb?]
    split
    · rfl
    · split
      · rfl
      · exact ih

theorem climb?_child {c : Place} (hc : c ∈ p.children) :
    climb? c =
      if p.node.kind.isContainer then none
      else if c.node.kind = .variableDeclarator ∧ p.node.kind.isDeclaration then some c
      else climb? p := by
  obtain ⟨after, hspell⟩ := Place.eq_child hc
  rw [hspell]
  rfl

theorem enclosing_within {root : Node} (hp : (Place.root root).Within p) :
    (Place.root root).Within (enclosing p) ∧ (enclosing p).Within p := by
  induction hp with
  | refl => exact ⟨.refl, .refl⟩
  | child hs hc ih =>
    rw [enclosing_child hc]
    split
    · exact ⟨hs.child hc, .refl⟩
    · exact ⟨ih.1, ih.2.child hc⟩

/-- A climb ends at the root or right below a container of statements. -/
theorem enclosing_top {root : Node} (hp : (Place.root root).Within p) :
    enclosing p = .root root ∨ ∃ q, (Place.root root).Within q ∧
      q.node.kind.isContainer = true ∧ enclosing p ∈ q.children := by
  induction hp with
  | refl => exact .inl rfl
  | @child s c hs hc ih =>
    rw [enclosing_child hc]
    split
    · next hcontainer => exact .inr ⟨s, hs, hcontainer, hc⟩
    · exact ih

/-- Climbs from places that reach each other without a container between end alike. -/
theorem enclosing_of_reaches (h : d.Reaches p) (hd : d.node.kind.isContainer = false) :
    enclosing p = enclosing d := by
  induction h with
  | refl => rfl
  | child hr hc _ ih =>
    rw [enclosing_child hc, hr.isContainer hd]
    exact ih

theorem isContainer_of_isDeclaration {k : Kind} (h : k.isDeclaration = true) :
    k.isContainer = false := by
  cases k <;> first | rfl | cases h

/-- A climb that stops at a declarator has met no container of statements on its way. -/
theorem climb?_reaches {root : Node} (hp : (Place.root root).Within p)
    (ho : p.node.kind.isContainer = false) (h : climb? p = some d) :
    ∃ q, (Place.root root).Within q ∧ q.node.kind.isDeclaration = true ∧ d ∈ q.children ∧
      d.node.kind = .variableDeclarator ∧ d.Reaches p := by
  induction hp with
  | refl => cases h
  | @child s c hs hc ih =>
    rw [climb?_child hc] at h
    split at h
    · cases h
    · next hopen =>
      split at h
      · next hfound =>
        cases h
        exact ⟨s, hs, hfound.2, hc, hfound.1, .refl⟩
      · obtain ⟨q, hq, hdecl, hd, hkind, hr⟩ := ih (by simpa using hopen) h
        exact ⟨q, hq, hdecl, hd, hkind, hr.child hc ho⟩

theorem declarator?_of_climb? (hd : d ∈ q.children) (h : climb? p = some d) :
    declarator? p = some (d.node, q.node) := by
  rw [declarator?_eq, h, Option.bind_some, Place.parent_of_mem_children hd]
  rfl

theorem mem_declarators {c : Place} : c ∈ q.declarators ↔
    c ∈ q.children ∧ c.node.named = true ∧ c.node.kind = .variableDeclarator := by
  simp [Place.declarators, List.mem_filter]

/-! ### One of several declarators -/

/-- The bytes that go with a declarator of a list: the gap before it if a declarator before it
stays, else the gap after it. -/
inductive Cut (gone : Place → Prop) (ds : List Place) (d : Place) : Nat → Nat → Prop
  | gapBefore {i : Nat} {before : Place} (hbefore : ds[i]? = some before)
      (hd : ds[i + 1]? = some d) (stays : ∃ e ∈ ds.take (i + 1), ¬ gone e) :
    Cut gone ds d before.node.stop d.node.stop
  | gapAfter {i : Nat} {after : Place} (hd : ds[i]? = some d) (hafter : ds[i + 1]? = some after)
      (leading : ∀ e ∈ ds.take i, gone e) : Cut gone ds d d.node.start after.node.start

theorem map_node_declarators (q : Place) : q.declarators.map Place.node =
    q.node.namedChildren.filter (·.kind == .variableDeclarator) := by
  rw [Place.declarators, Node.namedChildren, ← Place.map_node_children, List.filter_map,
    List.filter_map, List.filter_filter]
  congr 1
  apply List.filter_congr
  intro c _
  simp [Bool.and_comm]

theorem declarators_pairwise (ht : q.node.Tiled source) :
    q.declarators.Pairwise fun a b => a.node.stop ≤ b.node.start := by
  have h := ht.laid.apart
  rw [← Place.map_node_children, List.pairwise_map] at h
  exact h.filter _

theorem declarator_nonempty (ht : q.node.Tiled source) (hd : d ∈ q.declarators) :
    d.node.start < d.node.stop := by
  obtain ⟨hc, -, hkind⟩ := mem_declarators.mp hd
  exact (ht.child (Place.node_mem_children hc)).laid.declares hkind

theorem declarators_lt {e : Place} {i j : Nat} (ht : q.node.Tiled source)
    (hd : q.declarators[i]? = some d) (he : q.declarators[j]? = some e) (hij : i < j) :
    d.node.stop ≤ e.node.start := by
  obtain ⟨hi, rfl⟩ := List.getElem?_eq_some_iff.mp hd
  obtain ⟨hj, rfl⟩ := List.getElem?_eq_some_iff.mp he
  exact List.pairwise_iff_getElem.mp (declarators_pairwise ht) i j hi hj hij

theorem declarators_le {e : Place} {i j : Nat} (ht : q.node.Tiled source)
    (hd : q.declarators[i]? = some d) (he : q.declarators[j]? = some e) (hij : i ≤ j) :
    d.node.start ≤ e.node.start ∧ d.node.stop ≤ e.node.stop := by
  have hdne := declarator_nonempty ht (List.mem_of_getElem? hd)
  have hene := declarator_nonempty ht (List.mem_of_getElem? he)
  rcases Nat.lt_or_eq_of_le hij with hlt | rfl
  · have := declarators_lt ht hd he hlt
    omega
  · rw [hd] at he
    cases he
    exact ⟨Nat.le_refl _, Nat.le_refl _⟩

theorem declarators_index {i j : Nat} (ht : q.node.Tiled source)
    (hi : q.declarators[i]? = some d) (hj : q.declarators[j]? = some d) : i = j := by
  have hne := declarator_nonempty ht (List.mem_of_getElem? hi)
  rcases Nat.lt_trichotomy i j with hlt | heq | hlt
  · have := declarators_lt ht hi hj hlt
    omega
  · exact heq
  · have := declarators_lt ht hj hi hlt
    omega

theorem mem_take_iff {ds : List Place} {e : Place} {i : Nat} :
    e ∈ ds.take i ↔ ∃ j, j < i ∧ ds[j]? = some e := by
  constructor
  · intro he
    obtain ⟨j, hj, rfl⟩ := List.mem_take_iff_getElem.mp he
    exact ⟨j, by omega, List.getElem?_eq_getElem (by omega)⟩
  · rintro ⟨j, hj, he⟩
    obtain ⟨hlt, rfl⟩ := List.getElem?_eq_some_iff.mp he
    exact List.mem_take_iff_getElem.mpr ⟨j, by omega, rfl⟩

/-- No two declarators start at the same byte, so the start tells which one it is. -/
theorem findIdx?_declarators (ht : q.node.Tiled source) {i : Nat}
    (hi : q.declarators[i]? = some d) :
    (q.declarators.map Place.node).findIdx? (·.start == d.node.start) = some i := by
  obtain ⟨hlt, rfl⟩ := List.getElem?_eq_some_iff.mp hi
  rw [List.findIdx?_eq_some_iff_getElem]
  refine ⟨by simpa using hlt, by simp, fun j hj => ?_⟩
  have hjlt : j < q.declarators.length := Nat.lt_trans hj hlt
  have hapart := List.pairwise_iff_getElem.mp (declarators_pairwise ht) j i hjlt hlt hj
  have hnonempty := declarator_nonempty ht (List.getElem_mem hjlt)
  simp only [List.getElem_map, beq_iff_eq]
  omega

open scoped Classical in
theorem any_not_take (gone : Place → Prop) (ds : List Place) (i : Nat) :
    ((ds.map fun e => decide (gone e)).take i).any not = true ↔ ∃ e ∈ ds.take i, ¬ gone e := by
  rw [← List.map_take, List.any_map, List.any_eq_true]
  simp

/-- What stays comes after a doomed declarator before which nothing stays. -/
theorem lt_of_stays {gone : Place → Prop} {ds : List Place} {e : Place} {i j : Nat}
    (hd : ds[i]? = some d) (hgone : gone d) (leading : ∀ e ∈ ds.take i, gone e)
    (he : ds[j]? = some e) (hstays : ¬ gone e) : i < j := by
  rcases Nat.lt_trichotomy i j with hlt | rfl | hlt
  · exact hlt
  · rw [hd] at he
    cases he
    exact absurd hgone hstays
  · exact absurd (leading e (mem_take_iff.mpr ⟨j, hlt, he⟩)) hstays

theorem next_of_leading {gone : Place → Prop} {ds : List Place} {i : Nat} (hd : ds[i]? = some d)
    (hgone : gone d) (leading : ∀ e ∈ ds.take i, gone e) (stays : ∃ e ∈ ds, ¬ gone e) :
    ∃ after, ds[i + 1]? = some after := by
  obtain ⟨e, he, hstays⟩ := stays
  obtain ⟨j, hj⟩ := List.getElem?_of_mem he
  have hij := lt_of_stays hd hgone leading hj hstays
  have hlength := (List.getElem?_eq_some_iff.mp hj).1
  exact ⟨ds[i + 1], List.getElem?_eq_getElem (by omega)⟩

open scoped Classical in
/-- A doomed declarator of a declaration that keeps another one takes one gap with it. -/
theorem amongDeclarators_cut (ht : q.node.Tiled source) (hd : d ∈ q.declarators)
    (hdoomed : d.Doomed source modules)
    (stays : ∃ e ∈ q.declarators, ¬ e.Doomed source modules) :
    ∃ start stop, Cut (Place.Doomed source modules) q.declarators d start stop ∧
      amongDeclarators (q.declarators.map Place.node)
        (q.declarators.map fun e => decide (e.Doomed source modules)) d.node =
          .ok (start, stop) := by
  obtain ⟨i, hi⟩ := List.getElem?_of_mem hd
  have hlt : i < q.declarators.length := (List.getElem?_eq_some_iff.mp hi).1
  unfold amongDeclarators
  rw [findIdx?_declarators ht hi]
  by_cases hbefore : ∃ e ∈ q.declarators.take i, ¬ e.Doomed source modules
  · cases i with
    | zero => simp at hbefore
    | succ k =>
      have hk : q.declarators[k]? = some q.declarators[k] := List.getElem?_eq_getElem (by omega)
      refine ⟨_, _, .gapBefore hk hi hbefore, ?_⟩
      simp only [(any_not_take _ _ _).mpr hbefore, if_true, Nat.add_sub_cancel, List.getElem?_map,
        hk, Option.map_some]
  · have leading : ∀ e ∈ q.declarators.take i, e.Doomed source modules :=
      fun e he => Classical.not_not.mp fun hne => hbefore ⟨e, he, hne⟩
    obtain ⟨after, hafter⟩ := next_of_leading hi hdoomed leading stays
    refine ⟨_, _, .gapAfter hi hafter leading, ?_⟩
    simp only [mt (any_not_take _ _ _).mp hbefore, Bool.false_eq_true, if_false,
      List.getElem?_map, hafter, Option.map_some]

open scoped Classical in
/-- A climb that stops at a doomed declarator takes that declarator with one gap, unless all
declarators of the declaration are doomed, or it fails at an escape in the declaration. -/
theorem ofDeclarator?_cases (ht : q.node.Tiled source) (hd : d ∈ q.declarators)
    (hdoomed : d.Doomed source modules) (h : declarator? p = some (d.node, q.node)) :
    ((∀ e ∈ q.declarators, e.Doomed source modules) ∧
        ofDeclarator? source modules p = .ok none) ∨
      ((∃ e ∈ q.declarators, ¬ e.Doomed source modules) ∧
        ∃ start stop, Cut (Place.Doomed source modules) q.declarators d start stop ∧
          ofDeclarator? source modules p = .ok (some (start, stop))) ∨
      ∃ e, ofDeclarator? source modules p = .error e ∧ Fault.IsOverflow source q.node e := by
  have hmem : ∀ e ∈ q.declarators, e.node ∈ q.node.children := fun e he =>
    Place.node_mem_children (mem_declarators.mp he).1
  cases hflags : (q.declarators.map Place.node).mapM (holdsRequire source modules) with
  | error e =>
    refine .inr (.inr ⟨e, ?_, ?_⟩)
    · unfold ofDeclarator?
      rw [h]
      simp only [← map_node_declarators q]
      rw [hflags]
      rfl
    · refine Errs.mapM (fun n hn => ?_) e hflags
      obtain ⟨c, hc, rfl⟩ := List.mem_map.mp hn
      exact (holdsRequire_errs c.node (ht.child (hmem c hc))).above
        (Node.mem_preorder_of_mem_children (hmem c hc))
  | ok flags => ?_
  obtain rfl : flags = q.declarators.map fun e => decide (e.Doomed source modules) := by
    have hmap := map_of_mapM hflags
    rw [← List.map_inj_right (f := Except.ok) fun _ _ => Except.ok.inj, ← hmap, List.map_map,
      List.map_map]
    refine List.map_congr_left fun e he => ?_
    have hmemFlags : holdsRequire source modules e.node ∈ flags.map Except.ok :=
      hmap ▸ List.mem_map_of_mem (List.mem_map_of_mem he)
    obtain ⟨b, -, hb⟩ := List.mem_map.mp hmemFlags
    have hiff := holdsRequire_iff e.node e rfl (ht.child (hmem e he)) hb.symm
    show holdsRequire source modules e.node = .ok (decide (e.Doomed source modules))
    rw [← hb, Bool.eq_iff_iff.mpr (hiff.trans decide_eq_true_iff.symm)]
  have hstep : ofDeclarator? source modules p =
      if (q.declarators.map Place.node).length < 2 ||
          (q.declarators.map fun e => decide (e.Doomed source modules)).all id then .ok none
      else amongDeclarators (q.declarators.map Place.node)
        (q.declarators.map fun e => decide (e.Doomed source modules)) d.node >>=
          fun span => .ok (some span) := by
    unfold ofDeclarator?
    rw [h]
    simp only [← map_node_declarators q]
    rw [hflags]
    rfl
  by_cases hall : ∀ e ∈ q.declarators, e.Doomed source modules
  · refine .inl ⟨hall, ?_⟩
    rw [hstep, if_pos]
    simp only [Bool.or_eq_true, List.all_map, List.all_eq_true]
    exact .inr fun e he => by simpa using hall e he
  · have stays : ∃ e ∈ q.declarators, ¬ e.Doomed source modules := by simpa using hall
    obtain ⟨start, stop, hcut, hamong⟩ := amongDeclarators_cut ht hd hdoomed stays
    refine .inr (.inl ⟨stays, start, stop, hcut, ?_⟩)
    have hlength : ¬ q.declarators.length < 2 := by
      obtain ⟨e, he, hstays⟩ := stays
      obtain ⟨i, hi, rfl⟩ := List.getElem_of_mem hd
      obtain ⟨j, hj, rfl⟩ := List.getElem_of_mem he
      intro hlt
      have hij : i = j := by omega
      subst hij
      exact hstays hdoomed
    rw [hstep, if_neg, hamong]
    · rfl
    · simp only [List.length_map, Bool.or_eq_true, decide_eq_true_eq, List.all_map,
        List.all_eq_true]
      rintro (hlt | hdoomed)
      · exact hlength hlt
      · exact hall fun e he => by simpa using hdoomed e he

end Extent
end PropShear
