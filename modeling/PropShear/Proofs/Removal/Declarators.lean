import PropShear.Proofs.Removal.Asked

/-! Several requires in one declaration.

Each require below a declarator picks its own bytes, by looking at the declarators before its own.
Taken together they are what one would expect (`Cut.erased`, `Erased.exists_cut`): from the first
declarator to the last, what stays are the declarators without a require and one gap between any two
of them that follow each other (`erased_between`). If no declarator stays, the whole statement
goes. -/
namespace PropShear

variable {source : List Char} {modules : List Specifier} {root : Node} {p q d e : Place}
  {start stop i j b : Nat}

namespace Extent

/-- A declarator takes one range of bytes. -/
theorem Cut.unique {gone : Place → Prop} {start' stop' : Nat} (wf : q.node.WellFormed source)
    (h : Cut gone q.declarators d start stop) (h' : Cut gone q.declarators d start' stop') :
    start = start' ∧ stop = stop' := by
  cases h with
  | gapBefore hbefore hd stays =>
    obtain ⟨e, he, hstays⟩ := stays
    cases h' with
    | gapBefore hbefore' hd' _ =>
      cases declarators_index wf.tiled hd hd'
      rw [hbefore] at hbefore'
      cases hbefore'
      exact ⟨rfl, rfl⟩
    | gapAfter hd' _ leading =>
      cases declarators_index wf.tiled hd hd'
      exact absurd (leading e he) hstays
  | gapAfter hd hafter leading =>
    cases h' with
    | gapBefore _ hd' stays =>
      obtain ⟨e, he, hstays⟩ := stays
      cases declarators_index wf.tiled hd hd'
      exact absurd (leading e he) hstays
    | gapAfter hd' hafter' _ =>
      cases declarators_index wf.tiled hd hd'
      rw [hafter] at hafter'
      cases hafter'
      exact ⟨rfl, rfl⟩

/-! ### What goes in all -/

/-- The bytes from the first declarator of a list to the last, without the declarators that stay
and without the gap before each of these except the first. -/
structure Erased (gone : Place → Prop) (ds : List Place) (b : Nat) : Prop where
  starts : ∃ first ∈ ds.head?, first.node.start ≤ b
  stops : ∃ last ∈ ds.getLast?, b < last.node.stop
  declarator : ∀ d ∈ ds, ¬ gone d → ¬ (d.node.start ≤ b ∧ b < d.node.stop)
  gap : ∀ i before d, ds[i]? = some before → ds[i + 1]? = some d → ¬ gone d →
    (∃ e ∈ ds.take (i + 1), ¬ gone e) → ¬ (before.node.stop ≤ b ∧ b < d.node.start)

theorem starts_of_getElem? (wf : q.node.WellFormed source) (hd : q.declarators[i]? = some d)
    (hb : d.node.start ≤ b) : ∃ first ∈ q.declarators.head?, first.node.start ≤ b := by
  have hlt := (List.getElem?_eq_some_iff.mp hd).1
  have hfirst : q.declarators[0]? = some q.declarators[0] := List.getElem?_eq_getElem (by omega)
  have hle := declarators_le wf.tiled hfirst hd (Nat.zero_le _)
  exact ⟨_, by rw [List.head?_eq_getElem?]; exact hfirst, Nat.le_trans hle.1 hb⟩

theorem stops_of_getElem? (wf : q.node.WellFormed source) (hd : q.declarators[i]? = some d)
    (hb : b < d.node.stop) : ∃ last ∈ q.declarators.getLast?, b < last.node.stop := by
  have hlt := (List.getElem?_eq_some_iff.mp hd).1
  have hlast : q.declarators[q.declarators.length - 1]? =
      some q.declarators[q.declarators.length - 1] := List.getElem?_eq_getElem (by omega)
  have hle := declarators_le wf.tiled hd hlast (by omega)
  exact ⟨_, by rw [List.getLast?_eq_getElem?]; exact hlast, Nat.lt_of_lt_of_le hb hle.2⟩

/-- What a doomed declarator takes hurts nothing that has to stay. -/
theorem Cut.erased {gone : Place → Prop} (wf : q.node.WellFormed source)
    (cut : Cut gone q.declarators d start stop) (hgone : gone d) (hstart : start ≤ b)
    (hstop : b < stop) : Erased gone q.declarators b := by
  cases cut with
  | @gapBefore i before hbefore hd stays =>
    have hbne := declarator_nonempty wf.tiled (List.mem_of_getElem? hbefore)
    refine ⟨starts_of_getElem? wf hbefore (by omega), stops_of_getElem? wf hd hstop, ?_, ?_⟩
    · rintro e he hstays ⟨hes, het⟩
      obtain ⟨j, hj⟩ := List.getElem?_of_mem he
      rcases Nat.lt_trichotomy j (i + 1) with hlt | rfl | hlt
      · have := declarators_le wf.tiled hj hbefore (by omega)
        omega
      · rw [hd] at hj
        cases hj
        exact hstays hgone
      · have := declarators_lt wf.tiled hd hj hlt
        omega
    · rintro j before' e hbefore' he hstays - ⟨hes, het⟩
      rcases Nat.lt_trichotomy j i with hlt | rfl | hlt
      · have := declarators_le wf.tiled he hbefore (by omega)
        omega
      · rw [hd] at he
        cases he
        exact hstays hgone
      · have := declarators_le wf.tiled hd hbefore' (by omega)
        omega
  | @gapAfter i after hd hafter leading =>
    have hane := declarator_nonempty wf.tiled (List.mem_of_getElem? hafter)
    refine ⟨starts_of_getElem? wf hd hstart, stops_of_getElem? wf hafter (by omega), ?_, ?_⟩
    · rintro e he hstays ⟨hes, het⟩
      obtain ⟨j, hj⟩ := List.getElem?_of_mem he
      have := declarators_le wf.tiled hafter hj (lt_of_stays hd hgone leading hj hstays)
      omega
    · rintro j before' e hbefore' - - ⟨f, hf, hfstays⟩ ⟨hes, het⟩
      obtain ⟨k, hk, hfk⟩ := mem_take_iff.mp hf
      have hik := lt_of_stays hd hgone leading hfk hfstays
      have := declarators_le wf.tiled hafter hbefore' (by omega)
      omega

/-- The last place of a list that starts at or before a byte. -/
theorem exists_last_start {ds : List Place} (h : ∃ first ∈ ds.head?, first.node.start ≤ b) :
    ∃ i d, ds[i]? = some d ∧ d.node.start ≤ b ∧
      ∀ next, ds[i + 1]? = some next → b < next.node.start := by
  induction ds with
  | nil => simp at h
  | cons d rest ih =>
    by_cases hrest : ∃ first ∈ rest.head?, first.node.start ≤ b
    · obtain ⟨i, e, he, hstart, hnext⟩ := ih hrest
      exact ⟨i + 1, e, he, hstart, hnext⟩
    · obtain ⟨first, hfirst, hstart⟩ := h
      cases hfirst
      refine ⟨0, d, rfl, hstart, fun next hnext => ?_⟩
      rw [List.getElem?_cons_succ, ← List.head?_eq_getElem?] at hnext
      exact Nat.lt_of_not_le fun hle => hrest ⟨next, hnext, hle⟩

/-- Whatever does not have to stay is taken by some doomed declarator. -/
theorem Erased.exists_cut {gone : Place → Prop} (wf : q.node.WellFormed source)
    (h : Erased gone q.declarators b) (stays : ∃ e ∈ q.declarators, ¬ gone e) :
    ∃ d ∈ q.declarators, gone d ∧
      ∃ start stop, Cut gone q.declarators d start stop ∧ start ≤ b ∧ b < stop := by
  obtain ⟨i, d, hd, hstart, hnext⟩ := exists_last_start h.starts
  have hmem := List.mem_of_getElem? hd
  have hi := (List.getElem?_eq_some_iff.mp hd).1
  rcases Nat.lt_or_ge b d.node.stop with hlt | hge
  · -- the byte is one of a declarator, which must then be doomed
    have hgone : gone d := Classical.not_not.mp fun hno => h.declarator d hmem hno ⟨hstart, hlt⟩
    by_cases hbefore : ∃ e ∈ q.declarators.take i, ¬ gone e
    · cases i with
      | zero => simp at hbefore
      | succ k =>
        have hk : q.declarators[k]? = some q.declarators[k] := List.getElem?_eq_getElem (by omega)
        have hle := declarators_lt wf.tiled hk hd (Nat.lt_succ_self _)
        exact ⟨d, hmem, hgone, _, _, .gapBefore hk hd hbefore, Nat.le_trans hle hstart, hlt⟩
    · have leading : ∀ e ∈ q.declarators.take i, gone e :=
        fun e he => Classical.not_not.mp fun hno => hbefore ⟨e, he, hno⟩
      obtain ⟨after, hafter⟩ := next_of_leading hd hgone leading stays
      exact ⟨d, hmem, hgone, _, _, .gapAfter hd hafter leading, hstart, hnext after hafter⟩
  · -- the byte is one of a gap, which goes with the declarator on one of its sides
    have hlast : i + 1 < q.declarators.length := by
      obtain ⟨last, hlast, hb⟩ := h.stops
      rw [Option.mem_def, List.getLast?_eq_getElem?] at hlast
      rcases Nat.lt_or_ge (i + 1) q.declarators.length with hlt | hle
      · exact hlt
      · have hlength : q.declarators.length - 1 = i := by omega
        rw [hlength, hd] at hlast
        cases hlast
        omega
    have he : q.declarators[i + 1]? = some q.declarators[i + 1] := List.getElem?_eq_getElem hlast
    have hne := declarator_nonempty wf.tiled (List.mem_of_getElem? he)
    have hb := hnext _ he
    by_cases hbefore : ∃ e ∈ q.declarators.take (i + 1), ¬ gone e
    · have hgone : gone q.declarators[i + 1] :=
        Classical.not_not.mp fun hno => h.gap i d _ hd he hno hbefore ⟨hge, hb⟩
      exact ⟨_, List.mem_of_getElem? he, hgone, _, _, .gapBefore hd he hbefore, hge, by omega⟩
    · have leading : ∀ e ∈ q.declarators.take (i + 1), gone e :=
        fun e he => Classical.not_not.mp fun hno => hbefore ⟨e, he, hno⟩
      have hgone : gone d := leading d (mem_take_iff.mpr ⟨i, Nat.lt_succ_self _, hd⟩)
      refine ⟨d, hmem, hgone, _, _, .gapAfter hd he fun e he => ?_, hstart, hb⟩
      obtain ⟨j, hj, hje⟩ := mem_take_iff.mp he
      exact leading e (mem_take_iff.mpr ⟨j, by omega, hje⟩)

/-- Two places of a list stay and none between them does; the middle one given is right before the
second. -/
def Consecutive (gone : Place → Prop) (ds : List Place) (d before e : Place) : Prop :=
  ∃ i j, i ≤ j ∧ ds[i]? = some d ∧ ds[j]? = some before ∧ ds[j + 1]? = some e ∧
    ¬ gone d ∧ ¬ gone e ∧ ∀ k f, i < k → k ≤ j → ds[k]? = some f → gone f

/-- Between two declarators that stay one after the other one gap survives, the one before the
second. -/
theorem erased_between {gone : Place → Prop} {before : Place} (wf : q.node.WellFormed source)
    (h : Consecutive gone q.declarators d before e) (hstart : d.node.stop ≤ b)
    (hstop : b < e.node.start) : ¬ Erased gone q.declarators b ↔ before.node.stop ≤ b := by
  obtain ⟨i, j, hij, hd, hbefore, he, hdstays, hestays, hbetween⟩ := h
  constructor
  · intro hsurvives
    refine Nat.le_of_not_lt fun hlt => hsurvives ?_
    have hbne := declarator_nonempty wf.tiled (List.mem_of_getElem? hbefore)
    have hene := declarator_nonempty wf.tiled (List.mem_of_getElem? he)
    have hdne := declarator_nonempty wf.tiled (List.mem_of_getElem? hd)
    refine ⟨starts_of_getElem? wf hd (by omega), stops_of_getElem? wf he (by omega), ?_, ?_⟩
    · rintro f hf hfstays ⟨hfs, hft⟩
      obtain ⟨k, hk⟩ := List.getElem?_of_mem hf
      rcases Nat.lt_or_ge i k with hik | hki
      · rcases Nat.lt_or_ge j k with hjk | hkj
        · have := declarators_le wf.tiled he hk hjk
          omega
        · exact hfstays (hbetween k f hik hkj hk)
      · have := declarators_le wf.tiled hk hd hki
        omega
    · rintro k before' f hbefore' hf hfstays - ⟨hfs, hft⟩
      rcases Nat.lt_or_ge i (k + 1) with hik | hki
      · rcases Nat.lt_or_ge k j with hkj | hjk
        · exact hfstays (hbetween (k + 1) f hik hkj hf)
        · have := declarators_le wf.tiled hbefore hbefore' hjk
          omega
      · have := declarators_le wf.tiled hf hd hki
        omega
  · intro hle h
    exact h.gap j before e hbefore he hestays ⟨d, mem_take_iff.mpr ⟨i, by omega, hd⟩, hdstays⟩
      ⟨hle, hstop⟩

end Extent

/-! ### Requires below a declarator -/

/-- No declarator of a declaration stands below another one with no container of statements
between them. -/
def Node.Flat (root : Node) : Prop :=
  ∀ q ∈ root.places, q.node.kind.isDeclaration = true → ∀ d ∈ q.declarators,
    ∀ p, d.Reaches p → p.node.kind.isDeclaration = true → p.declarators = []

/-- A tree without a declaration below a declarator is flat. -/
theorem Node.flat_of_forall (h : ∀ q ∈ root.places, ∀ d ∈ q.declarators,
    ∀ n ∈ d.node.preorder, n.kind.isDeclaration = false) : root.Flat := by
  intro q hq _ d hd p hr hdecl
  rw [h q hq d hd p.node hr.within.node_mem_preorder] at hdecl
  cases hdecl

namespace Extent

theorem isContainer_of_mem_declarators (hd : d ∈ q.declarators) :
    d.node.kind.isContainer = false := by
  rw [(mem_declarators.mp hd).2.2]
  rfl

/-- In a flat tree every climb from below a declarator stops there. -/
theorem climb?_of_reaches (wf : root.WellFormed source) (flat : root.Flat)
    (hq : (Place.root root).Within q) (hdecl : q.node.kind.isDeclaration = true)
    (hd : d ∈ q.declarators) (hr : d.Reaches p) (hp : p.node.children ≠ []) :
    climb? p = some d := by
  obtain ⟨hc, -, hkind⟩ := mem_declarators.mp hd
  have hqopen : q.node.kind.isContainer = false := isContainer_of_isDeclaration hdecl
  induction hr with
  | refl => rw [climb?_child hc, hqopen, if_neg Bool.false_ne_true, if_pos ⟨hkind, hdecl⟩]
  | @child s c hs hcs ho ih =>
    have hsopen := hs.isContainer (isContainer_of_mem_declarators hd)
    have hschildren : s.node.children ≠ [] := List.ne_nil_of_mem (Place.node_mem_children hcs)
    rw [climb?_child hcs, hsopen, if_neg Bool.false_ne_true, if_neg, ih hschildren]
    rintro ⟨hckind, hsdecl⟩
    have wfc := ((hq.child hc).trans (hs.within.child hcs)).wellFormed wf
    have hcmem : c ∈ s.declarators :=
      mem_declarators.mpr ⟨hcs, Place.Reaches.refl.named wfc.tiled hp, hckind⟩
    rw [flat q (Node.mem_places.mpr hq) hdecl d hd s hs hsdecl] at hcmem
    cases hcmem

end Extent

namespace Removal

/-- The removal belongs to a declarator: a require below it asks for it. -/
def BelongsTo (source : List Char) (modules : List Specifier) (d : Place) (r : Removal) : Prop :=
  ∃ p, d.Reaches p ∧ p.node.Requires source modules ∧ at? source modules p = .ok (some r)

/-- A byte goes with a declarator of the declaration. -/
def GoesWith (source : List Char) (modules : List Specifier) (q : Place) (b : Nat) : Prop :=
  ∃ d ∈ q.declarators, ∃ r, BelongsTo source modules d r ∧ r.start ≤ b ∧ b < r.stop

/-- A require below a declarator takes the whole statement if no declarator of the declaration
stays, else the declarator with one gap. -/
theorem at?_below (wf : root.WellFormed source) (flat : root.Flat)
    (hq : (Place.root root).Within q) (hdecl : q.node.kind.isDeclaration = true)
    (hd : d ∈ q.declarators) (hr : d.Reaches p) (hp : p.node.Requires source modules) :
    ∃ r, at? source modules p = .ok (some r) ∧ r.reason = .required ∧
      ((∀ e ∈ q.declarators, e.Doomed source modules) ∧
          (r.start, r.stop) = Extent.ofStatement (Extent.enclosing q) ∨
        (∃ e ∈ q.declarators, ¬ e.Doomed source modules) ∧
          Extent.Cut (Place.Doomed source modules) q.declarators d r.start r.stop) := by
  obtain ⟨m, hm⟩ := hp
  have hclimb := Extent.declarator?_of_climb? (Extent.mem_declarators.mp hd).1
    (Extent.climb?_of_reaches wf flat hq hdecl hd hr (Node.Requires.children_ne_nil ⟨m, hm⟩))
  have wfq : q.node.WellFormed source := hq.wellFormed wf
  rcases Extent.ofDeclarator?_cases wfq.tiled hd ⟨p, hr, m, hm⟩ hclimb with
    ⟨hall, hspan⟩ | ⟨stays, start, stop, hcut, hspan⟩ | ⟨e, -, hlarge⟩
  · refine ⟨_, at?_required hm hspan, rfl, .inl ⟨hall, ?_⟩⟩
    rw [Extent.enclosing_of_reaches hr (Extent.isContainer_of_mem_declarators hd),
      Extent.enclosing_child (Extent.mem_declarators.mp hd).1,
      Extent.isContainer_of_isDeclaration hdecl]
    rfl
  · exact ⟨_, at?_required hm hspan, rfl, .inr ⟨stays, hcut⟩⟩
  · exact absurd hlarge.2 wfq.not_overflows

theorem BelongsTo.cases {r : Removal} (wf : root.WellFormed source) (flat : root.Flat)
    (hq : (Place.root root).Within q) (hdecl : q.node.kind.isDeclaration = true)
    (hd : d ∈ q.declarators) (h : BelongsTo source modules d r) :
    r.reason = .required ∧
      ((∀ e ∈ q.declarators, e.Doomed source modules) ∧
          (r.start, r.stop) = Extent.ofStatement (Extent.enclosing q) ∨
        (∃ e ∈ q.declarators, ¬ e.Doomed source modules) ∧
          Extent.Cut (Place.Doomed source modules) q.declarators d r.start r.stop) := by
  obtain ⟨p, hr, hp, hat⟩ := h
  obtain ⟨r', hat', hreason, hspan⟩ := at?_below wf flat hq hdecl hd hr hp
  rw [hat] at hat'
  cases hat'
  exact ⟨hreason, hspan⟩

/-- Exactly the doomed declarators have removals. -/
theorem doomed_iff_belongsTo (wf : root.WellFormed source) (flat : root.Flat)
    (hq : (Place.root root).Within q) (hdecl : q.node.kind.isDeclaration = true)
    (hd : d ∈ q.declarators) :
    d.Doomed source modules ↔ ∃ r, BelongsTo source modules d r := by
  constructor
  · rintro ⟨p, hr, hp⟩
    obtain ⟨r, hat, -⟩ := at?_below wf flat hq hdecl hd hr hp
    exact ⟨r, p, hr, hp, hat⟩
  · rintro ⟨r, p, hr, hp, -⟩
    exact ⟨p, hr, hp⟩

/-- What goes with the declarators of a declaration that keeps one. -/
theorem goesWith_iff (wf : root.WellFormed source) (flat : root.Flat)
    (hq : (Place.root root).Within q) (hdecl : q.node.kind.isDeclaration = true)
    (stays : ∃ e ∈ q.declarators, ¬ e.Doomed source modules) :
    GoesWith source modules q b ↔
      Extent.Erased (Place.Doomed source modules) q.declarators b := by
  have wfq : q.node.WellFormed source := hq.wellFormed wf
  have hcut : ∀ {d r}, d ∈ q.declarators → BelongsTo source modules d r →
      Extent.Cut (Place.Doomed source modules) q.declarators d r.start r.stop := by
    intro d r hd h
    rcases (h.cases wf flat hq hdecl hd).2 with ⟨hall, -⟩ | ⟨-, hcut⟩
    · obtain ⟨e, he, hstays⟩ := stays
      exact absurd (hall e he) hstays
    · exact hcut
  constructor
  · rintro ⟨d, hd, r, h, hstart, hstop⟩
    have hdoomed := (doomed_iff_belongsTo wf flat hq hdecl hd).mpr ⟨r, h⟩
    exact (hcut hd h).erased wfq hdoomed hstart hstop
  · intro h
    obtain ⟨d, hd, hdoomed, start, stop, hcut', hstart, hstop⟩ := h.exists_cut wfq stays
    obtain ⟨r, hr⟩ := (doomed_iff_belongsTo wf flat hq hdecl hd).mp hdoomed
    obtain ⟨rfl, rfl⟩ := hcut'.unique wfq (hcut hd hr)
    exact ⟨d, hd, r, hr, hstart, hstop⟩

/-- Declarators with a require are cut out of their declaration. If one stays, the bytes that go
with them reach from the first declarator to the last, without the declarators that stay and the gap
before each of these but the first, so that one gap stays between any two. If none stays, each
require takes the whole statement around the declaration. -/
theorem declarator_surgery (source : List Char) (modules : List Specifier) (root : Node)
    (wf : root.WellFormed source) (flat : root.Flat) (q : Place) (hq : q ∈ root.places)
    (hdecl : q.node.kind.isDeclaration = true) :
    ∃ removals, find source modules root = .ok removals ∧
      (∀ d ∈ q.declarators,
        (d.Doomed source modules ↔ ∃ r, BelongsTo source modules d r) ∧
        ∀ r, BelongsTo source modules d r → r ∈ removals ∧ r.reason = .required) ∧
      ((∃ e ∈ q.declarators, ¬ e.Doomed source modules) →
        (∀ b, GoesWith source modules q b ↔
          Extent.Erased (Place.Doomed source modules) q.declarators b) ∧
        ∀ d before e, Extent.Consecutive (Place.Doomed source modules) q.declarators d before e →
          ∀ b, d.node.stop ≤ b → b < e.node.start →
            (¬ GoesWith source modules q b ↔ before.node.stop ≤ b)) ∧
      ((∀ e ∈ q.declarators, e.Doomed source modules) →
        ∀ d ∈ q.declarators, ∀ r, BelongsTo source modules d r →
          (r.start, r.stop) = Extent.ofStatement (Extent.enclosing q)) := by
  rw [Node.mem_places] at hq
  obtain ⟨found, hfind, -⟩ := find_ok modules wf
  refine ⟨_, hfind, fun d hd => ⟨doomed_iff_belongsTo wf flat hq hdecl hd, fun r hr => ?_⟩,
    fun stays => ?_, fun hall d hd r hr => ?_⟩
  · refine ⟨?_, (hr.cases wf flat hq hdecl hd).1⟩
    obtain ⟨p, hreach, -, hat⟩ := hr
    have hp := (hq.child (Extent.mem_declarators.mp hd).1).trans hreach.within
    exact (mem_find hfind).mpr ⟨p, hp, hat⟩
  · have hgoes := fun b => goesWith_iff (b := b) wf flat hq hdecl stays
    refine ⟨hgoes, fun d before e h b hstart hstop => ?_⟩
    rw [hgoes]
    exact Extent.erased_between (hq.wellFormed wf) h hstart hstop
  · rcases (hr.cases wf flat hq hdecl hd).2 with ⟨-, hspan⟩ | ⟨⟨e, he, hstays⟩, -⟩
    · exact hspan
    · exact absurd (hall e he) hstays

theorem declarator_surgery_sample :
    ∃ q ∈ Node.sample.places, q.node.kind = .lexicalDeclaration ∧
      (∃ e ∈ q.declarators, ¬ e.Doomed Node.sampleText.toList ["π"]) ∧
      ∀ b, GoesWith Node.sampleText.toList ["π"] q b ↔
        Extent.Erased (Place.Doomed Node.sampleText.toList ["π"]) q.declarators b := by
  obtain ⟨q, hq⟩ : ∃ q, Node.sample.places[1]? = some q := ⟨_, rfl⟩
  obtain ⟨e, he⟩ : ∃ e, q.declarators[0]? = some e := by cases hq; exact ⟨_, rfl⟩
  have hqmem := List.mem_of_getElem? hq
  have hemem := List.mem_of_getElem? he
  have wfe : e.node.WellFormed Node.sampleText.toList :=
    ((Node.mem_places.mp hqmem).child (Extent.mem_declarators.mp hemem).1).wellFormed
      Node.sample_wellFormed
  have hstays : ¬ e.Doomed Node.sampleText.toList ["π"] := by
    intro hdoomed
    have hfound := (Extent.doomed_iff_holdsRequire wfe).mp hdoomed
    cases hq
    cases he
    have hnone : Except.ok false = Except.ok true := hfound
    cases hnone
  obtain ⟨-, -, -, hkept, -⟩ := declarator_surgery Node.sampleText.toList ["π"] Node.sample
    Node.sample_wellFormed (Node.flat_of_forall (by decide)) q hqmem (by cases hq; rfl)
  exact ⟨q, hqmem, by cases hq; rfl, ⟨e, hemem, hstays⟩, (hkept ⟨e, hemem, hstays⟩).1⟩

end Removal
end PropShear
