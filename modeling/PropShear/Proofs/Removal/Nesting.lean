import PropShear.Proofs.Removal.Declarators

/-! Ranges that are removed do not overlap in part.

Every range belongs to a place, the container of the statement or the declaration of the declarator,
and respects its children: none of them is cut (`Respects`). So ranges of different places are
nested or apart (`Respects.laminar`), and only the ranges of one place need a closer look. There a
semicolon that goes with the class member before it has to be a leaf; otherwise a match inside of it
could take the semicolon after it (`find_overlaps`). -/
namespace PropShear

variable {source : List Char} {modules : List Specifier} {root : Node} {p p' o o' q d d' s s' : Place}
  {start stop start' stop' : Nat}

namespace Extent

/-- Two ranges are apart or one holds the other. -/
def Laminar (start stop start' stop' : Nat) : Prop :=
  stop ≤ start' ∨ stop' ≤ start ∨ (start ≤ start' ∧ stop' ≤ stop) ∨ (start' ≤ start ∧ stop ≤ stop')

theorem Laminar.symm (h : Laminar start stop start' stop') : Laminar start' stop' start stop := by
  unfold Laminar at *
  omega

/-- A range lies inside a place and cuts none of its children. -/
structure Respects (o : Place) (start stop : Nat) : Prop where
  starts : o.node.start ≤ start
  stops : stop ≤ o.node.stop
  children : ∀ c ∈ o.children,
    c.node.stop ≤ start ∨ stop ≤ c.node.start ∨ (start ≤ c.node.start ∧ c.node.stop ≤ stop)

/-! ### What ranges respect -/

theorem statement_respects (wf : o.node.WellFormed source) (hs : s ∈ o.children) :
    Respects o s.node.start ((ownSemicolon? s).getD s.node).stop := by
  obtain ⟨hstop, hinside, -⟩ := statement_bounds wf.tiled hs
  refine ⟨(wf.sound.inside s.node (Place.node_mem_children hs)).1, hinside, fun c hc => ?_⟩
  rcases Place.childrenFrom_cases hc hs with rfl | hlater | hlater
  · exact .inr (.inr ⟨Nat.le_refl _, hstop⟩)
  · exact .inl (Place.apart_of_later wf.tiled hc hlater)
  · -- a later child is the semicolon itself or comes after it
    have hafter := Place.apart_of_later wf.tiled hs hlater
    have hordered := (wf.child (Place.node_mem_children hs)).sound.ordered
    cases hown : ownSemicolon? s with
    | none => exact .inr (.inl hafter)
    | some m =>
      obtain ⟨b, hb, hbmem, rfl⟩ := ownSemicolon?_later hs hown
      rw [hb] at hlater
      rcases List.mem_cons.mp hlater with rfl | hlater
      · exact .inr (.inr ⟨Nat.le_trans hordered hafter, Nat.le_refl _⟩)
      · exact .inr (.inl (Place.apart_of_later wf.tiled hbmem hlater))

theorem Cut.respects {gone : Place → Prop} (wf : q.node.WellFormed source)
    (cut : Cut gone q.declarators d start stop) : Respects q start stop := by
  have hmem : ∀ {i : Nat} {e : Place}, q.declarators[i]? = some e → e ∈ q.children :=
    fun he => (mem_declarators.mp (List.mem_of_getElem? he)).1
  have hsound : ∀ {e : Place}, e ∈ q.children → q.node.start ≤ e.node.start ∧
      e.node.start ≤ e.node.stop ∧ e.node.stop ≤ q.node.stop := fun he =>
    have hinside := wf.sound.inside _ (Place.node_mem_children he)
    ⟨hinside.1, (wf.child (Place.node_mem_children he)).sound.ordered, hinside.2⟩
  cases cut with
  | @gapBefore i before hbefore hd _ =>
    have hlt := declarators_lt wf.tiled hbefore hd (Nat.lt_succ_self _)
    have hb := hsound (hmem hbefore)
    have hd' := hsound (hmem hd)
    refine ⟨by omega, hd'.2.2, fun c hc => ?_⟩
    have hc' := hsound hc
    rcases Place.eq_or_apart wf.tiled hc (hmem hbefore) with rfl | h | h <;>
      rcases Place.eq_or_apart wf.tiled hc (hmem hd) with rfl | h' | h' <;> omega
  | @gapAfter i after hd hafter _ =>
    have hlt := declarators_lt wf.tiled hd hafter (Nat.lt_succ_self _)
    have hd' := hsound (hmem hd)
    have ha := hsound (hmem hafter)
    refine ⟨hd'.1, by omega, fun c hc => ?_⟩
    have hc' := hsound hc
    rcases Place.eq_or_apart wf.tiled hc (hmem hd) with rfl | h | h <;>
      rcases Place.eq_or_apart wf.tiled hc (hmem hafter) with rfl | h' | h' <;> omega

/-- Ranges of places one of which is below a child of the other. -/
theorem Respects.laminar_of_below {c : Place} (h : Respects o start stop)
    (h' : Respects o' start' stop') (wf : o.node.WellFormed source) (hc : c ∈ o.children)
    (hw : c.Within o') : Laminar start stop start' stop' := by
  have hinside := hw.inside (wf.tiled.child (Place.node_mem_children hc))
  have := h'.starts
  have := h'.stops
  unfold Laminar
  rcases h.children c hc with hbefore | hafter | hin <;> omega

/-- Ranges of different places are nested or apart. -/
theorem Respects.laminar (h : Respects o start stop) (h' : Respects o' start' stop')
    (wf : root.WellFormed source) (ho : (Place.root root).Within o)
    (ho' : (Place.root root).Within o') (hne : o ≠ o') : Laminar start stop start' stop' := by
  rcases Place.nested_or_apart wf.tiled ho ho' with heq | ⟨c, hc, hw⟩ | ⟨c, hc, hw⟩ | hapart | hapart
  · exact absurd heq hne
  · exact h.laminar_of_below h' (ho.wellFormed wf) hc hw
  · exact (h'.laminar_of_below h (ho'.wellFormed wf) hc hw).symm
  · exact .inl (Nat.le_trans h.stops (Nat.le_trans hapart h'.starts))
  · exact .inr (.inl (Nat.le_trans h'.stops (Nat.le_trans hapart h.starts)))

/-! ### Ranges of one place -/

/-- Two statements of a container, neither of which is a semicolon. -/
theorem statements_laminar (wf : o.node.WellFormed source) (hs : s ∈ o.children)
    (hs' : s' ∈ o.children) (hkind : s.node.kind ≠ .semicolon)
    (hkind' : s'.node.kind ≠ .semicolon) :
    Laminar s.node.start ((ownSemicolon? s).getD s.node).stop
      s'.node.start ((ownSemicolon? s').getD s'.node).stop := by
  have hafter : ∀ {a b : Place}, a ∈ o.children → b ∈ a.later → b.node.kind ≠ .semicolon →
      ((ownSemicolon? a).getD a.node).stop ≤ b.node.start := by
    intro a b ha hlater hb
    cases hown : ownSemicolon? a with
    | none => exact Place.apart_of_later wf.tiled ha hlater
    | some m =>
      obtain ⟨c, hc, hcmem, rfl⟩ := ownSemicolon?_later ha hown
      rw [hc] at hlater
      rcases List.mem_cons.mp hlater with rfl | hlater
      · exact absurd (ownSemicolon?_eq_some hown).2.2 hb
      · exact Place.apart_of_later wf.tiled hcmem hlater
  rcases Place.childrenFrom_cases hs hs' with rfl | hlater | hlater
  · exact .inr (.inr (.inl ⟨Nat.le_refl _, Nat.le_refl _⟩))
  · exact .inl (hafter hs hlater hkind')
  · exact .inr (.inl (hafter hs' hlater hkind))

/-- The range of a declarator ends before the range of a later one starts: a gap goes with only one
of the declarators beside it. -/
theorem Cut.apart {gone : Place → Prop} {i j : Nat} (wf : q.node.WellFormed source)
    (hd : q.declarators[i]? = some d) (hd' : q.declarators[j]? = some d') (hij : i < j)
    (hgone : gone d) (cut : Cut gone q.declarators d start stop)
    (cut' : Cut gone q.declarators d' start' stop') : stop ≤ start' := by
  cases cut with
  | gapBefore _ _ _ =>
    cases cut' with
    | @gapBefore k' before' hbefore' hd'' _ =>
      cases declarators_index wf.tiled hd' hd''
      exact (declarators_le wf.tiled hd hbefore' (by omega)).2
    | gapAfter _ _ _ => exact declarators_lt wf.tiled hd hd' hij
  | @gapAfter k after hdk hafter leading =>
    cases declarators_index wf.tiled hd hdk
    cases cut' with
    | @gapBefore k' before' hbefore' hd'' stays =>
      cases declarators_index wf.tiled hd' hd''
      rcases Nat.lt_or_eq_of_le (Nat.le_of_lt_succ hij) with hlt | rfl
      · have hne := declarator_nonempty wf.tiled (List.mem_of_getElem? hbefore')
        have hle := declarators_le wf.tiled hafter hbefore' hlt
        omega
      · -- the later one takes the gap before it only if something before that gap stays
        obtain ⟨e, he, hstays⟩ := stays
        obtain ⟨m, hm, hem⟩ := mem_take_iff.mp he
        have := lt_of_stays hd hgone leading hem hstays
        omega
    | gapAfter _ _ _ => exact (declarators_le wf.tiled hafter hd' hij).1

theorem Cut.laminar {gone : Place → Prop} (wf : q.node.WellFormed source)
    (hd : d ∈ q.declarators) (hd' : d' ∈ q.declarators) (hgone : gone d) (hgone' : gone d')
    (cut : Cut gone q.declarators d start stop) (cut' : Cut gone q.declarators d' start' stop') :
    Laminar start stop start' stop' := by
  obtain ⟨i, hi⟩ := List.getElem?_of_mem hd
  obtain ⟨j, hj⟩ := List.getElem?_of_mem hd'
  rcases Nat.lt_trichotomy i j with hlt | rfl | hlt
  · exact .inl (cut.apart wf hi hj hlt hgone cut')
  · rw [hi] at hj
    cases hj
    obtain ⟨rfl, rfl⟩ := cut.unique wf cut'
    exact .inr (.inr (.inl ⟨Nat.le_refl _, Nat.le_refl _⟩))
  · exact .inr (.inl (cut'.apart wf hj hi hlt hgone' cut))

/-! ### All ranges -/

/-- If semicolons are leaves, what is around a match is no semicolon. -/
theorem kind_ne_semicolon (leaf : ∀ n ∈ root.preorder, n.kind = .semicolon → n.children = [])
    (hs : (Place.root root).Within s) (hw : s.Within p) (hp : p.node.kind ≠ .semicolon) :
    s.node.kind ≠ .semicolon := by
  intro hkind
  have hchildren := Place.children_eq_nil (leaf s.node hs.node_mem_preorder hkind)
  rcases hw.eq_or_child with rfl | ⟨c, hc, -⟩
  · exact hp hkind
  · rw [hchildren] at hc
    cases hc

theorem Spans.inside (h : Spans source modules root p start stop) (wf : root.WellFormed source) :
    root.start ≤ start ∧ stop ≤ root.stop := by
  have hinside : ∀ {o : Place}, (Place.root root).Within o → Respects o start stop →
      root.start ≤ start ∧ stop ≤ root.stop := fun ho hr =>
    have hroot := ho.inside wf.tiled
    ⟨Nat.le_trans hroot.1 hr.starts, Nat.le_trans hr.stops hroot.2⟩
  cases h with
  | whole => exact ⟨Nat.le_refl _, Nat.le_refl _⟩
  | statement ho _ hs _ => exact hinside ho (statement_respects (ho.wellFormed wf) hs)
  | declarator hq _ _ _ _ cut => exact hinside hq (cut.respects (hq.wellFormed wf))

theorem container_ne_declaration (hcontainer : o.node.kind.isContainer = true)
    (hdecl : q.node.kind.isDeclaration = true) : o ≠ q := by
  rintro rfl
  rw [isContainer_of_isDeclaration hdecl] at hcontainer
  cases hcontainer

theorem Spans.laminar (h : Spans source modules root p start stop)
    (h' : Spans source modules root p' start' stop') (wf : root.WellFormed source)
    (leaf : ∀ n ∈ root.preorder, n.kind = .semicolon → n.children = [])
    (hp : p.node.kind ≠ .semicolon) (hp' : p'.node.kind ≠ .semicolon) :
    Laminar start stop start' stop' := by
  have hinside := h.inside wf
  have hinside' := h'.inside wf
  cases h with
  | whole => exact .inr (.inr (.inl hinside'))
  | @statement o s ho hcontainer hs hsp =>
    have wfo : o.node.WellFormed source := ho.wellFormed wf
    have hrespects := statement_respects wfo hs
    cases h' with
    | whole => exact .inr (.inr (.inr hinside))
    | @statement o' s' ho' _ hs' hsp' =>
      by_cases heq : o = o'
      · subst heq
        have hkind := kind_ne_semicolon leaf (ho.child hs) hsp hp
        have hkind' := kind_ne_semicolon leaf (ho.child hs') hsp' hp'
        exact statements_laminar wfo hs hs' hkind hkind'
      · have hrespects' := statement_respects (ho'.wellFormed wf) hs'
        exact hrespects.laminar hrespects' wf ho ho' heq
    | @declarator q d' _ _ hq hdecl _ _ _ cut' =>
      have hne := container_ne_declaration hcontainer hdecl
      exact hrespects.laminar (cut'.respects (hq.wellFormed wf)) wf ho hq hne
  | @declarator q d _ _ hq hdecl hd _ hdoomed cut =>
    have wfq : q.node.WellFormed source := hq.wellFormed wf
    have hrespects := cut.respects wfq
    cases h' with
    | whole => exact .inr (.inr (.inr hinside))
    | @statement o s' ho hcontainer hs' _ =>
      have hne := container_ne_declaration hcontainer hdecl
      exact hrespects.laminar (statement_respects (ho.wellFormed wf) hs') wf hq ho hne.symm
    | @declarator q' d' _ _ hq' _ hd' _ hdoomed' cut' =>
      by_cases heq : q = q'
      · subst heq
        exact cut.laminar wfq hd hd' hdoomed hdoomed' cut'
      · exact hrespects.laminar (cut'.respects (hq'.wellFormed wf)) wf hq hq' heq

end Extent

namespace Removal

theorem Asks.kind_ne_semicolon {n : Node} {reason : Reason} {module? : Option Specifier}
    (h : Asks source modules n reason module?) : n.kind ≠ .semicolon := by
  cases h with
  | imported h => rw [importOf?_kind h]; decide
  | required h => rw [Node.Requires.kind ⟨_, h⟩]; decide
  | assigned h => rw [assigns_kind h]; decide

/-- Every range that is removed is that of the whole tree, of a child of a container of statements,
in a class body with the semicolon right after it, or of one of several declarators with the gap to
a neighbour. If semicolons are leaves, any two of them are apart or nested. -/
theorem find_laminar (source : List Char) (modules : List Specifier) (root : Node)
    (wf : root.WellFormed source) :
    ∃ removals, find source modules root = .ok removals ∧
      (∀ r ∈ removals, ∃ p ∈ root.places, Asks source modules p.node r.reason r.module? ∧
        Extent.Spans source modules root p r.start r.stop) ∧
      ((∀ n ∈ root.preorder, n.kind = .semicolon → n.children = []) →
        ∀ r ∈ removals, ∀ r' ∈ removals, Extent.Laminar r.start r.stop r'.start r'.stop) := by
  obtain ⟨found, hfind, -⟩ := find_ok modules wf
  refine ⟨_, hfind, fun r hr => ?_, fun leaf r hr r' hr' => ?_⟩
  · obtain ⟨p, hp, hasks, hspan⟩ := find_spans wf.tiled hfind hr
    exact ⟨p, Node.mem_places.mpr hp, hasks, hspan⟩
  · obtain ⟨p, -, hasks, hspan⟩ := find_spans wf.tiled hfind hr
    obtain ⟨p', -, hasks', hspan'⟩ := find_spans wf.tiled hfind hr'
    exact hspan.laminar hspan' wf leaf hasks.kind_ne_semicolon hasks'.kind_ne_semicolon

/-- The tree of `require("p")` at an offset. -/
def requireAt (offset : Nat) : Node :=
  .branch .callExpression offset (offset + 12) [
    (Node.branch .identifier offset (offset + 7) []).inRole .function,
    (Node.branch .arguments (offset + 7) (offset + 12) [
      .branch .string (offset + 8) (offset + 11) [
        .branch (.other "string_fragment") (offset + 9) (offset + 10) []]]).inRole .arguments]

/-- A class body of two calls and a semicolon. -/
def twoCalls (second : Node) : Node :=
  .branch .program 0 25 [.branch .classBody 0 25 [requireAt 0, second, .token .semicolon 24 25]]

def twoCallsText : List Char := "require(\"p\")require(\"p\");".toList

theorem find_laminar_twoCalls :
    ∃ removals, find twoCallsText ["p"] (twoCalls (requireAt 12)) = .ok removals ∧
      removals.length = 2 ∧
      ∀ r ∈ removals, ∀ r' ∈ removals, Extent.Laminar r.start r.stop r'.start r'.stop := by
  obtain ⟨removals, hfind, -, hlaminar⟩ :=
    find_laminar twoCallsText ["p"] (twoCalls (requireAt 12)) (by decide)
  have hremovals : Except.ok [⟨.required, some "p", 0, 12⟩, ⟨.required, some "p", 12, 25⟩] =
    Except.ok removals := hfind
  refine ⟨removals, hfind, ?_, hlaminar (by decide)⟩
  cases hremovals
  rfl

/-- A semicolon that is no leaf: the first call takes it along, the call in it takes the semicolon
after it. -/
theorem find_overlaps :
    (twoCalls (.branch .semicolon 12 24 [requireAt 12])).WellFormed twoCallsText ∧
      (twoCalls (.branch .semicolon 12 24 [requireAt 12])).hasError = false ∧
      find twoCallsText ["p"] (twoCalls (.branch .semicolon 12 24 [requireAt 12])) =
        .ok [⟨.required, some "p", 0, 24⟩, ⟨.required, some "p", 12, 25⟩] ∧
      ¬ Extent.Laminar 0 24 12 25 := by
  refine ⟨by decide, rfl, rfl, ?_⟩
  unfold Extent.Laminar
  decide

end Removal
end PropShear
