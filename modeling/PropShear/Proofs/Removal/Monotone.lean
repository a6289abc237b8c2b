import PropShear.Proofs.Removal.Nesting
import PropShear.Proofs.Splice

/-! Tracking more modules removes more.

With more modules tracked, the range of a single require may move: a declarator may take another gap
than before, or give way to its whole statement. Only what is removed in all grows. For imports and
assignments the ranges are the same as before; for the declarators of one declaration the bytes that
go together grow (`Extent.Erased.mono`), and once all of them go, the statement holds them
(`goesIn_of_erased`). -/
namespace PropShear

variable {source : List Char} {modules more : List Specifier} {root : Node} {p q d : Place} {b : Nat}

/-! ### Shapes -/

theorem Shape.tracked?_mono (hsub : modules ⊆ more) {points : Option (List Nat)} {m : Specifier}
    (h : tracked? modules points = some m) : ∃ m', tracked? more points = some m' := by
  obtain ⟨spelling, rfl, hfound⟩ := Option.bind_eq_some_iff.mp h
  have hmem := hsub (List.mem_of_find?_eq_some hfound)
  have hspells := List.find?_some hfound
  exact Option.isSome_iff_exists.mp (List.find?_isSome.mpr ⟨m, hmem, hspells⟩)

/-- What is read from a node stays the same; only which of it is tracked grows. -/
theorem Shape.read_mono (hsub : modules ⊆ more) {read : Except Fault (Option (List Nat))}
    {m : Specifier} (h : (read >>= fun points => pure (tracked? modules points)) = .ok (some m)) :
    ∃ m', (read >>= fun points => pure (tracked? more points)) = .ok (some m') := by
  cases read with
  | error e => cases h
  | ok points =>
    obtain ⟨m', hm'⟩ := tracked?_mono hsub (Except.ok.inj h)
    exact ⟨m', congrArg Except.ok hm'⟩

theorem Shape.importOf?_mono (hsub : modules ⊆ more) {n : Node} {m : Specifier}
    (h : importOf? source modules n = .ok (some m)) :
    ∃ m', importOf? source more n = .ok (some m') := by
  have hkind := Removal.importOf?_kind h
  unfold importOf? at h ⊢
  rw [if_pos hkind] at h ⊢
  exact read_mono hsub h

theorem Node.Requires.mono (hsub : modules ⊆ more) {n : Node} (h : n.Requires source modules) :
    n.Requires source more := by
  have hkind := h.kind
  obtain ⟨m, h⟩ := h
  unfold Node.Requires
  unfold Shape.requireOf? at h ⊢
  rw [if_pos hkind] at h ⊢
  exact Shape.read_mono hsub h

theorem Place.Doomed.mono (hsub : modules ⊆ more) (h : d.Doomed source modules) :
    d.Doomed source more := by
  obtain ⟨p, hr, hp⟩ := h
  exact ⟨p, hr, hp.mono hsub⟩

/-- If fewer declarators stay, no byte comes back: a gap that has to stay has declarators that stay
on both sides, so it had to stay before. -/
theorem Extent.Erased.mono {gone gone' : Place → Prop} {ds : List Place}
    (hgone : ∀ d, gone d → gone' d) (h : Erased gone ds b) : Erased gone' ds b where
  starts := h.starts
  stops := h.stops
  declarator d hd hstays := h.declarator d hd fun hno => hstays (hgone d hno)
  gap i before d hbefore hd hstays := by
    rintro ⟨e, he, hestays⟩
    refine h.gap i before d hbefore hd (fun hno => hstays (hgone d hno)) ?_
    exact ⟨e, he, fun hno => hestays (hgone e hno)⟩

/-! ### Ranges -/

namespace Removal

/-- The byte lies in a removal that some node of the tree asks for. -/
def GoesIn (source : List Char) (modules : List Specifier) (root : Node) (b : Nat) : Prop :=
  ∃ p, (Place.root root).Within p ∧ ∃ r, at? source modules p = .ok (some r) ∧
    r.start ≤ b ∧ b < r.stop

theorem gone_iff {removals : List Removal} (hfind : find source modules root = .ok removals) :
    gone removals b = true ↔ GoesIn source modules root b := by
  unfold gone GoesIn holds
  simp only [List.any_eq_true, Bool.and_eq_true, decide_eq_true_eq, mem_find hfind]
  constructor
  · rintro ⟨r, ⟨p, hp, hat⟩, hb⟩
    exact ⟨p, hp, r, hat, hb⟩
  · rintro ⟨p, hp, r, hat, hb⟩
    exact ⟨r, ⟨p, hp, hat⟩, hb⟩

/-- A statement holds every place that a climb to it starts from. -/
theorem enclosing_bounds (wf : root.WellFormed source) (hq : (Place.root root).Within q) :
    (Extent.ofStatement (Extent.enclosing q)).1 ≤ q.node.start ∧
      q.node.stop ≤ (Extent.ofStatement (Extent.enclosing q)).2 := by
  have h : Extent.Spans source [] root q _ _ := Extent.spans_enclosing hq
  obtain ⟨hstart, hstop, -⟩ := h.bounds wf.tiled hq
  exact ⟨hstart, hstop⟩

/-- What the declarators of a declaration lose together is removed: by ranges of their own if one of
them stays, else with the statement. -/
theorem goesIn_of_erased (wf : root.WellFormed source) (flat : root.Flat)
    (hq : (Place.root root).Within q) (hdecl : q.node.kind.isDeclaration = true)
    (hd : d ∈ q.declarators) (hr : d.Reaches p) (hp : p.node.Requires source modules)
    (h : Extent.Erased (Place.Doomed source modules) q.declarators b) :
    GoesIn source modules root b := by
  have wfq : q.node.WellFormed source := hq.wellFormed wf
  have hwithin : ∀ {e p'}, e ∈ q.declarators → e.Reaches p' → (Place.root root).Within p' :=
    fun he hr' => (hq.child (Extent.mem_declarators.mp he).1).trans hr'.within
  obtain ⟨r, hat, -, hspan⟩ := at?_below wf flat hq hdecl hd hr hp
  rcases hspan with ⟨-, hspan⟩ | ⟨stays, -⟩
  · obtain ⟨first, hfirst, hstart⟩ := h.starts
    obtain ⟨last, hlast, hstop⟩ := h.stops
    have hinside : ∀ e ∈ q.declarators, q.node.start ≤ e.node.start ∧ e.node.stop ≤ q.node.stop :=
      fun e he => wfq.sound.inside _ (Place.node_mem_children (Extent.mem_declarators.mp he).1)
    have hfirst := hinside first (List.mem_of_head? hfirst)
    have hlast := hinside last (List.mem_of_getLast? hlast)
    obtain ⟨hbefore, hafter⟩ := enclosing_bounds wf hq
    rw [← hspan] at hbefore hafter
    dsimp only at hbefore hafter
    exact ⟨p, hwithin hd hr, r, hat, by omega, by omega⟩
  · obtain ⟨e, he, r', ⟨p', hr', -, hat'⟩, hstart, hstop⟩ :=
      (goesWith_iff wf flat hq hdecl stays).mpr h
    exact ⟨p', hwithin he hr', r', hat', hstart, hstop⟩

/-- A require, with more modules tracked. -/
theorem goesIn_of_requires (wf : root.WellFormed source) (flat : root.Flat)
    (hsub : modules ⊆ more) (hp : (Place.root root).Within p)
    (h : p.node.Requires source modules) {r : Removal}
    (hat : at? source modules p = .ok (some r)) (hstart : r.start ≤ b) (hstop : b < r.stop) :
    GoesIn source more root b := by
  have hmore := h.mono hsub
  cases hclimb : Extent.declarator? p with
  | none =>
    -- no declarator around the require: its statement goes, before and after
    obtain ⟨m, hm⟩ := h
    obtain ⟨m', hm'⟩ := hmore
    rw [at?_required hm (ofDeclarator?_none hclimb)] at hat
    cases hat
    exact ⟨p, hp, _, at?_required hm' (ofDeclarator?_none hclimb), hstart, hstop⟩
  | some found =>
    obtain ⟨q, d, hq, hdecl, hd, hr, -⟩ := declarator?_of_requires wf.tiled hp h hclimb
    have hbelongs : BelongsTo source modules d r := ⟨p, hr, h, hat⟩
    rcases (hbelongs.cases wf flat hq hdecl hd).2 with ⟨hall, hspan⟩ | ⟨-, hcut⟩
    · obtain ⟨r', hat', -, hspan'⟩ := at?_below wf flat hq hdecl hd hr hmore
      rcases hspan' with ⟨-, hspan'⟩ | ⟨⟨e, he, hstays⟩, -⟩
      · rw [← hspan, Prod.mk.injEq] at hspan'
        exact ⟨p, hp, r', hat', by omega, by omega⟩
      · exact absurd ((hall e he).mono hsub) hstays
    · have herased := hcut.erased (hq.wellFormed wf) ⟨p, hr, h⟩ hstart hstop
      exact goesIn_of_erased wf flat hq hdecl hd hr hmore
        (herased.mono fun _ hdoomed => hdoomed.mono hsub)

/-- Any match, with more modules tracked. -/
theorem GoesIn.mono (wf : root.WellFormed source) (flat : root.Flat) (hsub : modules ⊆ more)
    (h : GoesIn source modules root b) : GoesIn source more root b := by
  obtain ⟨p, hp, r, hat, hstart, hstop⟩ := h
  rcases at?_cases wf hp with ⟨r', hat', hasks, -⟩ | ⟨hat', -⟩
  · rw [hat] at hat'
    cases hat'
    obtain ⟨reason, module?, start, stop⟩ := r
    cases hasks with
    | imported hm =>
      obtain ⟨m', hm'⟩ := Shape.importOf?_mono hsub hm
      rw [at?_imported hm] at hat
      cases hat
      exact ⟨p, hp, _, at?_imported hm', hstart, hstop⟩
    | required hm => exact goesIn_of_requires wf flat hsub hp ⟨_, hm⟩ hat hstart hstop
    | assigned ha =>
      rw [at?_assigned ha] at hat
      cases hat
      exact ⟨p, hp, _, at?_assigned ha, hstart, hstop⟩
  · rw [hat] at hat'
    cases hat'

end Removal

namespace Stripper

/-- Of two strippers for the same file, the one that tracks more modules takes away all that the
other one takes away. -/
theorem strip_monotone (s t : Stripper) (root : Node) (code path : String)
    (wf : root.WellFormed code.toList) (hclean : root.hasError = false) (flat : root.Flat)
    (hs : s.filter.isEligible path.toList = true) (ht : t.filter.isEligible path.toList = true)
    (hsub : s.settings.modules ⊆ t.settings.modules) :
    ∃ fewer more,
      s.stripWith (checkTree root) code path = .ok (some fewer) ∧
      t.stripWith (checkTree root) code path = .ok (some more) ∧
      Text.Utf8.encode fewer.code.toList =
        Text.survivors (Removal.gone fewer.removals) (Text.Utf8.encode code.toList) ∧
      Text.Utf8.encode more.code.toList =
        Text.survivors (Removal.gone more.removals) (Text.Utf8.encode code.toList) ∧
      ∀ b, Removal.gone fewer.removals b = true → Removal.gone more.removals b = true := by
  obtain ⟨found, hfind, -⟩ := Removal.find_ok s.settings.modules wf
  obtain ⟨found', hfind', -⟩ := Removal.find_ok t.settings.modules wf
  obtain ⟨fewer, hfewer, hremovals, hcode, -⟩ := stripTree_ok s code path wf.tiled hfind
  obtain ⟨more, hmore, hremovals', hcode', -⟩ := stripTree_ok t code path wf.tiled hfind'
  rw [← hremovals] at hfind hcode
  rw [← hremovals'] at hfind' hcode'
  refine ⟨fewer, more, stripWith_checkTree s hclean hs hfewer,
    stripWith_checkTree t hclean ht hmore, hcode, hcode', fun b hb => ?_⟩
  rw [Removal.gone_iff hfind] at hb
  rw [Removal.gone_iff hfind']
  exact hb.mono wf flat hsub

/-- Two declarators with a require each. -/
def pairText : String := "let a=require(\"p\"),b=require(\"q\")"

def pair : Node :=
  .branch .program 0 33 [.branch .lexicalDeclaration 0 33 [
    .token (.other "let") 0 3,
    .branch .variableDeclarator 4 18 [
      .branch .identifier 4 5 [], .token (.other "=") 5 6, Removal.requireAt 6],
    .token (.other ",") 18 19,
    .branch .variableDeclarator 19 33 [
      .branch .identifier 19 20 [], .token (.other "=") 20 21, Removal.requireAt 21]]]

/-- The second module turns the removal of a declarator into that of the statement. -/
theorem strip_monotone_pair :
    ∃ fewer more,
      (⟨"strip", ⟨[], [], ["p"], false⟩, ⟨[], []⟩⟩ : Stripper).stripWith (checkTree pair) pairText
        "a.jsx" = .ok (some fewer) ∧
      (⟨"strip", ⟨[], [], ["q", "p"], false⟩, ⟨[], []⟩⟩ : Stripper).stripWith (checkTree pair)
        pairText "a.jsx" = .ok (some more) ∧
      fewer.removals.map (fun r => (r.start, r.stop)) = [(4, 19)] ∧
      more.removals.map (fun r => (r.start, r.stop)) = [(0, 33), (0, 33)] ∧
      ∀ b, Removal.gone fewer.removals b = true → Removal.gone more.removals b = true := by
  obtain ⟨fewer, more, hfewer, hmore, -, -, hgone⟩ := strip_monotone
    ⟨"strip", ⟨[], [], ["p"], false⟩, ⟨[], []⟩⟩ ⟨"strip", ⟨[], [], ["q", "p"], false⟩, ⟨[], []⟩⟩
    pair pairText "a.jsx" (by decide) rfl (Node.flat_of_forall (by decide)) rfl rfl (by decide)
  refine ⟨fewer, more, hfewer, hmore, ?_, ?_, hgone⟩
  · cases hfewer
    rfl
  · cases hmore
    rfl

end Stripper
end PropShear
