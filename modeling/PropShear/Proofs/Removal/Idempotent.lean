import PropShear.Proofs.Removal.Remains

/-! Stripping a file twice.

A tree that is what remains after stripping has no match left, since each match was lost with the
child it stood in and no node that the shapes look into has lost anything (`find_remains`). So a
second run changes nothing if the parser finds in the result what remains of the tree
(`strip_twice`). It need not: a require that is the value of a `case` goes without the `case`, and
the result does not parse (`strip_dangles`). -/
namespace PropShear

variable {source : List Char} {modules : List Specifier} {removals : List Removal} {root root' : Node}

namespace Removal

theorem find_nil (h : ∀ p, (Place.root root).Within p → at? source modules p = .ok none) :
    find source modules root = .ok [] := by
  obtain ⟨found, hfound, hmap⟩ := mapM_succeeds (f := at? source modules) (l := root.places)
    fun p hp => ⟨none, h p (Node.mem_places.mp hp)⟩
  have hnone : ∀ r? ∈ found, id r? = none := by
    intro r? hr
    have hmem : (.ok r? : Except Fault _) ∈ root.places.map (at? source modules) :=
      hmap ▸ List.mem_map_of_mem hr
    obtain ⟨p, hp, hat⟩ := List.mem_map.mp hmem
    rw [h p (Node.mem_places.mp hp)] at hat
    cases hat
    rfl
  rw [find, hfound]
  exact congrArg Except.ok (List.filterMap_eq_nil_iff.mpr hnone)

/-- Nothing is found in what remains. -/
theorem find_remains {spans : List Span} (wf : root.WellFormed source)
    (hroot : root.kind.isContainer = true) (plain : ∀ n ∈ root.preorder, n.Plain)
    (hfind : find source modules root = .ok removals)
    (hcovers : ∀ i, Span.covers spans i = true ↔ Takes source removals i)
    (h : remains removals root root' = true) :
    find (Editor.keptFrom spans 0 source) modules root' = .ok [] := by
  have mirror := mirrors_left wf hroot plain hfind hcovers
  apply find_nil
  intro p' hp'
  obtain ⟨n, hleft⟩ := left_of_within h hp'
  obtain ⟨p, hp, rfl, -⟩ := id hleft
  obtain ⟨himport, hrequire, hassign⟩ :=
    reads_none (hp.within.wellFormed wf) (hp.not_asks wf hroot hfind)
  apply at?_unread
  · rw [mirror.importOf?_eq hleft, himport]
  · rw [mirror.requireOf?_eq hleft, hrequire]
  · rw [mirror.assigns_eq hleft, hassign]

end Removal

namespace Stripper

theorem stripTree_of_find_nil (s : Stripper) {code : String} (path : String)
    (hfind : Removal.find code.toList s.settings.modules root = .ok []) :
    ∃ stripped, s.stripTree root code path = .ok stripped ∧ stripped.code = code ∧
      stripped.removals = [] ∧ stripped.removed = [] := by
  have hremoved : (Editor.ofText code.toList).removed = [] := by
    simp [Editor.removed, Editor.ofText, Span.merge]
  refine ⟨_, stripTree_eq s hfind rfl, ?_, rfl, hremoved⟩
  rw [Editor.result_eq, hremoved, Editor.keptFrom_of_free fun _ _ _ => rfl]
  exact String.ofList_toList

/-- Stripping an eligible file with a well-formed tree never fails, and stripping the result
changes nothing, if the parser takes the result and finds in it what remains of the tree. -/
theorem strip_twice (s : Stripper) (parse : Parser)
    (code path : String) (root : Node) (heligible : s.filter.isEligible path.toList = true)
    (hparse : parse path code.toList = .ok root) (wf : root.WellFormed code.toList)
    (hroot : root.kind.isContainer = true) (plain : ∀ n ∈ root.preorder, n.Plain) :
    ∃ stripped, s.stripWith parse code path = .ok (some stripped) ∧
      ∀ root', parse path stripped.code.toList = .ok root' →
        Removal.remains stripped.removals root root' = true →
        ∃ again, s.stripWith parse stripped.code path = .ok (some again) ∧
          again.code = stripped.code ∧ again.removals = [] ∧ again.removed = [] := by
  obtain ⟨found, hfind, -⟩ := Removal.find_ok s.settings.modules wf
  obtain ⟨e, hrun, htext, hcovers⟩ := edited_find s.settings.sourceMap wf.tiled hfind
  refine ⟨_, stripWith_eq s heligible hparse (stripTree_eq s hfind hrun), ?_⟩
  intro root' hparse' hremains
  have hnone : Removal.find (String.ofList e.result).toList s.settings.modules root' = .ok [] := by
    rw [String.toList_ofList, Editor.result_eq, htext]
    exact Removal.find_remains wf hroot plain hfind hcovers hremains
  obtain ⟨again, hagain, hkeeps⟩ := stripTree_of_find_nil s path hnone
  exact ⟨again, stripWith_eq s heligible hparse' hagain, hkeeps⟩

/-- The text `class A{b=require('p');c}`. -/
def memberText : String := "class A\x7bb=require('p');c\x7d"

/-- A class member goes with its semicolon, and the class that is left parses as what remains. -/
theorem strip_twice_member :
    ∃ stripped again,
      (tracking "p").stripWith parseSource memberText "a.jsx" = .ok (some stripped) ∧
      stripped.code = "class A\x7bc\x7d" ∧
      (tracking "p").stripWith parseSource stripped.code "a.jsx" = .ok (some again) ∧
      again.code = stripped.code ∧ again.removals = [] ∧ again.removed = [] := by
  obtain ⟨root, hparse, hroot⟩ := exists_ok (x := parseSource "a.jsx" memberText.toList)
    (p := fun root => decide (root.WellFormed memberText.toList ∧ root.kind.isContainer = true ∧
      ∀ n ∈ root.preorder, n.Plain) &&
      ((tracking "p").stripTree root memberText "a.jsx").toOption.any fun t =>
        t.code == "class A\x7bc\x7d" && (parseSource "a.jsx" "class A\x7bc\x7d".toList).toOption.any
          (Removal.remains t.removals root)) (by decide +kernel)
  rw [Bool.and_eq_true, decide_eq_true_eq] at hroot
  obtain ⟨⟨wf, hcontainer, plain⟩, hleft⟩ := hroot
  obtain ⟨stripped, hstrip, hleft⟩ := exists_ok hleft
  rw [Bool.and_eq_true, beq_iff_eq] at hleft
  obtain ⟨hcode, hleft⟩ := hleft
  obtain ⟨root', hparse', hremains⟩ := exists_ok hleft
  have hfirst := stripWith_eq (tracking "p") rfl hparse hstrip
  obtain ⟨_, hsame, htwice⟩ := strip_twice (tracking "p") parseSource _ "a.jsx" root rfl hparse wf
    hcontainer plain
  rw [hfirst] at hsame
  cases hsame
  obtain ⟨again, hagain⟩ := htwice root' (hcode ▸ hparse') hremains
  exact ⟨stripped, again, hfirst, hcode, hagain⟩

/-- The text `switch (x) { case require('prop-types'): f(); }`. -/
def caseText : String := "switch (x) \x7b case require('prop-types'): f(); \x7d"

/-- A case loses the value it compares with, and what is left does not parse. -/
theorem strip_dangles :
    ∃ stripped error,
      (tracking "prop-types").strip caseText "a.jsx" = .ok (some stripped) ∧
      stripped.code = "switch (x) \x7b case : f(); \x7d" ∧
      (tracking "prop-types").strip stripped.code "a.jsx" = .error (.syntaxError error) := by
  obtain ⟨stripped?, hstrip, hcode⟩ := exists_ok
    (x := (tracking "prop-types").strip caseText "a.jsx")
    (p := fun t => t.any (·.code == "switch (x) \x7b case : f(); \x7d")) (by decide +kernel)
  cases stripped? with
  | none => cases hcode
  | some stripped =>
    have hcode : stripped.code = "switch (x) \x7b case : f(); \x7d" := beq_iff_eq.mp hcode
    obtain ⟨error, hparse⟩ := exists_error (x := parseSource "a.jsx" stripped.code.toList) (by
      rw [hcode]
      decide +kernel)
    exact ⟨stripped, error, hstrip, hcode, stripWith_error (tracking "prop-types") rfl hparse⟩

end Stripper
end PropShear
