import PropShear.Proofs.Edit.Order
import PropShear.Proofs.Outcome.Map

/-! What the status of an outcome says of its code.

Every span that a stripper reports costs the text at least one character (`length_keptFrom`), and
without a span the text stays as it is. So texts only get shorter from one stripper to the next, by
no less than the number of spans (`Shrinks`), and what one stripper has deleted no later one brings
back. That makes the count of an outcome, its status and its two texts tell the same
(`ofFile_status`). -/
namespace PropShear

/-! ### What spans cost -/

namespace Editor

theorem keptFrom_sublist (spans : List Span) (i : Nat) (text : List Char) :
    (keptFrom spans i text).Sublist text := by
  induction text generalizing i with
  | nil => exact .slnil
  | cons c rest ih =>
    rw [keptFrom]
    split
    · exact (ih (i + 1)).cons c
    · exact (ih (i + 1)).cons_cons c

/-- What is kept and the indices that are covered make up the text. -/
theorem length_keptFrom_add (spans : List Span) (i : Nat) (text : List Char) :
    (keptFrom spans i text).length +
      ((List.range' i text.length).filter (Span.covers spans)).length = text.length := by
  induction text generalizing i with
  | nil => rfl
  | cons c rest ih =>
    have hrest := ih (i + 1)
    rw [keptFrom, List.length_cons, List.range'_succ, List.filter_cons]
    split
    · rw [List.length_cons]
      omega
    · rw [List.length_cons]
      omega

/-- Spans apart from each other cost at least a character each: the one they start with. -/
theorem length_keptFrom {spans : List Span} {text : List Char} (h : Span.Canonical spans)
    (hinside : ∀ s ∈ spans, s.stop ≤ text.length) :
    (keptFrom spans 0 text).length + spans.length ≤ text.length := by
  have hnodup : (spans.map Span.start).Nodup :=
    List.pairwise_map.mpr (h.pairwise_precedes.imp Nat.ne_of_lt)
  have hcovered : spans.map Span.start ⊆
      (List.range' 0 text.length).filter (Span.covers spans) := by
    intro i hi
    obtain ⟨s, hs, rfl⟩ := List.mem_map.mp hi
    have hne := h.nonempty s hs
    have hstop := hinside s hs
    refine List.mem_filter.mpr ⟨List.mem_range'_1.mpr (by omega), ?_⟩
    exact Span.covers_iff.mpr ⟨s, hs, Nat.le_refl _, hne⟩
  have hcount := (List.subperm_of_subset hnodup hcovered).length_le
  rw [List.length_map] at hcount
  have hall := length_keptFrom_add spans 0 text
  omega

end Editor

/-! ### Texts that get shorter -/

/-- At least so many characters of a text were deleted, and nothing else was done to it; if the
number is zero nothing was done at all. -/
structure Shrinks (count : Nat) (before after : List Char) : Prop where
  sublist : after.Sublist before
  length : after.length + count ≤ before.length
  same : count = 0 → after = before

namespace Shrinks

variable {m n : Nat} {a b c : List Char}

theorem refl (a : List Char) : Shrinks 0 a a := ⟨.refl a, Nat.le_refl _, fun _ => rfl⟩

theorem trans (h : Shrinks m a b) (h' : Shrinks n b c) : Shrinks (m + n) a c where
  sublist := h'.sublist.trans h.sublist
  length := by
    have := h.length
    have := h'.length
    omega
  same hzero := by
    rw [Nat.add_eq_zero_iff] at hzero
    rw [h'.same hzero.2, h.same hzero.1]

/-- Whatever is deleted later, the text stays shorter than it was. -/
theorem pos_iff (h : Shrinks n a b) : 0 < n ↔ b ≠ a := by
  constructor
  · rintro hpos rfl
    have := h.length
    omega
  · intro hne
    exact Nat.pos_of_ne_zero fun hzero => hne (h.same hzero)

end Shrinks

/-! ### Strippers -/

theorem Stripper.stripWith_shrinks {s : Stripper} {parse : Parser} {code id : String}
    {made : Stripped} (h : s.stripWith parse code id = .ok (some made)) :
    Shrinks made.removed.length code.toList made.code.toList := by
  obtain ⟨removals, e, hedited, rfl⟩ := stripWith_cases h
  rw [edited_eq_calls] at hedited
  have htext := (Editor.calls_records hedited).sameText
  have hsize : e.size = code.toList.length := congrArg List.length htext
  dsimp only
  rw [String.toList_ofList, Editor.result_eq, htext]
  refine ⟨Editor.keptFrom_sublist _ _ _, ?_, fun hzero => ?_⟩
  · refine Editor.length_keptFrom e.removed_canonical fun span hspan => ?_
    exact hsize ▸ Editor.stop_le_of_mem_removed hspan
  · rw [List.eq_nil_of_length_eq_zero hzero]
    exact Editor.keptFrom_of_free fun j _ _ => Span.covers_nil j

namespace Outcome

/-- What strippers count, on top of what was counted before, they have deleted. -/
theorem runStrippers_shrinks {parse : Parser} {path : Path} {id : String}
    {strippers : List Stripper} {p last : Progress}
    (h : runStrippers parse path id strippers p = (last, none)) :
    ∃ n, last.removed = p.removed + n ∧ Shrinks n p.code.toList last.code.toList := by
  induction strippers generalizing p with
  | nil =>
    cases h
    exact ⟨0, rfl, .refl _⟩
  | cons s rest ih =>
    unfold runStrippers at h
    cases hstrip : s.stripWith parse p.code id with
    | error e =>
      rw [hstrip] at h
      cases h
    | ok result =>
      rw [hstrip] at h
      cases result with
      | none => exact ih h
      | some made =>
        obtain ⟨n, hcount, hshrinks⟩ := ih h
        refine ⟨made.removed.length + n, ?_, (Stripper.stripWith_shrinks hstrip).trans hshrinks⟩
        rw [hcount, ← Nat.add_assoc]
        rfl

/-- Strippers that do not find a file eligible leave its text alone. -/
theorem code_of_skips {parse : Parser} {path : Path} {id : String} {strippers : List Stripper}
    {p last : Progress} (h : runStrippers parse path id strippers p = (last, none))
    (hskip : ∀ s ∈ strippers, s.filter.isEligible id.toList = false) : last.code = p.code := by
  induction strippers with
  | nil =>
    cases h
    rfl
  | cons s rest ih =>
    rw [List.forall_mem_cons] at hskip
    have hnone : s.stripWith parse p.code id = .ok none := by
      rw [Stripper.stripWith, hskip.1]
      rfl
    rw [runStrippers, hnone] at h
    exact ih h hskip.2

/-- If a file that no stripper found eligible keeps its text, the status of an outcome can be told
from the texts and from whether one did. -/
theorem status_finish_iff (path : Path) {source : String} {p : Progress}
    (hidle : p.touched = false → p.code = source) :
    ((finish path source p).status = .stripped ↔ p.code ≠ source) ∧
    ((finish path source p).status = .skipped ↔ p.touched = false) ∧
    ((finish path source p).status = .unchanged ↔ p.touched = true ∧ p.code = source) := by
  unfold finish
  cases htouched : p.touched with
  | false => simp [hidle htouched]
  | true => by_cases hcode : p.code = source <;> simp [hcode]

/-- **The status of an outcome tells the truth.** The code of a file that did not fail is its text
with at least as many characters deleted as the outcome counts removals. It is stripped exactly if
there are some, which is exactly if the texts differ; it is skipped exactly if no stripper finds it
eligible, and in all other cases it is unchanged. Trees have no links, so the id of a file is its
path with the dots collapsed. -/
theorem ofFile_status {parse : Parser} {strippers : List Stripper} {d : Disk} {path : Path}
    {o : Outcome} (h : (ofFile parse strippers d path).1 = .ok o) (hstatus : o.status ≠ .failed) :
    let eligible (s : Stripper) := s.filter.isEligible (d.resolve path).shown.toList
    d.readText path = .ok o.source ∧
    o.code.toList.Sublist o.source.toList ∧
    o.code.toList.length + o.removed ≤ o.source.toList.length ∧
    (o.status = .stripped ↔ 0 < o.removed) ∧ (0 < o.removed ↔ o.code ≠ o.source) ∧
    (o.status = .skipped ↔ ∀ s ∈ strippers, eligible s = false) ∧
    (o.status = .unchanged ↔ (∃ s ∈ strippers, eligible s = true) ∧ o.code = o.source) := by
  intro eligible
  rcases ofFile_eq_ok h with ⟨hfailed, -⟩ | ⟨source, last, hread, hrun, rfl⟩
  · exact absurd hfailed hstatus
  obtain ⟨n, hcount, hshrinks⟩ := runStrippers_shrinks hrun
  have hn : last.removed = n := by simpa using hcount
  have htouched : last.touched = strippers.any eligible :=
    touched_runStrippers path _ strippers _ hrun
  have hskips : last.touched = false ↔ ∀ s ∈ strippers, eligible s = false := by
    simp [htouched]
  have hworks : last.touched = true ↔ ∃ s ∈ strippers, eligible s = true := by
    simp [htouched]
  obtain ⟨hstripped, hskipped, hunchanged⟩ := status_finish_iff path fun hidle =>
    code_of_skips hrun (hskips.mp hidle)
  have hlength : last.code.toList.length + last.removed ≤ source.toList.length := by
    rw [hn]
    exact hshrinks.length
  have hdiffers : 0 < last.removed ↔ last.code ≠ source := by
    rw [hn, hshrinks.pos_iff, ne_eq, ne_eq, String.toList_inj]
  exact ⟨hread, hshrinks.sublist, hlength, hstripped.trans hdiffers.symm, hdiffers,
    hskipped.trans hskips, hunchanged.trans (and_congr_left' hworks)⟩

/-- Two strippers find one import each, of which the second stands in what the first has left. -/
theorem ofFile_status_both : ∃ o,
    (ofFile parseSource [.tracking "p", .tracking "q"] importsDisk ⟨0, ["a.jsx".toList]⟩).1 = .ok o ∧
      o.status ≠ .failed ∧ o.removed = 2 ∧ o.code.toList.length + 2 ≤ o.source.toList.length ∧
      o.status = .stripped ∧ o.code ≠ o.source := by
  obtain ⟨o, ho, hfacts⟩ := exists_ok
    (x := (ofFile parseSource [.tracking "p", .tracking "q"] importsDisk ⟨0, ["a.jsx".toList]⟩).1)
    (p := fun o => o.status ≠ .failed && o.removed = 2) (by decide +kernel)
  simp only [Bool.and_eq_true, decide_eq_true_eq] at hfacts
  obtain ⟨hstatus, hremoved⟩ := hfacts
  obtain ⟨-, -, hlength, hstripped, hdiffers, -⟩ := ofFile_status ho hstatus
  rw [hremoved] at hlength hstripped hdiffers
  exact ⟨o, ho, hstatus, hremoved, hlength, hstripped.mpr (by decide), hdiffers.mp (by decide)⟩

end Outcome
end PropShear
