import PropShear.Edit.Editor
import PropShear.Proofs.Except

/-! The canonical form of deleted spans.

A list of spans is canonical if none of them is empty and each ends before the next one starts, with
a gap between. Such a list is determined by the indices it covers: its spans are the maximal runs of
them (`Canonical.mem_iff_isRun`). Merging gives a canonical list (`merge_canonical`) that covers the
same indices (`covers_merge`). -/
namespace PropShear
namespace Span

structure Canonical (spans : List Span) : Prop where
  nonempty : ∀ s ∈ spans, s.start < s.stop
  apart : spans.Pairwise fun s t => s.stop < t.start

/-- The span is a maximal run of a set of indices. -/
structure IsRun (D : Nat → Prop) (s : Span) : Prop where
  nonempty : s.start < s.stop
  inside : ∀ i, s.start ≤ i → i < s.stop → D i
  before : ∀ i, i + 1 = s.start → ¬ D i
  after : ¬ D s.stop

theorem contains_iff {s : Span} {i : Nat} : s.contains i = true ↔ s.start ≤ i ∧ i < s.stop := by
  simp [contains]

theorem covers_iff {spans : List Span} {i : Nat} :
    covers spans i = true ↔ ∃ s ∈ spans, s.start ≤ i ∧ i < s.stop := by
  simp [covers, contains_iff]

@[simp] theorem covers_nil (i : Nat) : covers [] i = false := rfl

@[simp] theorem covers_cons (s : Span) (spans : List Span) (i : Nat) :
    covers (s :: spans) i = (s.contains i || covers spans i) := rfl

/-! ### Runs -/

theorem Canonical.eq_or_apart {spans : List Span} (h : Canonical spans) {s t : Span}
    (hs : s ∈ spans) (ht : t ∈ spans) : s = t ∨ s.stop < t.start ∨ t.stop < s.start := by
  obtain ⟨i, hi, rfl⟩ := List.getElem_of_mem hs
  obtain ⟨j, hj, rfl⟩ := List.getElem_of_mem ht
  rcases Nat.lt_trichotomy i j with hlt | rfl | hlt
  · exact .inr (.inl (List.pairwise_iff_getElem.mp h.apart i j hi hj hlt))
  · exact .inl rfl
  · exact .inr (.inr (List.pairwise_iff_getElem.mp h.apart j i hj hi hlt))

theorem Canonical.isRun {spans : List Span} (h : Canonical spans) {s : Span} (hs : s ∈ spans) :
    IsRun (fun i => covers spans i = true) s := by
  have hne := h.nonempty s hs
  refine ⟨hne, fun i hi hlt => covers_iff.mpr ⟨s, hs, hi, hlt⟩, fun i hi hcov => ?_,
    fun hcov => ?_⟩
  all_goals
    obtain ⟨t, ht, hstart, hstop⟩ := covers_iff.mp hcov
    rcases h.eq_or_apart hs ht with rfl | hlt | hlt <;> omega

/-- The spans of a canonical list are the maximal runs of the indices it covers. -/
theorem Canonical.mem_iff_isRun {spans : List Span} (h : Canonical spans) {s : Span} :
    s ∈ spans ↔ IsRun (fun i => covers spans i = true) s := by
  refine ⟨h.isRun, fun hrun => ?_⟩
  obtain ⟨t, ht, hstart, hstop⟩ :=
    covers_iff.mp (hrun.inside s.start (Nat.le_refl _) hrun.nonempty)
  have htrun := h.isRun ht
  have hne := hrun.nonempty
  -- the span of the list that holds the first index of the run has the same two ends
  have hfirst : t.start = s.start := by
    rcases Nat.lt_or_ge t.start s.start with hlt | hge
    · exact absurd (htrun.inside (s.start - 1) (by omega) (by omega))
        (hrun.before (s.start - 1) (by omega))
    · omega
  have hlast : t.stop = s.stop := by
    rcases Nat.lt_trichotomy t.stop s.stop with hlt | heq | hlt
    · exact absurd (hrun.inside t.stop (by omega) hlt) htrun.after
    · exact heq
    · exact absurd (htrun.inside s.stop (by omega) hlt) hrun.after
  have hst : s = t := by
    cases s
    cases t
    simp_all
  rw [hst]
  exact ht

/-! ### Merging -/

theorem contains_join {s t : Span} (hst : s.start ≤ t.start) (hts : t.start ≤ s.stop) (i : Nat) :
    (⟨s.start, max s.stop t.stop⟩ : Span).contains i = (s.contains i || t.contains i) := by
  rw [Bool.eq_iff_iff, Bool.or_eq_true, contains_iff, contains_iff, contains_iff]
  dsimp only
  omega

/-- One pass over sorted spans covers what they cover. -/
theorem covers_mergeSorted (current : Span) (rest : List Span) (i : Nat)
    (hfirst : ∀ s ∈ rest, current.start ≤ s.start)
    (hsorted : rest.Pairwise fun s t => s.start ≤ t.start) :
    covers (mergeSorted current rest) i = (current.contains i || covers rest i) := by
  induction rest generalizing current with
  | nil => rfl
  | cons s rest ih =>
    have hs := hfirst s List.mem_cons_self
    rw [List.pairwise_cons] at hsorted
    rw [mergeSorted, covers_cons]
    split
    · next htouch =>
      rw [ih ⟨current.start, max current.stop s.stop⟩
        (fun t ht => hfirst t (List.mem_cons_of_mem _ ht)) hsorted.2,
        contains_join hs htouch, Bool.or_assoc]
    · rw [covers_cons, ih s hsorted.1 hsorted.2]

/-- One pass over sorted spans leaves a gap between any two of the results, none of which starts
before the first. -/
theorem mergeSorted_canonical (current : Span) (rest : List Span)
    (hcurrent : current.start < current.stop) (hne : ∀ s ∈ rest, s.start < s.stop)
    (hfirst : ∀ s ∈ rest, current.start ≤ s.start)
    (hsorted : rest.Pairwise fun s t => s.start ≤ t.start) :
    Canonical (mergeSorted current rest) ∧
      ∀ s ∈ mergeSorted current rest, current.start ≤ s.start := by
  induction rest generalizing current with
  | nil =>
    rw [mergeSorted]
    refine ⟨⟨fun s hs => ?_, List.pairwise_singleton ..⟩, fun s hs => ?_⟩
    · obtain rfl := List.mem_singleton.mp hs
      exact hcurrent
    · obtain rfl := List.mem_singleton.mp hs
      exact Nat.le_refl _
  | cons s rest ih =>
    have hs := hne s List.mem_cons_self
    have hrest : ∀ t ∈ rest, t.start < t.stop := fun t ht => hne t (List.mem_cons_of_mem _ ht)
    rw [List.pairwise_cons] at hsorted
    rw [mergeSorted]
    split
    · exact ih ⟨current.start, max current.stop s.stop⟩ (by simp only; omega) hrest
        (fun t ht => hfirst t (List.mem_cons_of_mem _ ht)) hsorted.2
    · next hgap =>
      obtain ⟨hcanonical, hstarts⟩ := ih s hs hrest hsorted.1 hsorted.2
      refine ⟨⟨fun t ht => ?_, List.pairwise_cons.mpr ⟨fun t ht => ?_, hcanonical.apart⟩⟩,
        fun t ht => ?_⟩
      · rcases List.mem_cons.mp ht with rfl | ht
        · exact hcurrent
        · exact hcanonical.nonempty t ht
      · have := hstarts t ht
        omega
      · rcases List.mem_cons.mp ht with rfl | ht
        · exact Nat.le_refl _
        · have := hstarts t ht
          have := hfirst s List.mem_cons_self
          omega

theorem before_iff {s t : Span} : before s t = true ↔
    s.start < t.start ∨ s.start = t.start ∧ s.stop ≤ t.stop := by
  simp [before]

theorem mergeSort_sorted (spans : List Span) :
    (spans.mergeSort before).Pairwise fun s t => s.start ≤ t.start := by
  have htrans : ∀ a b c : Span, before a b → before b c → before a c := by
    intro a b c hab hbc
    rw [before_iff] at *
    omega
  have htotal : ∀ a b : Span, (before a b || before b a) = true := by
    intro a b
    rw [Bool.or_eq_true, before_iff, before_iff]
    omega
  refine (List.pairwise_mergeSort htrans htotal spans).imp fun h => ?_
  rw [before_iff] at h
  omega

theorem covers_mergeSort (spans : List Span) (i : Nat) :
    covers (spans.mergeSort before) i = covers spans i := by
  rw [Bool.eq_iff_iff, covers_iff, covers_iff]
  simp only [List.mem_mergeSort]

/-- Merging changes nothing about what is covered. -/
theorem covers_merge (spans : List Span) (i : Nat) : covers (merge spans) i = covers spans i := by
  rw [← covers_mergeSort spans i]
  have hsorted := mergeSort_sorted spans
  unfold merge
  cases h : spans.mergeSort before with
  | nil => rfl
  | cons s rest =>
    rw [h, List.pairwise_cons] at hsorted
    exact covers_mergeSorted s rest i hsorted.1 hsorted.2

theorem merge_canonical {spans : List Span} (hne : ∀ s ∈ spans, s.start < s.stop) :
    Canonical (merge spans) := by
  have hsorted := mergeSort_sorted spans
  have hne : ∀ s ∈ spans.mergeSort before, s.start < s.stop :=
    fun s hs => hne s (List.mem_mergeSort.mp hs)
  unfold merge
  cases h : spans.mergeSort before with
  | nil => exact ⟨List.forall_mem_nil _, List.Pairwise.nil⟩
  | cons s rest =>
    rw [h] at hsorted hne
    rw [List.pairwise_cons] at hsorted
    exact (mergeSorted_canonical s rest (hne s List.mem_cons_self)
      (fun t ht => hne t (List.mem_cons_of_mem _ ht)) hsorted.1 hsorted.2).1

/-- Joining spans makes no new ends. -/
theorem mergeSorted_ends (current : Span) (rest : List Span) :
    ∀ s ∈ mergeSorted current rest, (∃ t ∈ current :: rest, t.start = s.start) ∧
      ∃ t ∈ current :: rest, t.stop = s.stop := by
  induction rest generalizing current with
  | nil =>
    intro s hs
    exact ⟨⟨s, hs, rfl⟩, s, hs, rfl⟩
  | cons next rest ih =>
    intro s hs
    rw [mergeSorted] at hs
    split at hs
    · obtain ⟨⟨t, ht, hstart⟩, u, hu, hstop⟩ := ih _ s hs
      constructor
      · rcases List.mem_cons.mp ht with rfl | ht
        · exact ⟨current, by simp, hstart⟩
        · exact ⟨t, by simp [ht], hstart⟩
      · rcases List.mem_cons.mp hu with rfl | hu
        · dsimp only at hstop
          rcases Nat.le_total current.stop next.stop with hle | hle
          · exact ⟨next, by simp, by omega⟩
          · exact ⟨current, by simp, by omega⟩
        · exact ⟨u, by simp [hu], hstop⟩
    · rcases List.mem_cons.mp hs with rfl | hs
      · exact ⟨⟨s, List.mem_cons_self, rfl⟩, s, List.mem_cons_self, rfl⟩
      · obtain ⟨⟨t, ht, hstart⟩, u, hu, hstop⟩ := ih _ s hs
        exact ⟨⟨t, List.mem_cons_of_mem _ ht, hstart⟩, u, List.mem_cons_of_mem _ hu, hstop⟩

theorem merge_ends {spans : List Span} {s : Span} (h : s ∈ merge spans) :
    (∃ t ∈ spans, t.start = s.start) ∧ ∃ t ∈ spans, t.stop = s.stop := by
  unfold merge at h
  split at h
  · cases h
  · next first rest hsorted =>
    obtain ⟨⟨t, ht, hstart⟩, u, hu, hstop⟩ := mergeSorted_ends first rest s h
    rw [← hsorted] at ht hu
    exact ⟨⟨t, List.mem_mergeSort.mp ht, hstart⟩, u, List.mem_mergeSort.mp hu, hstop⟩

end Span

namespace Editor

/-! ### What is kept -/

/-- The characters that no span covers; the first one has index `i`. -/
def keptFrom (spans : List Span) (i : Nat) : List Char → List Char
  | [] => []
  | c :: rest =>
    if Span.covers spans i then keptFrom spans (i + 1) rest else c :: keptFrom spans (i + 1) rest

theorem keptFrom_append (spans : List Span) (i : Nat) (s t : List Char) :
    keptFrom spans i (s ++ t) = keptFrom spans i s ++ keptFrom spans (i + s.length) t := by
  induction s generalizing i with
  | nil => rfl
  | cons c rest ih =>
    rw [List.cons_append, keptFrom, keptFrom, ih, List.length_cons, Nat.add_right_comm,
      Nat.add_assoc]
    split <;> rfl

/-- A stretch of text that no span covers is kept as it is. -/
theorem keptFrom_of_free {spans : List Span} {i : Nat} {s : List Char}
    (h : ∀ j, i ≤ j → j < i + s.length → Span.covers spans j = false) :
    keptFrom spans i s = s := by
  induction s generalizing i with
  | nil => rfl
  | cons c rest ih =>
    have hfirst := h i (Nat.le_refl _) (by simp)
    have hrest : keptFrom spans (i + 1) rest = rest :=
      ih fun j hle hlt => h j (by omega) (by simp only [List.length_cons]; omega)
    rw [keptFrom, hfirst, hrest]
    rfl

/-- Nothing is kept of a stretch of text that is covered. -/
theorem keptFrom_of_covered {spans : List Span} {i : Nat} {s : List Char}
    (h : ∀ j, i ≤ j → j < i + s.length → Span.covers spans j = true) :
    keptFrom spans i s = [] := by
  induction s generalizing i with
  | nil => rfl
  | cons c rest ih =>
    have hfirst := h i (Nat.le_refl _) (by simp)
    have hrest : keptFrom spans (i + 1) rest = [] :=
      ih fun j hle hlt => h j (by omega) (by simp only [List.length_cons]; omega)
    rw [keptFrom, hfirst, hrest]
    rfl

theorem removed_canonical (e : Editor) : Span.Canonical e.removed :=
  Span.merge_canonical fun s hs => (e.inside s hs).1

theorem stop_le_of_mem_removed {e : Editor} {s : Span} (h : s ∈ e.removed) : s.stop ≤ e.size := by
  obtain ⟨-, t, ht, hstop⟩ := Span.merge_ends h
  exact hstop ▸ (e.inside t ht).2

/-! ### Stretches -/

/-- The characters of the text from one offset up to another. -/
theorem drop_eq_append (e : Editor) {i k : Nat} (hik : i ≤ k) (hk : k ≤ e.size) :
    e.text.drop i = e.charsIn ⟨i, k⟩ ++ e.text.drop k := by
  have hlength : i ≤ (e.text.take k).length := by
    unfold size at hk
    rw [List.length_take]
    omega
  rw [charsIn, ← List.drop_append_of_le_length hlength, List.take_append_drop]

theorem length_charsIn (e : Editor) {i k : Nat} (hk : k ≤ e.size) :
    (e.charsIn ⟨i, k⟩).length = k - i := by
  unfold size at hk
  rw [charsIn, List.length_drop, List.length_take]
  dsimp only
  omega

/-- Spans that lie one after another in the text, from an offset on, and cover what is removed from
there on. -/
structure Covering (e : Editor) (offset : Nat) (spans : List Span) : Prop where
  canonical : Span.Canonical spans
  after : ∀ s ∈ spans, offset ≤ s.start
  inside : ∀ s ∈ spans, s.stop ≤ e.size
  le_size : offset ≤ e.size
  covers : ∀ j, offset ≤ j → Span.covers e.removed j = Span.covers spans j

theorem covering_removed (e : Editor) : e.Covering 0 e.removed where
  canonical := e.removed_canonical
  after _ _ := Nat.zero_le _
  inside _ := stop_le_of_mem_removed
  le_size := Nat.zero_le _
  covers _ _ := rfl

namespace Covering

variable {e : Editor} {offset : Nat} {s : Span} {rest : List Span}

/-- Behind the first span, the others cover what is removed. -/
theorem tail (h : e.Covering offset (s :: rest)) : e.Covering s.stop rest where
  canonical := ⟨fun t ht => h.canonical.nonempty t (List.mem_cons_of_mem _ ht),
    (List.pairwise_cons.mp h.canonical.apart).2⟩
  after t ht := Nat.le_of_lt ((List.pairwise_cons.mp h.canonical.apart).1 t ht)
  inside t ht := h.inside t (List.mem_cons_of_mem _ ht)
  le_size := h.inside s List.mem_cons_self
  covers j hj := by
    have hoffset := h.after s List.mem_cons_self
    have hne := h.canonical.nonempty s List.mem_cons_self
    have hs : s.contains j = false := by simp [Span.contains]; omega
    rw [h.covers j (by omega), Span.covers_cons, hs, Bool.false_or]

theorem covers_head (h : e.Covering offset (s :: rest)) {j : Nat} (hstart : s.start ≤ j)
    (hstop : j < s.stop) : Span.covers e.removed j = true := by
  have hoffset := h.after s List.mem_cons_self
  rw [h.covers j (by omega)]
  exact Span.covers_iff.mpr ⟨s, List.mem_cons_self, hstart, hstop⟩

/-- Nothing is removed before the first span. -/
theorem free (h : e.Covering offset (s :: rest)) {j : Nat} (hj : offset ≤ j) (hlt : j < s.start) :
    Span.covers e.removed j = false := by
  rw [h.covers j hj, ← Bool.not_eq_true, Span.covers_iff]
  rintro ⟨t, ht, hstart, -⟩
  have hne := h.canonical.nonempty s List.mem_cons_self
  rcases List.mem_cons.mp ht with rfl | ht
  · omega
  · have := (List.pairwise_cons.mp h.canonical.apart).1 t ht
    omega

theorem flatMap_gapsFrom {spans : List Span} (h : e.Covering offset spans) :
    (gapsFrom e.size offset spans).flatMap e.charsIn =
      keptFrom e.removed offset (e.text.drop offset) := by
  induction spans generalizing offset with
  | nil =>
    have hfree : keptFrom e.removed offset (e.text.drop offset) = e.text.drop offset :=
      keptFrom_of_free fun j hj _ => h.covers j hj
    rw [hfree, gapsFrom]
    split
    · rw [List.flatMap_singleton, charsIn, size, List.take_length]
    · exact (List.drop_eq_nil_of_le (by unfold size at *; omega)).symm
  | cons s rest ih =>
    have hoffset := h.after s List.mem_cons_self
    have hne := h.canonical.nonempty s List.mem_cons_self
    have hstop := h.inside s List.mem_cons_self
    have hgap : keptFrom e.removed offset (e.charsIn ⟨offset, s.start⟩) =
        e.charsIn ⟨offset, s.start⟩ := by
      refine keptFrom_of_free fun j hj hlt => h.free hj ?_
      rw [length_charsIn e (by omega)] at hlt
      omega
    have hgone : keptFrom e.removed s.start (e.charsIn s) = [] := by
      refine keptFrom_of_covered fun j hj hlt => h.covers_head hj ?_
      rw [length_charsIn e hstop] at hlt
      omega
    have hrest : keptFrom e.removed offset (e.text.drop offset) =
        e.charsIn ⟨offset, s.start⟩ ++ keptFrom e.removed s.stop (e.text.drop s.stop) := by
      have hfirst : offset + (e.charsIn ⟨offset, s.start⟩).length = s.start := by
        rw [length_charsIn e (by omega)]
        omega
      have hlast : s.start + (e.charsIn s).length = s.stop := by
        rw [length_charsIn e hstop]
        omega
      rw [drop_eq_append e hoffset (by omega), drop_eq_append e (Nat.le_of_lt hne) hstop,
        keptFrom_append, hgap, hfirst, keptFrom_append, hgone, hlast, List.nil_append]
    rw [hrest, ← ih h.tail, gapsFrom]
    split
    · rw [List.flatMap_cons]
    · have hnone : e.charsIn ⟨offset, s.start⟩ = [] := by
        rw [← List.length_eq_zero_iff, length_charsIn e (by omega)]
        omega
      rw [hnone, List.nil_append]

end Covering

/-- What is left are the characters that no deleted span covers. -/
theorem result_eq (e : Editor) : e.result = keptFrom e.removed 0 e.text := by
  have h := e.covering_removed.flatMap_gapsFrom
  rwa [List.drop_zero] at h

/-! ### Edits -/

section Edits

variable {x y : Edit Unit} {e e' : Editor}

theorem after_of_ok (h : x.run e = (.ok (), e')) : after x e = .ok e' := by
  unfold after
  rw [h]

theorem after_of_error {err : Error} (h : x.run e = (.error err, e')) :
    after x e = .error err := by
  unfold after
  rw [h]

theorem after_bind : after (do x; y) e = (after x e >>= after y) := by
  rcases hx : x.run e with ⟨err | _, last⟩
  · rw [after_of_error hx, after_of_error (run_bind_error hx)]
    rfl
  · rw [after_of_ok hx]
    show after _ e = after y last
    unfold after
    rw [run_bind_ok hx]

theorem after_cons {α : Type} (f : α → Edit Unit) (a : α) (rest : List α) :
    after ((a :: rest).forM f) e = (after (f a) e >>= after (rest.forM f)) := after_bind

theorem after_append {α : Type} (f : α → Edit Unit) (l k : List α) (e : Editor) :
    after ((l ++ k).forM f) e = (after (l.forM f) e >>= after (k.forM f)) := by
  induction l generalizing e with
  | nil => rfl
  | cons a rest ih =>
    rw [List.cons_append, after_cons, after_cons, bind_assoc]
    exact bind_congr ih

/-- An offset is accepted exactly if it is one of the text. -/
theorem run_accept (offset : Int) (e : Editor) : (accept offset).run e =
    (if 0 ≤ offset ∧ offset ≤ e.size then .ok offset.toNat
      else .error (.outOfBounds offset e.size), e) := by
  show (if 0 ≤ offset ∧ offset ≤ (e.size : Int) then pure offset.toNat
    else throw (.outOfBounds offset e.size) : Edit Nat).run e = _
  split
  · rfl
  · rfl

theorem run_accept_nat {k : Nat} (hk : k ≤ e.size) : (accept k).run e = (.ok k, e) := by
  rw [run_accept, if_pos (by omega), Int.toNat_natCast]

/-- Marking an offset of the text only adds it to the marks. -/
theorem run_mark {k : Nat} (hk : k ≤ e.size) : (mark k).run e = (.ok (), e.addMark k) :=
  run_bind_ok (run_accept_nat hk)

/-- Deleting a span of the text notes it unless it is empty. -/
theorem run_delete {i k : Nat} (hik : i ≤ k) (hk : k ≤ e.size) :
    (delete i k).run e = (.ok (), e.addSpan ⟨i, k⟩) := by
  unfold delete
  rw [run_bind_ok (run_accept_nat (by omega)), run_bind_ok (run_accept_nat hk),
    if_neg (by omega)]
  rfl

theorem deleted_addSpan {s : Span} (hs : s.stop ≤ e.size) :
    (e.addSpan s).deleted = e.deleted ++ [s].filter fun s => s.start < s.stop := by
  unfold addSpan
  by_cases hlt : s.start < s.stop
  · rw [dif_pos ⟨hlt, hs⟩, List.filter_cons, decide_eq_true hlt]
    rfl
  · rw [dif_neg fun h => hlt h.1, List.filter_cons, decide_eq_false hlt]
    simp

@[simp] theorem text_addSpan (e : Editor) (s : Span) : (e.addSpan s).text = e.text := by
  unfold addSpan
  split <;> rfl

@[simp] theorem marks_addSpan (e : Editor) (s : Span) : (e.addSpan s).marks = e.marks := by
  unfold addSpan
  split <;> rfl

@[simp] theorem size_addSpan (e : Editor) (s : Span) : (e.addSpan s).size = e.size := by
  rw [size, text_addSpan, size]

@[simp] theorem size_addMark (e : Editor) (o : Nat) : (e.addMark o).size = e.size := rfl

end Edits

end Editor
end PropShear
