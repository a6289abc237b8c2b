import Mathlib.Data.List.Sort
import PropShear.Proofs.Edit.Calls
import PropShear.Proofs.Edit.Trace

/-! Editors whose calls may fail.

A call fails exactly if it names an offset outside the text or its ends are reversed
(`run_fails_iff`), and then leaves the editor as it was (`run_of_not_accepted`). So an editor is in
the state that the accepted calls alone lead to (`calls_accepted`). What can be seen of that state
depends on two sets only, the indices deleted and the offsets marked, and neither on the order of
the calls nor on their number (`session_determined`). -/
namespace PropShear

namespace Span

/-- Spans in order, by their starts. -/
def Precedes (s t : Span) : Prop := s.start < t.start

instance : Std.Irrefl Precedes := ⟨fun s => Nat.lt_irrefl s.start⟩

instance : Std.Antisymm Precedes := ⟨fun _ _ h h' => absurd h (Nat.lt_asymm h')⟩

theorem Canonical.pairwise_precedes {spans : List Span} (h : Canonical spans) :
    spans.Pairwise Precedes := by
  refine h.apart.imp_of_mem fun {s t} hs _ hst => ?_
  have := h.nonempty s hs
  unfold Precedes
  omega

/-- A canonical list is determined by what it covers. -/
theorem Canonical.eq_of_covers {spans spans' : List Span} (h : Canonical spans)
    (h' : Canonical spans') (hcovers : ∀ i, covers spans i = covers spans' i) :
    spans = spans' := by
  refine h.pairwise_precedes.eq_of_mem_iff h'.pairwise_precedes fun s => ?_
  rw [h.mem_iff_isRun, h'.mem_iff_isRun, funext hcovers]

theorem merge_eq_nil {spans : List Span} (hne : ∀ s ∈ spans, s.start < s.stop) :
    merge spans = [] ↔ spans = [] := by
  constructor
  · intro h
    refine List.eq_nil_iff_forall_not_mem.mpr fun s hs => ?_
    have hcovers := covers_merge spans s.start
    rw [h, covers_nil] at hcovers
    exact absurd (covers_iff.mpr ⟨s, hs, Nat.le_refl _, hne s hs⟩) (by simp [← hcovers])
  · rintro rfl
    simp [merge]

end Span

namespace Editor

/-! ### Calls that are accepted -/

/-- What an editor is after a call, whether it fails or not. -/
def attempt (e : Editor) (c : Call) : Editor := (c.run.run e).2

/-- The editor of a text after calls that may have failed. -/
def session (text : List Char) (cs : List Call) : Editor := cs.foldl attempt (.ofText text)

/-- The index lies in the span that the call deletes. -/
def Call.covers : Call → Nat → Bool
  | delete start stop, i => start ≤ i && i < stop
  | mark _, _ => false

/-- The index lies in a span whose deletion is accepted. -/
def Erases (size : Nat) (cs : List Call) (i : Nat) : Prop :=
  ∃ c ∈ cs, c.Accepted size ∧ c.covers i = true

instance (size : Nat) (cs : List Call) (i : Nat) : Decidable (Erases size cs i) :=
  inferInstanceAs (Decidable (∃ c ∈ cs, c.Accepted size ∧ c.covers i = true))

/-- The offset is marked by a call that is accepted. -/
def Marks (size : Nat) (cs : List Call) (o : Nat) : Prop :=
  .mark o ∈ cs ∧ (Call.mark o).Accepted size

/-- Nothing that the editors give away tells them apart. -/
structure Agree (e e' : Editor) : Prop where
  result : e.result = e'.result
  hasChanged : e.hasChanged = e'.hasChanged
  removed : e.removed = e'.removed
  sourceMap : ∀ source file hires content,
    e.sourceMap source file hires content = e'.sourceMap source file hires content

variable {e : Editor} {c : Call} {text : List Char} {cs cs' : List Call}

theorem run_of_accepted (h : c.Accepted e.size) :
    ∃ e', c.run.run e = (.ok (), e') ∧ e'.size = e.size := by
  rcases run_cases c e with ⟨k, rfl, -, hrun⟩ | ⟨i, k, rfl, -, -, hrun⟩ | ⟨hout, -⟩
  · exact ⟨_, hrun, size_addMark e k⟩
  · exact ⟨_, hrun, size_addSpan e ⟨i, k⟩⟩
  · exact absurd h hout

/-- A call that is not accepted leaves the editor as it was. -/
theorem run_of_not_accepted (h : ¬ c.Accepted e.size) :
    ∃ err, c.run.run e = (.error err, e) := by
  rcases run_cases c e with ⟨k, rfl, hk, -⟩ | ⟨i, k, rfl, hik, hk, -⟩ | ⟨-, hfails⟩
  · exact absurd (by simp only [Call.Accepted]; omega) h
  · exact absurd (by simp only [Call.Accepted]; omega) h
  · exact hfails

/-- A call raises an error exactly if it is not accepted. -/
theorem run_fails_iff : (∃ err, (c.run.run e).1 = .error err) ↔ ¬ c.Accepted e.size := by
  constructor
  · rintro ⟨err, herr⟩ haccepted
    obtain ⟨e', hrun, -⟩ := run_of_accepted haccepted
    rw [hrun] at herr
    cases herr
  · intro h
    obtain ⟨err, hrun⟩ := run_of_not_accepted h
    exact ⟨err, by rw [hrun]⟩

theorem attempt_of_not_accepted (h : ¬ c.Accepted e.size) : e.attempt c = e := by
  obtain ⟨err, hrun⟩ := run_of_not_accepted h
  rw [attempt, hrun]

/-! ### Sessions -/

/-- The calls that fail might as well not be made. -/
theorem forM_accepted (e : Editor) (cs : List Call) :
    after ((cs.filter fun c => c.Accepted e.size).forM Call.run) e = .ok (cs.foldl attempt e) := by
  induction cs generalizing e with
  | nil => rfl
  | cons c rest ih =>
    rw [List.foldl_cons, List.filter_cons]
    by_cases h : c.Accepted e.size
    · obtain ⟨e', hrun, hsize⟩ := run_of_accepted h
      rw [if_pos (decide_eq_true h), after_cons, after_of_ok hrun, attempt, hrun, ← hsize]
      exact ih e'
    · rw [if_neg (by simp [h]), attempt_of_not_accepted h, ih e]

theorem calls_accepted (text : List Char) (cs : List Call) :
    calls text (cs.filter fun c => c.Accepted text.length) = .ok (session text cs) :=
  forM_accepted (.ofText text) cs

theorem session_records (text : List Char) (cs : List Call) :
    Records text (cs.filter fun c => c.Accepted text.length) (session text cs) :=
  calls_records (calls_accepted text cs)

theorem text_session (text : List Char) (cs : List Call) : (session text cs).text = text :=
  (session_records text cs).sameText

/-- What is deleted is the union of the spans whose deletion was accepted. -/
theorem covers_session (text : List Char) (cs : List Call) (i : Nat) :
    Span.covers (session text cs).removed i = true ↔ Erases text.length cs i := by
  rw [removed, Span.covers_merge, Span.covers_iff]
  simp only [(session_records text cs).deleted, List.mem_filter, decide_eq_true_eq]
  constructor
  · rintro ⟨s, ⟨-, hmem, haccepted⟩, hstart, hstop⟩
    exact ⟨_, hmem, haccepted, by simp [Call.covers, hstart, hstop]⟩
  · rintro ⟨c, hmem, haccepted, hcovers⟩
    cases c with
    | mark offset => cases hcovers
    | delete start stop =>
      obtain ⟨i, rfl⟩ := Int.eq_ofNat_of_zero_le haccepted.1.1
      obtain ⟨k, rfl⟩ := Int.eq_ofNat_of_zero_le haccepted.2.1.1
      simp only [Call.covers, Bool.and_eq_true, decide_eq_true_eq] at hcovers
      exact ⟨⟨i, k⟩, ⟨by dsimp only; omega, hmem, haccepted⟩, by dsimp only; omega⟩

theorem mem_marks_session {o : Nat} : o ∈ (session text cs).marks ↔ Marks text.length cs o := by
  rw [(session_records text cs).marks, List.mem_filter, decide_eq_true_eq]
  rfl

/-! ### What is left -/

/-- The characters that are kept, told by what covers their indices. -/
theorem keptFrom_eq_filter {spans : List Span} {gone : Nat → Prop} [DecidablePred gone]
    (h : ∀ i, Span.covers spans i = true ↔ gone i) (text : List Char) (i : Nat) :
    keptFrom spans i text = ((text.zipIdx i).filter fun c => !decide (gone c.2)).map Prod.fst := by
  induction text generalizing i with
  | nil => rfl
  | cons c rest ih =>
    rw [keptFrom, List.zipIdx_cons, List.filter_cons, ih]
    by_cases hi : gone i
    · simp [(h i).mpr hi, hi]
    · simp [mt (h i).mp hi, hi]

/-- Drawing asks of the marks only which offsets are among them. -/
theorem drawChars_congr {starts : Array Nat} {marks marks' : List Nat}
    (h : ∀ o, marks.contains o = marks'.contains o) (hires : Bool) (start i : Nat)
    (text : List Char) (d : Drawing) :
    drawChars starts marks hires start i text d = drawChars starts marks' hires start i text d := by
  induction text generalizing i d with
  | nil => rfl
  | cons c rest ih => rw [drawChars, drawChars, h, ih]

theorem drawChunks_congr {e e' : Editor} {starts : Array Nat} (htext : e.text = e'.text)
    (hmarks : ∀ o, e.marks.contains o = e'.marks.contains o) (hires : Bool) (chunks : List Span)
    (seams : List Nat) (d : Drawing) :
    e.drawChunks starts hires chunks seams d = e'.drawChunks starts hires chunks seams d := by
  induction chunks generalizing seams d with
  | nil => rfl
  | cons chunk rest ih =>
    rw [drawChunks, drawChunks]
    rcases drawSeams starts chunk.start seams d with ⟨left, drawn⟩
    dsimp only
    rw [ih, drawChars_congr hmarks, charsIn, charsIn, htext]

theorem trace_congr {e e' : Editor} (htext : e.text = e'.text) (hremoved : e.removed = e'.removed)
    (hmarks : ∀ o, e.marks.contains o = e'.marks.contains o) (hires : Bool) :
    e.trace hires = e'.trace hires := by
  have hsize : e.size = e'.size := congrArg List.length htext
  have hseams : e.seams = e'.seams := by
    rw [seams_eq, seams_eq, seamsFrom, seamsFrom, hsize]
    refine List.filter_congr fun o _ => ?_
    rw [isSeam, isSeam, hmarks, keeps_eq, keeps_eq, hsize, hremoved]
  rw [trace, trace, drawChunks_congr htext hmarks, chunks, chunks, hsize, hremoved, hseams, htext]

/-- The spans deleted and the set of the marks are all that can be seen of an editor. -/
theorem agree_of_removed {e e' : Editor} (htext : e.text = e'.text)
    (hremoved : e.removed = e'.removed) (hchanged : e.hasChanged = e'.hasChanged)
    (hmarks : ∀ o, o ∈ e.marks ↔ o ∈ e'.marks) : Agree e e' where
  result := by rw [result_eq, result_eq, hremoved, htext]
  hasChanged := hchanged
  removed := hremoved
  sourceMap source file hires content := by
    have hcontains : ∀ o, e.marks.contains o = e'.marks.contains o := fun o => by
      rw [Bool.eq_iff_iff, List.contains_iff_mem, List.contains_iff_mem, hmarks]
    rw [Editor.sourceMap, Editor.sourceMap, trace_congr htext hremoved hcontains, htext]

theorem hasChanged_session (text : List Char) (cs : List Call) :
    (session text cs).hasChanged = !(session text cs).removed.isEmpty := by
  have hnil := Span.merge_eq_nil fun s hs => ((session text cs).inside s hs).1
  rw [hasChanged, removed, Bool.eq_iff_iff]
  simp [hnil]

theorem agree_of_same_sets (herases : ∀ i, Erases text.length cs i ↔ Erases text.length cs' i)
    (hmarks : ∀ o, Marks text.length cs o ↔ Marks text.length cs' o) :
    Agree (session text cs) (session text cs') := by
  have hremoved : (session text cs).removed = (session text cs').removed := by
    refine (removed_canonical _).eq_of_covers (removed_canonical _) fun i => ?_
    rw [Bool.eq_iff_iff, covers_session, covers_session, herases]
  refine agree_of_removed ?_ hremoved ?_ fun o => ?_
  · rw [text_session, text_session]
  · rw [hasChanged_session, hasChanged_session, hremoved]
  · rw [mem_marks_session, mem_marks_session, hmarks]

/-- After any calls, failed ones included, the deleted spans are in canonical form and inside the
text, they are the union of the deletions that were accepted, and the characters outside them are
left, in order. Other calls with the same union and the same marks lead to an editor that agrees in
everything. A call fails exactly if it names an offset outside the text or reversed ends, and then
changes nothing. -/
theorem session_determined (text : List Char) (cs : List Call) :
    Span.Canonical (session text cs).removed ∧
    (∀ s ∈ (session text cs).removed, s.stop ≤ text.length) ∧
    (∀ i, Span.covers (session text cs).removed i = true ↔ Erases text.length cs i) ∧
    (session text cs).result =
      (text.zipIdx.filter fun c => !decide (Erases text.length cs c.2)).map Prod.fst ∧
    (∀ cs', (∀ i, Erases text.length cs i ↔ Erases text.length cs' i) →
      (∀ o, Marks text.length cs o ↔ Marks text.length cs' o) →
      Agree (session text cs) (session text cs')) ∧
    ∀ c : Call,
      ((∃ err, (c.run.run (session text cs)).1 = .error err) ↔ ¬ c.Accepted text.length) ∧
      (¬ c.Accepted text.length → session text (cs ++ [c]) = session text cs) := by
  have hsize : (session text cs).size = text.length := by rw [size, text_session]
  refine ⟨removed_canonical _, fun s hs => hsize ▸ stop_le_of_mem_removed hs,
    covers_session text cs, ?_, fun cs' => agree_of_same_sets, fun c => ⟨?_, fun hc => ?_⟩⟩
  · rw [result_eq, text_session]
    exact keptFrom_eq_filter (covers_session text cs) text 0
  · rw [run_fails_iff, hsize]
  · rw [session, List.foldl_append]
    exact attempt_of_not_accepted (by rwa [← hsize] at hc)

/-- Two deletions that overlap, after one that is reversed, leave the same as their union, before a
mark that is out of bounds. -/
theorem session_determined_overlap :
    Agree (session "abcdef".toList [.delete 5 4, .delete 1 3, .mark 2, .delete 2 4])
      (session "abcdef".toList [.mark 2, .delete 1 4, .mark 2, .mark 9]) ∧
    (session "abcdef".toList [.delete 5 4, .delete 1 3, .mark 2, .delete 2 4]).removed = [⟨1, 4⟩] ∧
    session "abcdef".toList [.mark 2, .delete 1 4, .mark 2, .mark 9] =
      session "abcdef".toList [.mark 2, .delete 1 4, .mark 2] := by
  obtain ⟨-, -, -, -, hagree, -⟩ := session_determined "abcdef".toList
    [.delete 5 4, .delete 1 3, .mark 2, .delete 2 4]
  obtain ⟨-, -, -, -, -, hfails⟩ := session_determined "abcdef".toList
    [.mark 2, .delete 1 4, .mark 2]
  have hsame := hagree [.mark 2, .delete 1 4, .mark 2, .mark 9] (fun i => by
    simp [Erases, Call.Accepted, Call.covers]; omega) (fun o => by
    simp [Marks, Call.Accepted]; omega)
  refine ⟨hsame, hsame.removed.trans (by decide +kernel), (hfails (.mark 9)).2 (by decide)⟩

end Editor
end PropShear
