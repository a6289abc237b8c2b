import Mathlib.Data.List.Sort
import PropShear.Edit.Trace
import PropShear.Proofs.Edit.Canonical
import PropShear.Proofs.Text.CharIndex
import PropShear.Proofs.Text.Position

/-! What is drawn into a source map.

`Editor.traced` lists the offsets that a map has to mention, `Editor.segmentAt` is the segment of
each: its position in the text and the position that the kept characters before it lead to. `Draws`
says which offsets a drawing holds, each on its line. A segment that is emitted is never the last
one again, since offsets differ in their positions (`Draws.emit`). A kept stretch and the seams
before it add the traced offsets up to its end (`Draws.seams`, `Draws.chars`), so that the whole
drawing holds all of them (`numbered_trace`). -/
namespace PropShear

/-- The entries of all lines in order, each with the number of its line. -/
def numbered {α : Type} (first : Nat) : List (List α) → List (Nat × α)
  | [] => []
  | line :: rest => line.map (first, ·) ++ numbered (first + 1) rest

theorem map_snd_numbered {α : Type} (first : Nat) (lines : List (List α)) :
    (numbered first lines).map Prod.snd = lines.flatten := by
  induction lines generalizing first with
  | nil => rfl
  | cons line rest ih => simp [numbered, ih, Function.comp_def]

theorem numbered_append {α : Type} (first : Nat) (lines more : List (List α)) :
    numbered first (lines ++ more) =
      numbered first lines ++ numbered (first + lines.length) more := by
  induction lines generalizing first with
  | nil => rfl
  | cons line rest ih =>
    rw [List.cons_append, numbered, ih, numbered, List.append_assoc, List.length_cons,
      Nat.add_right_comm, Nat.add_assoc]

namespace Editor
open Text (lineFeeds columnAfter)

/-! ### Positions in the text -/

theorem feedsFrom_append (k : Nat) (s t : List Char) :
    feedsFrom k (s ++ t) = feedsFrom k s ++ feedsFrom (k + s.length) t := by
  induction s generalizing k with
  | nil => rfl
  | cons c rest ih =>
    rw [List.cons_append, feedsFrom, feedsFrom, ih, List.length_cons, Nat.add_right_comm,
      Nat.add_assoc]
    split <;> rfl

theorem length_feedsFrom (k : Nat) (s : List Char) : (feedsFrom k s).length = lineFeeds s := by
  induction s generalizing k with
  | nil => rfl
  | cons c rest ih =>
    have hfeeds : lineFeeds (c :: rest) = (if c = '\n' then 1 else 0) + lineFeeds rest := by
      rw [← Text.lineFeeds_singleton, ← Text.lineFeeds_append]
      rfl
    rw [feedsFrom, hfeeds]
    split
    · rw [List.length_cons, ih, Nat.add_comm]
    · rw [ih, Nat.zero_add]

theorem bounds_of_mem_feedsFrom {k o : Nat} {s : List Char} (h : o ∈ feedsFrom k s) :
    k < o ∧ o ≤ k + s.length := by
  induction s generalizing k with
  | nil => cases h
  | cons c rest ih =>
    rw [feedsFrom] at h
    rw [List.length_cons]
    split at h
    · rcases List.mem_cons.mp h with rfl | h
      · omega
      · have := ih h
        omega
    · have := ih h
      omega

/-- The line of an offset starts as many characters before it as its column says. -/
theorem lineStart_take {text : List Char} {o : Nat} (h : o ≤ text.length) :
    columnAfter (text.take o) ≤ o ∧ (0 :: feedsFrom 0 (text.take o))[lineFeeds (text.take o)]? =
      some (o - columnAfter (text.take o)) := by
  induction o with
  | zero => exact ⟨Nat.le_refl _, rfl⟩
  | succ o ih =>
    obtain ⟨hcolumn, hstart⟩ := ih (by omega)
    have hlength : (text.take o).length = o := by rw [List.length_take]; omega
    rw [← List.take_append_getElem h, Text.lineFeeds_append, Text.lineFeeds_singleton,
      Text.columnAfter_concat, feedsFrom_append, hlength, Nat.zero_add, feedsFrom]
    by_cases hfeed : text[o] = '\n'
    · have hend : (0 :: feedsFrom 0 (text.take o)).length = lineFeeds (text.take o) + 1 := by
        rw [List.length_cons, length_feedsFrom]
      rw [if_pos hfeed, if_pos hfeed, if_pos hfeed, ← List.cons_append, ← hend]
      exact ⟨Nat.zero_le _, List.getElem?_concat_length⟩
    · rw [if_neg hfeed, if_neg hfeed, if_neg hfeed, feedsFrom, List.append_nil]
      refine ⟨by omega, ?_⟩
      rw [Nat.add_zero, hstart, Nat.add_sub_add_right]

/-- A search among the starts of the lines tells the position of an offset. -/
theorem position_eq {text : List Char} {o : Nat} (h : o ≤ text.length) :
    position (lineStarts text) o = (lineFeeds (text.take o), columnAfter (text.take o)) := by
  have hlength : (text.take o).length = o := by rw [List.length_take]; omega
  let before := 0 :: feedsFrom 0 (text.take o)
  let later := feedsFrom o (text.drop o)
  have hsplit : lineStarts text = (before ++ later).toArray := by
    unfold lineStarts
    conv => lhs; rw [← List.take_append_drop o text, feedsFrom_append, hlength, Nat.zero_add]
    rfl
  have hbefore : before.length = lineFeeds (text.take o) + 1 := by
    rw [List.length_cons, length_feedsFrom]
  have hcount : ∀ i (hi : i < (before ++ later).toArray.size),
      (before ++ later).toArray[i] ≤ o ↔ i < lineFeeds (text.take o) + 1 := by
    intro i hi
    rw [List.getElem_toArray, List.getElem_append, ← hbefore]
    split
    · next hlt =>
      refine iff_of_true ?_ hlt
      rcases List.mem_cons.mp (List.getElem_mem hlt) with hzero | hmem
      · rw [hzero]
        exact Nat.zero_le o
      · have := (bounds_of_mem_feedsFrom hmem).2
        rw [hlength] at this
        omega
    · next hge =>
      refine iff_of_false ?_ hge
      have := (bounds_of_mem_feedsFrom (List.getElem_mem (l := later) (n := i - before.length) (by
        rw [List.size_toArray, List.length_append] at hi
        omega))).1
      omega
  have hsize : lineFeeds (text.take o) + 1 ≤ (before ++ later).toArray.size := by
    rw [List.size_toArray, List.length_append, hbefore]
    exact Nat.le_add_right _ _
  obtain ⟨hcolumn, hstart⟩ := lineStart_take h
  have hget : (before ++ later).toArray[lineFeeds (text.take o)]? =
      some (o - columnAfter (text.take o)) := by
    rw [List.getElem?_toArray, List.getElem?_append_left (by omega)]
    exact hstart
  unfold position
  rw [hsplit]
  dsimp only
  rw [Text.countUpTo_eq (Nat.le_refl _) hcount (Nat.zero_le _) hsize, Nat.add_sub_cancel, hget]
  exact Prod.ext rfl (by dsimp only [Option.getD_some]; omega)

/-! ### What is left and what is traced -/

/-- The offset is that of a character that is kept. -/
def keeps (e : Editor) (o : Nat) : Bool := o < e.size && !Span.covers e.deleted o

/-- What is left of the text before an offset. -/
def before (e : Editor) (o : Nat) : List Char := keptFrom e.removed 0 (e.text.take o)

/-- No kept character stands right before the offset. -/
def startsRun (e : Editor) (o : Nat) : Bool := o == 0 || !e.keeps (o - 1)

/-- The map mentions the offset. -/
def traces (e : Editor) (hires : Bool) (o : Nat) : Bool :=
  if e.keeps o then
    hires || e.startsRun o || e.marks.contains o || columnAfter (e.before o) == 0
  else e.marks.contains o

/-- The offsets that the map mentions. -/
def traced (e : Editor) (hires : Bool) : List Nat :=
  (List.range (e.size + 1)).filter (e.traces hires)

def segmentAt (e : Editor) (o : Nat) : SourceMap.Segment :=
  ⟨columnAfter (e.before o), 0, lineFeeds (e.text.take o), columnAfter (e.text.take o)⟩

/-- The segment of an offset with the number of its line in the result. -/
def entryAt (e : Editor) (o : Nat) : Nat × SourceMap.Segment :=
  (lineFeeds (e.before o), e.segmentAt o)

variable {e : Editor} {i : Nat} {c : Char}

theorem before_size (e : Editor) : e.before e.size = e.result := by
  rw [before, size, List.take_length, result_eq]

theorem lt_size_of_keeps (h : e.keeps i = true) : i < e.size := by
  simp only [keeps, Bool.and_eq_true, decide_eq_true_eq] at h
  exact h.1

theorem keeps_of_getElem? (h : e.text[i]? = some c) : e.keeps i = !Span.covers e.removed i := by
  have hlt : i < e.size := (List.getElem?_eq_some_iff.mp h).1
  simp [keeps, hlt, removed, Span.covers_merge]

theorem take_succ (h : e.text[i]? = some c) : e.text.take (i + 1) = e.text.take i ++ [c] := by
  rw [List.take_add_one, h]
  rfl

theorem before_succ (h : e.text[i]? = some c) :
    e.before (i + 1) = if e.keeps i then e.before i ++ [c] else e.before i := by
  have hlength : (e.text.take i).length = i := by
    have := (List.getElem?_eq_some_iff.mp h).1
    rw [List.length_take]
    omega
  rw [before, take_succ h, keptFrom_append, Nat.zero_add, hlength, keeps_of_getElem? h, keptFrom]
  cases Span.covers e.removed i with
  | true => exact List.append_nil _
  | false => rfl

/-! ### Drawings -/

/-- A drawing holds the segments of some offsets, each on its line, and stands where the kept
characters before an offset lead to. -/
structure Draws (e : Editor) (offsets : List Nat) (o : Nat) (d : Drawing) : Prop where
  entries : numbered 0 d.lines = offsets.map e.entryAt
  length : d.lines.length = lineFeeds (e.before o) + 1
  column : d.column = columnAfter (e.before o)

theorem lines_eq (d : Drawing) :
    d.lines = (d.ended.map List.reverse).reverse ++ [d.current.reverse] := by
  rw [Drawing.lines, List.map_cons, List.reverse_cons]

theorem numbered_lines (d : Drawing) : numbered 0 d.lines =
    numbered 0 (d.ended.map List.reverse).reverse ++ d.current.reverse.map (d.ended.length, ·) := by
  rw [lines_eq, numbered_append, List.length_reverse, List.length_map, Nat.zero_add, numbered,
    numbered, List.append_nil]

theorem length_lines (d : Drawing) : d.lines.length = d.ended.length + 1 := by
  rw [Drawing.lines, List.length_reverse, List.length_map, List.length_cons]

theorem draws_start (e : Editor) : e.Draws [] 0 {} := ⟨rfl, rfl, rfl⟩

namespace Draws

variable {offsets : List Nat} {o x : Nat} {d : Drawing}

theorem congr (h : e.Draws offsets o d) (hbefore : e.before x = e.before o) :
    e.Draws offsets x d :=
  ⟨h.entries, hbefore ▸ h.length, hbefore ▸ h.column⟩

/-- Whatever is drawn is the segment of one of the offsets. -/
theorem exists_of_mem (h : e.Draws offsets o d) {segment : SourceMap.Segment}
    (hmem : segment ∈ d.current) : ∃ j ∈ offsets, e.segmentAt j = segment := by
  have hflatten : d.lines.flatten = offsets.map e.segmentAt := by
    rw [← map_snd_numbered 0, h.entries, List.map_map]
    rfl
  have hline : d.current.reverse ∈ d.lines := by simp [lines_eq]
  rw [← List.mem_map, ← hflatten]
  exact List.mem_flatten.mpr ⟨_, hline, List.mem_reverse.mpr hmem⟩

/-- A later offset with the same kept characters before it is added at the end of the line. -/
theorem emit (h : e.Draws offsets o d) (hx : x ≤ e.size) (hbefore : e.before x = e.before o)
    (hlater : ∀ j ∈ offsets, j < x) : e.Draws (offsets ++ [x]) o (d.emit (lineStarts e.text) x) := by
  have hsegment : d.emit (lineStarts e.text) x = if d.current.head? = some (e.segmentAt x) then d
      else { d with current := e.segmentAt x :: d.current } := by
    rw [Drawing.emit, position_eq hx, segmentAt, hbefore, ← h.column]
  have hnew : d.current.head? ≠ some (e.segmentAt x) := by
    intro hhead
    obtain ⟨j, hj, hsame⟩ := h.exists_of_mem (List.mem_of_mem_head? hhead)
    have hlt := hlater j hj
    simp only [segmentAt, SourceMap.Segment.mk.injEq, Int.natCast_inj] at hsame
    have := Text.take_position_injective (Nat.le_trans (Nat.le_of_lt hlt) hx) hx hsame.2.2.1
      hsame.2.2.2
    omega
  rw [hsegment, if_neg hnew]
  have hlength := h.length
  rw [length_lines] at hlength
  refine ⟨?_, ?_, h.column⟩
  · rw [List.map_append, ← h.entries, numbered_lines, numbered_lines, List.reverse_cons,
      List.map_append, ← List.append_assoc]
    congr 1
    rw [List.map_singleton, List.map_singleton, entryAt, hbefore]
    exact congrArg (fun n => [(n, e.segmentAt x)]) (by dsimp only; omega)
  · rw [length_lines]
    exact hlength

/-- Ascending offsets of which no kept character stands between are added one after another. -/
theorem emits (h : e.Draws offsets o d) {xs : List Nat} (hascending : xs.Pairwise (· < ·))
    (hxs : ∀ x ∈ xs, x ≤ e.size ∧ e.before x = e.before o ∧ ∀ j ∈ offsets, j < x) :
    e.Draws (offsets ++ xs) o (xs.foldl (·.emit (lineStarts e.text) ·) d) := by
  induction xs generalizing offsets d with
  | nil =>
    rw [List.append_nil]
    exact h
  | cons x rest ih =>
    obtain ⟨hfirst, hrest⟩ := List.pairwise_cons.mp hascending
    rw [List.forall_mem_cons] at hxs
    obtain ⟨⟨hx, hbefore, hlater⟩, hxs⟩ := hxs
    have hnext := ih (h.emit hx hbefore hlater) hrest fun y hy => by
      obtain ⟨hsize, hsame, hall⟩ := hxs y hy
      refine ⟨hsize, hsame, fun j hj => ?_⟩
      rcases List.mem_append.mp hj with hj | hj
      · exact hall j hj
      · exact List.mem_singleton.mp hj ▸ hfirst y hy
    rw [List.append_assoc] at hnext
    exact hnext

/-- A kept character leads on in the result. -/
theorem advance (h : e.Draws offsets o d) (hc : e.text[o]? = some c) (hkeeps : e.keeps o = true) :
    e.Draws offsets (o + 1) (d.advance c) := by
  have hbefore : e.before (o + 1) = e.before o ++ [c] := by rw [before_succ hc, hkeeps, if_pos rfl]
  have hlength := h.length
  rw [length_lines] at hlength
  unfold Drawing.advance
  by_cases hfeed : c = '\n'
  · rw [if_pos hfeed]
    refine ⟨?_, ?_, ?_⟩
    · rw [← h.entries, lines_eq, numbered_append, lines_eq]
      simp [numbered]
    · rw [length_lines, hbefore, Text.lineFeeds_append, Text.lineFeeds_singleton, if_pos hfeed,
        ← hlength]
      rfl
    · rw [hbefore, Text.columnAfter_concat, if_pos hfeed]
  · rw [if_neg hfeed]
    refine ⟨h.entries, ?_, ?_⟩
    · rw [hbefore, Text.lineFeeds_append, Text.lineFeeds_singleton, if_neg hfeed]
      exact h.length
    · rw [hbefore, Text.columnAfter_concat, if_neg hfeed, ← h.column]

end Draws

/-! ### Seams -/

theorem keeps_eq (e : Editor) (o : Nat) :
    e.keeps o = (decide (o < e.size) && !Span.covers e.removed o) := by
  rw [keeps, removed, Span.covers_merge]

/-- The offset is marked and not that of a kept character. -/
def isSeam (e : Editor) (o : Nat) : Bool := e.marks.contains o && !e.keeps o

/-- The seams from an offset on. -/
def seamsFrom (e : Editor) (i : Nat) : List Nat :=
  (List.range' i (e.size + 1 - i)).filter e.isSeam

theorem mem_insertOffset {o p : Nat} {l : List Nat} : p ∈ insertOffset o l ↔ p = o ∨ p ∈ l := by
  induction l with
  | nil => simp [insertOffset]
  | cons q rest ih =>
    rw [insertOffset]
    split
    · exact List.mem_cons
    · split
      · next heq => simp [heq]
      · rw [List.mem_cons, ih, List.mem_cons, or_left_comm]

theorem pairwise_insertOffset {o : Nat} {l : List Nat} (h : l.Pairwise (· < ·)) :
    (insertOffset o l).Pairwise (· < ·) := by
  induction l with
  | nil => exact List.pairwise_singleton _ _
  | cons q rest ih =>
    obtain ⟨hq, hrest⟩ := List.pairwise_cons.mp h
    rw [insertOffset]
    split
    · next hlt =>
      refine List.pairwise_cons.mpr ⟨fun p hp => ?_, h⟩
      rcases List.mem_cons.mp hp with rfl | hp
      · exact hlt
      · exact Nat.lt_trans hlt (hq p hp)
    · split
      · exact h
      · next hge hne =>
        refine List.pairwise_cons.mpr ⟨fun p hp => ?_, ih hrest⟩
        rcases mem_insertOffset.mp hp with rfl | hp
        · omega
        · exact hq p hp

theorem seams_eq (e : Editor) : e.seams = e.seamsFrom 0 := by
  have hascending : e.seams.Pairwise (· < ·) := by
    unfold seams
    induction e.marks.filter _ with
    | nil => exact .nil
    | cons o rest ih => exact pairwise_insertOffset ih
  have hmem : ∀ o, o ∈ e.seams ↔ o ∈ e.marks ∧ (o = e.size ∨ Span.covers e.removed o = true) := by
    intro o
    have hfold : ∀ l : List Nat, o ∈ l.foldr insertOffset [] ↔ o ∈ l := by
      intro l
      induction l with
      | nil => exact Iff.rfl
      | cons p rest ih => rw [List.foldr_cons, mem_insertOffset, ih, List.mem_cons]
    rw [seams, hfold, List.mem_filter]
    simp
  have hrange : (e.seamsFrom 0).Pairwise (· < ·) := (List.pairwise_lt_range' ..).filter _
  refine hascending.eq_of_mem_iff hrange fun o => ?_
  have hinside : Span.covers e.removed o = true → o < e.size := by
    intro hcovers
    obtain ⟨s, hs, -, hlt⟩ := Span.covers_iff.mp hcovers
    exact Nat.lt_of_lt_of_le hlt (stop_le_of_mem_removed hs)
  rw [hmem, seamsFrom, List.mem_filter, List.mem_range'_1, isSeam, keeps_eq]
  simp only [Bool.and_eq_true, List.contains_iff_mem, Bool.not_eq_true', Bool.and_eq_false_iff,
    decide_eq_false_iff_not, Bool.not_eq_false', Nat.zero_add, Nat.sub_zero]
  constructor
  · rintro ⟨hmark, rfl | hcovers⟩
    · exact ⟨by omega, hmark, .inl (by omega)⟩
    · have := hinside hcovers
      exact ⟨by omega, hmark, .inr hcovers⟩
  · rintro ⟨hbound, hmark, hend | hcovers⟩
    · exact ⟨hmark, .inl (by omega)⟩
    · exact ⟨hmark, .inr hcovers⟩

theorem seamsFrom_split (e : Editor) {i k : Nat} (hik : i ≤ k) (hk : k ≤ e.size + 1) :
    e.seamsFrom i = (List.range' i (k - i)).filter e.isSeam ++ e.seamsFrom k := by
  rw [seamsFrom, seamsFrom, ← List.filter_append]
  have hsplit : List.range' i (e.size + 1 - i) =
      List.range' i (k - i) ++ List.range' k (e.size + 1 - k) := by
    have := List.range'_append_1 (s := i) (m := k - i) (n := e.size + 1 - k)
    rw [Nat.add_sub_of_le hik] at this
    rw [this]
    congr 1
    omega
  rw [hsplit]

theorem drawSeams_append (starts : Array Nat) {stop : Nat} {before later : List Nat}
    (hbefore : ∀ x ∈ before, x < stop) (hlater : ∀ x ∈ later, stop ≤ x) (d : Drawing) :
    drawSeams starts stop (before ++ later) d = (later, before.foldl (·.emit starts ·) d) := by
  induction before generalizing d with
  | nil =>
    cases later with
    | nil => rfl
    | cons x rest => exact if_neg (Nat.not_lt.mpr (hlater x List.mem_cons_self))
  | cons x rest ih =>
    rw [List.forall_mem_cons] at hbefore
    rw [List.cons_append, drawSeams, if_pos hbefore.1, ih hbefore.2]
    rfl

/-! ### Stretches -/

/-- The traced offsets before an offset. -/
def tracedBefore (e : Editor) (hires : Bool) (i : Nat) : List Nat :=
  (List.range i).filter (e.traces hires)

theorem tracedBefore_succ (e : Editor) (hires : Bool) (i : Nat) : e.tracedBefore hires (i + 1) =
    e.tracedBefore hires i ++ if e.traces hires i then [i] else [] := by
  rw [tracedBefore, List.range_succ, List.filter_append, List.filter_cons, List.filter_nil]
  rfl

theorem lt_of_mem_tracedBefore {hires : Bool} {j : Nat} (h : j ∈ e.tracedBefore hires i) : j < i :=
  List.mem_range.mp (List.mem_filter.mp h).1

/-- Nothing is kept from one offset up to another. -/
def Gap (e : Editor) (i k : Nat) : Prop := ∀ j, i ≤ j → j < k → e.keeps j = false

theorem Gap.before_eq {k : Nat} (h : e.Gap i k) (hik : i ≤ k) (hk : k ≤ e.size) :
    e.before k = e.before i := by
  induction k with
  | zero => rw [Nat.le_zero.mp hik]
  | succ k ih =>
    rcases Nat.lt_or_eq_of_le hik with hlt | rfl
    · have hchar : e.text[k]? = some e.text[k] := List.getElem?_eq_getElem hk
      rw [before_succ hchar, h k (by omega) (Nat.lt_succ_self k)]
      exact ih (fun j hj hjk => h j hj (by omega)) (by omega) (by omega)
    · rfl

/-- Between two offsets with nothing kept between them, the seams are what is traced. -/
theorem Gap.tracedBefore_eq {k : Nat} (h : e.Gap i k) (hik : i ≤ k) (hires : Bool) :
    e.tracedBefore hires k =
      e.tracedBefore hires i ++ (List.range' i (k - i)).filter e.isSeam := by
  have hrange : List.range k = List.range i ++ List.range' i (k - i) := by
    have happend := List.range'_append_1 (s := 0) (m := i) (n := k - i)
    rw [Nat.zero_add, Nat.add_sub_of_le hik] at happend
    rw [List.range_eq_range', List.range_eq_range', happend]
  rw [tracedBefore, hrange, List.filter_append, tracedBefore]
  congr 1
  refine List.filter_congr fun j hj => ?_
  obtain ⟨hij, hjk⟩ := List.mem_range'_1.mp hj
  rw [traces, isSeam, h j hij (by omega)]
  simp

namespace Draws

variable {hires : Bool} {d : Drawing} {k : Nat}

/-- The seams in a gap are drawn before the stretch behind it. -/
theorem seams (h : e.Draws (e.tracedBefore hires i) i d) (hgap : e.Gap i k) (hik : i ≤ k)
    (hk : k ≤ e.size) : ∃ d', drawSeams (lineStarts e.text) k (e.seamsFrom i) d =
      (e.seamsFrom k, d') ∧ e.Draws (e.tracedBefore hires k) k d' := by
  have hinside : ∀ x ∈ (List.range' i (k - i)).filter e.isSeam, i ≤ x ∧ x < k := by
    intro x hx
    have := List.mem_range'_1.mp (List.mem_filter.mp hx).1
    omega
  have hlater : ∀ x ∈ e.seamsFrom k, k ≤ x := fun x hx =>
    (List.mem_range'_1.mp (List.mem_filter.mp hx).1).1
  rw [seamsFrom_split e hik (by omega),
    drawSeams_append _ (fun x hx => (hinside x hx).2) hlater]
  refine ⟨_, rfl, ?_⟩
  rw [hgap.tracedBefore_eq hik]
  refine (h.emits ((List.pairwise_lt_range' ..).filter _) fun x hx => ?_).congr
    (hgap.before_eq hik hk)
  obtain ⟨hix, hxk⟩ := hinside x hx
  have hshort : e.Gap i x := fun j hij hjx => hgap j hij (by omega)
  refine ⟨by omega, hshort.before_eq hix (by omega), fun j hj => ?_⟩
  have := lt_of_mem_tracedBefore hj
  omega

/-- What is left of a kept stretch is drawn up to its end. -/
theorem chars {start n : Nat} (h : e.Draws (e.tracedBefore hires i) i d)
    (hkeeps : ∀ j, start ≤ j → j < i + n → e.keeps j = true) (hstart : start ≤ i)
    (hfirst : e.startsRun start = true) (hsize : i + n ≤ e.size) :
    e.Draws (e.tracedBefore hires (i + n)) (i + n) (drawChars (lineStarts e.text) e.marks hires
      start i (e.charsIn ⟨i, i + n⟩) d) := by
  induction n generalizing i d with
  | zero =>
    have hnone : e.charsIn ⟨i, i⟩ = [] := by
      rw [← List.length_eq_zero_iff, length_charsIn e (k := i) (by omega), Nat.sub_self]
    rw [Nat.add_zero, hnone]
    exact h
  | succ n ih =>
    have hlt : i < e.size := by omega
    have hc : e.text[i]? = some e.text[i] := List.getElem?_eq_getElem hlt
    have hkept := hkeeps i hstart (by omega)
    have hcons : e.charsIn ⟨i, i + (n + 1)⟩ = e.text[i] :: e.charsIn ⟨i + 1, i + 1 + n⟩ := by
      have hdrop : i < (e.text.take (i + 1 + n)).length := by
        rw [List.length_take]
        unfold size at hsize
        omega
      rw [charsIn, charsIn, show i + (n + 1) = i + 1 + n by omega,
        List.drop_eq_getElem_cons hdrop, List.getElem_take]
      rfl
    have hruns : e.startsRun i = (i == start) := by
      rcases Nat.lt_or_eq_of_le hstart with hbefore | rfl
      · have hprevious := hkeeps (i - 1) (by omega) (by omega)
        rw [startsRun, hprevious, beq_eq_false_iff_ne.mpr (by omega),
          beq_eq_false_iff_ne.mpr (by omega)]
        rfl
      · rw [hfirst, beq_self_eq_true]
    -- the character is drawn exactly if it is traced
    have htraces : (hires || i == start || e.marks.contains i || d.column == 0) =
        e.traces hires i := by
      rw [traces, hkept, if_pos rfl, hruns, h.column]
    have hdrawn : e.Draws (e.tracedBefore hires (i + 1)) i
        (if e.traces hires i then d.emit (lineStarts e.text) i else d) := by
      rw [tracedBefore_succ]
      split
      · exact h.emit (by omega) rfl fun j hj => lt_of_mem_tracedBefore hj
      · rw [List.append_nil]
        exact h
    rw [hcons, drawChars, htraces, show i + (n + 1) = i + 1 + n by omega]
    exact ih (hdrawn.advance hc hkept) (fun j hj hjn => hkeeps j hj (by omega)) (by omega) (by omega)

/-- Behind the last stretch nothing is left but seams. -/
theorem rest (hgap : e.Gap i e.size) (hi : i ≤ e.size)
    (h : e.Draws (e.tracedBefore hires i) i d) :
    e.Draws (e.traced hires) e.size
      ((e.seamsFrom i).foldl (·.emit (lineStarts e.text) ·) d) := by
  have hend : e.Gap i (e.size + 1) := by
    intro j hj hjn
    rcases Nat.lt_or_eq_of_le (Nat.le_of_lt_succ hjn) with hlt | rfl
    · exact hgap j hj hlt
    · simp [keeps]
  have hall : e.traced hires = e.tracedBefore hires i ++ e.seamsFrom i :=
    hend.tracedBefore_eq (by omega) hires
  rw [hall]
  refine (h.emits ((List.pairwise_lt_range' ..).filter _) fun x hx => ?_).congr
    (hgap.before_eq hi (Nat.le_refl _))
  have hbounds := List.mem_range'_1.mp (List.mem_filter.mp hx).1
  have hshort : e.Gap i x := fun j hij hjx => hend j hij (by omega)
  refine ⟨by omega, hshort.before_eq hbounds.1 (by omega), fun j hj => ?_⟩
  have := lt_of_mem_tracedBefore hj
  omega

/-- A stretch is drawn, with the seams before it. -/
theorem stretch {start stop : Nat} (hgap : e.Gap i start) (hi : i ≤ start)
    (hfirst : e.startsRun start = true) (hlt : start < stop) (hstop : stop ≤ e.size)
    (hkeeps : ∀ j, start ≤ j → j < stop → e.keeps j = true)
    (h : e.Draws (e.tracedBefore hires i) i d) :
    ∃ d', e.Draws (e.tracedBefore hires stop) stop d' ∧ ∀ rest,
      drawChunks e (lineStarts e.text) hires (⟨start, stop⟩ :: rest) (e.seamsFrom i) d =
        drawChunks e (lineStarts e.text) hires rest (e.seamsFrom stop) d' := by
  obtain ⟨d₁, hseams, hdrawn⟩ := h.seams hgap hi (by omega)
  obtain ⟨n, rfl⟩ := Nat.exists_eq_add_of_le (Nat.le_of_lt hlt)
  have hnone : (List.range' start (start + n - start)).filter e.isSeam = [] := by
    rw [List.filter_eq_nil_iff]
    intro j hj
    obtain ⟨hle, hjn⟩ := List.mem_range'_1.mp hj
    simp [isSeam, hkeeps j hle (by omega)]
  refine ⟨_, hdrawn.chars hkeeps (Nat.le_refl _) hfirst hstop, fun rest => ?_⟩
  rw [drawChunks, hseams, seamsFrom_split e (Nat.le_of_lt hlt) (by omega), hnone,
    List.nil_append]

/-- All stretches from an offset on are drawn, and then the seams that are left. -/
theorem chunks {spans : List Span} {offset : Nat} (hspans : e.Covering offset spans)
    (hfirst : e.startsRun offset = true) (hgap : e.Gap i offset) (hi : i ≤ offset)
    (h : e.Draws (e.tracedBefore hires i) i d) :
    e.Draws (e.traced hires) e.size (drawChunks e (lineStarts e.text) hires
      (gapsFrom e.size offset spans) (e.seamsFrom i) d) := by
  induction spans generalizing offset i d with
  | nil =>
    have hkeeps : ∀ j, offset ≤ j → j < e.size → e.keeps j = true := by
      intro j hj hlt
      rw [keeps_eq, hspans.covers j hj]
      simp [hlt]
    rw [gapsFrom]
    split
    · next hlt =>
      obtain ⟨d', hdrawn, hrest⟩ := h.stretch hgap hi hfirst hlt (Nat.le_refl _) hkeeps
      rw [hrest]
      exact hdrawn.rest (fun j hj hjn => by omega) (Nat.le_refl _)
    · next hge =>
      have hend : offset = e.size := Nat.le_antisymm hspans.le_size (Nat.not_lt.mp hge)
      exact h.rest (hend ▸ hgap) (by omega)
  | cons s rest ih =>
    have hoffset := hspans.after s List.mem_cons_self
    have hne := hspans.canonical.nonempty s List.mem_cons_self
    have hstop := hspans.inside s List.mem_cons_self
    have hgone : e.Gap s.start s.stop := by
      intro j hj hjn
      rw [keeps_eq, hspans.covers_head hj hjn]
      simp
    have hruns : e.startsRun s.stop = true := by
      rw [startsRun, hgone (s.stop - 1) (by omega) (by omega)]
      simp
    have hkeeps : ∀ j, offset ≤ j → j < s.start → e.keeps j = true := by
      intro j hj hlt
      have hsize : j < e.size := by omega
      rw [keeps_eq, hspans.free hj hlt]
      simp [hsize]
    rw [gapsFrom]
    split
    · next hlt =>
      obtain ⟨d', hdrawn, hrest⟩ := h.stretch hgap hi hfirst hlt (by omega) hkeeps
      rw [hrest]
      exact ih hspans.tail hruns hgone (by omega) hdrawn
    · next hge =>
      refine ih hspans.tail hruns (fun j hj hjn => ?_) (by omega) h
      rcases Nat.lt_or_ge j offset with hlt | hge
      · exact hgap j hj hlt
      · exact hgone j (by omega) hjn

end Draws

/-- The whole drawing. -/
theorem draws_trace (e : Editor) (hires : Bool) :
    e.Draws (e.traced hires) e.size
      (drawChunks e (lineStarts e.text) hires e.chunks e.seams {}) := by
  rw [seams_eq]
  exact Draws.chunks e.covering_removed rfl (fun j _ hj => absurd hj (Nat.not_lt_zero j))
    (Nat.le_refl _) e.draws_start

theorem numbered_trace (e : Editor) (hires : Bool) :
    numbered 0 (e.trace hires) = (e.traced hires).map e.entryAt ∧
      (e.trace hires).length = lineFeeds e.result + 1 := by
  have h := e.draws_trace hires
  exact ⟨h.entries, before_size e ▸ h.length⟩

theorem trace_ne_nil (e : Editor) (hires : Bool) : e.trace hires ≠ [] := by
  intro hnil
  have := (e.numbered_trace hires).2
  rw [hnil] at this
  cases this

end Editor
end PropShear
