import PropShear.Proofs.Edit.SourceMap

/-! Looking a position up in the map of edited text.

A reader of the map takes the last segment on the line that starts at or before the column, and goes
on from it character by character. That leads to where the character came from, in low resolution
too: from the last traced offset at or before a kept one, kept characters without a line feed lead
up to it (`exists_anchor`), and whatever is traced after it starts later in the result
(`position_before_lt`). -/
namespace PropShear

open Text (lineFeeds columnAfter)

/-- The last segment of a line that starts at or before a column. -/
def SourceMap.lookup? (lines : List (List Segment)) (line column : Nat) : Option Segment :=
  lines[line]?.bind fun segments => (segments.filter fun s => s.column ≤ (column : Int)).getLast?

/-! ### Lists -/

theorem le_of_mem_numbered {α : Type} {first n : Nat} {a : α} {lines : List (List α)}
    (h : (n, a) ∈ numbered first lines) : first ≤ n := by
  induction lines generalizing first with
  | nil => cases h
  | cons line rest ih =>
    rw [numbered, List.mem_append] at h
    rcases h with h | h
    · obtain ⟨b, -, hb⟩ := List.mem_map.mp h
      cases hb
      exact Nat.le_refl _
    · exact Nat.le_of_succ_le (ih h)

/-- The entries with the number of a line are those of the line. -/
theorem filter_numbered {α : Type} (first : Nat) (lines : List (List α)) {n : Nat}
    {line : List α} (h : lines[n]? = some line) :
    ((numbered first lines).filter (·.1 == first + n)).map Prod.snd = line := by
  induction lines generalizing first n with
  | nil => cases h
  | cons head rest ih =>
    rw [numbered, List.filter_append, List.map_append, List.filter_map, List.map_map]
    cases n with
    | zero =>
      cases h
      have hrest : (numbered (first + 1) rest).filter (·.1 == first + 0) = [] := by
        rw [List.filter_eq_nil_iff]
        rintro ⟨m, a⟩ hmem hm
        have := le_of_mem_numbered hmem
        simp only [beq_iff_eq] at hm
        omega
      rw [hrest]
      simp [Function.comp_def]
    | succ n =>
      have hnext : first + (n + 1) = first + 1 + n := by omega
      have hhead : ¬ first = first + 1 + n := by omega
      rw [hnext, ih (first + 1) h]
      simp [Function.comp_def, hhead]

/-- The last number below a bound that passes a test. -/
theorem getLast?_filter_range {test : Nat → Bool} {n i : Nat} (hi : i < n) (htest : test i = true)
    (hlast : ∀ j, i < j → j < n → test j = false) :
    ((List.range n).filter test).getLast? = some i := by
  induction n with
  | zero => omega
  | succ n ih =>
    rw [List.range_succ, List.filter_append, List.filter_cons, List.filter_nil]
    rcases Nat.lt_or_eq_of_le (Nat.le_of_lt_succ hi) with hlt | rfl
    · rw [hlast n hlt (Nat.lt_succ_self n), if_neg Bool.false_ne_true, List.append_nil]
      exact ih hlt fun j hij hjn => hlast j hij (by omega)
    · rw [htest, if_pos rfl, List.getLast?_concat]

namespace Editor

variable {e : Editor} {hires : Bool} {o k : Nat} {c : Char}

/-! ### Kept characters -/

/-- A character of what is left before an offset comes from a kept offset before it. -/
theorem exists_origin (i : Nat) (hi : i ≤ e.size) (h : (e.before i)[k]? = some c) :
    ∃ o < i, e.keeps o = true ∧ e.text[o]? = some c ∧ e.before o = (e.before i).take k := by
  induction i with
  | zero => cases h
  | succ i ih =>
    have hd : e.text[i]? = some e.text[i] := List.getElem?_eq_getElem hi
    have hearlier : (e.before i)[k]? = some c → ∃ o < i + 1, e.keeps o = true ∧
        e.text[o]? = some c ∧ e.before o = (e.before i).take k := by
      intro h
      obtain ⟨o, ho, hrest⟩ := ih (by omega) h
      exact ⟨o, by omega, hrest⟩
    rw [before_succ hd] at h ⊢
    cases hkeeps : e.keeps i with
    | false =>
      rw [hkeeps, if_neg Bool.false_ne_true] at h
      exact hearlier h
    | true =>
      rw [hkeeps, if_pos rfl] at h
      rw [if_pos rfl]
      rcases Nat.lt_or_ge k (e.before i).length with hlt | hge
      · rw [List.getElem?_append_left hlt] at h
        rw [List.take_append_of_le_length (Nat.le_of_lt hlt)]
        exact hearlier h
      · have hk : k = (e.before i).length := by
          have := (List.getElem?_eq_some_iff.mp h).1
          rw [List.length_append, List.length_singleton] at this
          omega
        subst hk
        rw [List.getElem?_concat_length] at h
        rw [List.take_left]
        exact ⟨i, Nat.lt_succ_self i, hkeeps, hd.trans h, rfl⟩

theorem before_add (e : Editor) (i d : Nat) : ∃ t, e.before (i + d) = e.before i ++ t := by
  rw [before, List.take_add, keptFrom_append]
  exact ⟨_, rfl⟩

/-- Past a kept character the result has moved on. -/
theorem position_before_lt (hkeeps : e.keeps o = true) {j : Nat} (hj : o < j) :
    lineFeeds (e.before o) < lineFeeds (e.before j) ∨
      lineFeeds (e.before o) = lineFeeds (e.before j) ∧
        columnAfter (e.before o) < columnAfter (e.before j) := by
  have hlt := lt_size_of_keeps hkeeps
  have hc : e.text[o]? = some e.text[o] := List.getElem?_eq_getElem hlt
  obtain ⟨d, rfl⟩ := Nat.exists_eq_add_of_lt hj
  obtain ⟨t, ht⟩ := e.before_add (o + 1) d
  rw [Nat.add_right_comm, ht, before_succ hc, hkeeps, if_pos rfl, List.append_assoc]
  exact Text.position_lt_append _ _ (by simp)

/-! ### Anchors -/

/-- From the anchor on, kept characters without a line feed lead to an offset, and no offset after
the anchor and up to it is traced. -/
structure Anchors (e : Editor) (hires : Bool) (anchor o : Nat) : Prop where
  le : anchor ≤ o
  traced : e.traces hires anchor = true
  resultLine : lineFeeds (e.before anchor) = lineFeeds (e.before o)
  resultColumn : columnAfter (e.before anchor) + (o - anchor) = columnAfter (e.before o)
  line : lineFeeds (e.text.take anchor) = lineFeeds (e.text.take o)
  column : columnAfter (e.text.take anchor) + (o - anchor) = columnAfter (e.text.take o)
  last : ∀ j, anchor < j → j ≤ o → e.traces hires j = false

theorem anchors_self (h : e.traces hires o = true) : e.Anchors hires o o where
  le := Nat.le_refl _
  traced := h
  resultLine := rfl
  resultColumn := by omega
  line := rfl
  column := by omega
  last j hj hjo := by omega

/-- An anchor serves the next kept offset too, unless a line feed stands between or that offset is
traced itself. -/
theorem Anchors.succ {anchor : Nat} (h : e.Anchors hires anchor o) (hc : e.text[o]? = some c)
    (hkeeps : e.keeps o = true) (hfeed : c ≠ '\n') (htraces : e.traces hires (o + 1) = false) :
    e.Anchors hires anchor (o + 1) := by
  have hle := h.le
  have hresultColumn := h.resultColumn
  have hcolumn := h.column
  have hbefore : e.before (o + 1) = e.before o ++ [c] := by rw [before_succ hc, hkeeps, if_pos rfl]
  refine ⟨by omega, h.traced, ?_, ?_, ?_, ?_, fun j hj hjo => ?_⟩
  · rw [hbefore, Text.lineFeeds_append, Text.lineFeeds_singleton, if_neg hfeed, h.resultLine]
    rfl
  · rw [hbefore, Text.columnAfter_concat, if_neg hfeed]
    omega
  · rw [take_succ hc, Text.lineFeeds_append, Text.lineFeeds_singleton, if_neg hfeed, h.line]
    rfl
  · rw [take_succ hc, Text.columnAfter_concat, if_neg hfeed]
    omega
  · rcases Nat.lt_or_eq_of_le hjo with hlt | rfl
    · exact h.last j hj (by omega)
    · exact htraces

theorem exists_anchor (hires : Bool) (o : Nat) (hkeeps : e.keeps o = true) :
    ∃ anchor, e.Anchors hires anchor o := by
  induction o with
  | zero =>
    refine ⟨0, anchors_self ?_⟩
    simp [traces, hkeeps, startsRun]
  | succ o ih =>
    cases htraces : e.traces hires (o + 1) with
    | true => exact ⟨o + 1, anchors_self htraces⟩
    | false =>
      -- an offset that is not traced follows a kept character that is no line feed
      have hparts := htraces
      simp only [traces, hkeeps, if_true, Bool.or_eq_false_iff, startsRun, Nat.add_sub_cancel,
        Bool.not_eq_false', beq_eq_false_iff_ne] at hparts
      obtain ⟨⟨⟨-, -, hbefore⟩, -⟩, hcolumn⟩ := hparts
      have hlt := lt_size_of_keeps hbefore
      have hc : e.text[o]? = some e.text[o] := List.getElem?_eq_getElem hlt
      have hfeed : e.text[o] ≠ '\n' := by
        intro hfeed
        rw [before_succ hc, hbefore, if_pos rfl, Text.columnAfter_concat, if_pos hfeed] at hcolumn
        exact hcolumn rfl
      obtain ⟨anchor, h⟩ := ih hbefore
      exact ⟨anchor, h.succ hc hbefore hfeed htraces⟩

/-! ### Looking up -/

/-- A lookup finds the last traced offset on the line that starts at or before the column. -/
theorem Describes.lookup?_eq {lines : List (List SourceMap.Segment)} (h : e.Describes hires lines)
    {line column : Nat} (hline : line < lines.length) :
    SourceMap.lookup? lines line column = (((List.range (e.size + 1)).filter fun o =>
      e.traces hires o && lineFeeds (e.before o) == line &&
        decide (columnAfter (e.before o) ≤ column)).getLast?).map e.segmentAt := by
  have hget : lines[line]? = some lines[line] := List.getElem?_eq_getElem hline
  have hentries := filter_numbered 0 lines hget
  rw [h.entries, Nat.zero_add, List.filter_map, List.map_map, traced,
    List.filter_filter] at hentries
  rw [SourceMap.lookup?, hget, Option.bind_some, ← hentries, List.filter_map, List.getLast?_map,
    List.filter_filter]
  congr 2
  apply List.filter_congr
  intro j _
  simp [entryAt, segmentAt, Bool.and_comm, Bool.and_left_comm]

/-- A character of the result is found where it came from. -/
theorem Describes.lookup?_anchor {lines : List (List SourceMap.Segment)}
    (h : e.Describes hires lines) {anchor : Nat} (hkeeps : e.keeps o = true)
    (ha : e.Anchors hires anchor o) :
    SourceMap.lookup? lines (lineFeeds (e.before o)) (columnAfter (e.before o)) =
      some (e.segmentAt anchor) := by
  have hlt := lt_size_of_keeps hkeeps
  have hline : lineFeeds (e.before o) < lines.length := by
    have := position_before_lt hkeeps hlt
    rw [before_size] at this
    have := h.length
    omega
  have hle := ha.le
  have hcolumn := ha.resultColumn
  rw [h.lookup?_eq hline, getLast?_filter_range (i := anchor) (by omega)]
  · rfl
  · have hstarts : columnAfter (e.before anchor) ≤ columnAfter (e.before o) := by omega
    simp [ha.traced, ha.resultLine, hstarts]
  · intro j hj hjn
    rcases Nat.lt_or_ge o j with hoj | hjo
    · have := position_before_lt hkeeps hoj
      simp only [Bool.and_eq_false_iff, beq_eq_false_iff_ne, decide_eq_false_iff_not]
      omega
    · rw [ha.last j hj hjo]
      rfl

/-- Looking up any character of the result in a map of it, of high or low resolution, leads to the
place in the text where the character stands: the kept offset with the same kept characters before
it. -/
theorem lookup_origin (e : Editor) (source file : Option String) (hires content : Bool) (k : Nat)
    (c : Char) (hk : e.result[k]? = some c) :
    ∃ lines segment o,
      (e.sourceMap source file hires content).segments = .ok lines ∧
      SourceMap.lookup? lines (lineFeeds (e.result.take k)) (columnAfter (e.result.take k)) =
        some segment ∧
      e.keeps o = true ∧ e.text[o]? = some c ∧ e.before o = e.result.take k ∧
      segment.source = 0 ∧
      segment.sourceLine = lineFeeds (e.text.take o) ∧
      segment.sourceColumn + (columnAfter (e.result.take k) - segment.column) =
        columnAfter (e.text.take o) := by
  rw [← before_size] at hk ⊢
  obtain ⟨o, -, hkeeps, hc, hbefore⟩ := exists_origin e.size (Nat.le_refl _) hk
  obtain ⟨anchor, ha⟩ := exists_anchor hires o hkeeps
  have hlookup := (e.describes_trace hires).lookup?_anchor hkeeps ha
  rw [hbefore] at hlookup
  refine ⟨_, _, o, e.segments_sourceMap source file hires content, hlookup, hkeeps, hc, hbefore,
    rfl, ?_, ?_⟩
  · exact congrArg Int.ofNat ha.line
  · have hle := ha.le
    have hresultColumn := ha.resultColumn
    have hcolumn := ha.column
    rw [← hbefore]
    simp only [segmentAt]
    omega

/-- At low resolution `d` has no segment of its own: it is found through the segment of `c`, which
follows a deletion over a line's end. -/
theorem lookup_origin_seam :
    let e : Editor := ⟨"ab\ncd".toList, [⟨1, 3⟩], [1], List.forall_mem_singleton.mpr (by decide)⟩
    e.result[2]? = some 'd' ∧ e.traced false = [0, 1, 3] ∧
    ∃ lines segment o,
      (e.sourceMap none none false false).segments = .ok lines ∧
      SourceMap.lookup? lines 0 2 = some segment ∧ e.text[o]? = some 'd' ∧
      segment.sourceLine = lineFeeds (e.text.take o) ∧
      segment.sourceColumn + (2 - segment.column) = columnAfter (e.text.take o) := by
  intro e
  have hd : e.result[2]? = some 'd' := by decide +kernel
  have htake : e.result.take 2 = ['a', 'c'] := by decide +kernel
  obtain ⟨lines, segment, o, hlines, hlookup, -, ho, -, -, hline, hcolumn⟩ :=
    lookup_origin e none none false false 2 'd' hd
  rw [htake] at hlookup hcolumn
  exact ⟨hd, by decide +kernel, lines, segment, o, hlines, hlookup, ho, hline, hcolumn⟩

end Editor
end PropShear
