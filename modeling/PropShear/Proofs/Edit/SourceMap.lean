import Mathlib.Data.List.Nodup
import PropShear.Proofs.Edit.Calls
import PropShear.Proofs.Edit.Trace
import PropShear.Proofs.SourceMap.Mappings
import PropShear.Proofs.Tree.WellFormed
import PropShear.Stripper

/-! What a source map of edited text holds.

Read back, a map is what was drawn (`segments_sourceMap`): one segment for each traced
offset, in order. Different offsets have different positions, so a marked offset is referred to by
exactly one segment (`references_eq_one`). A stripper that makes maps marks both ends of whatever it
deletes (`Stripper.note_eq_calls`), so the ends of all that it took away can be found in the map. -/
namespace PropShear

open Text (lineFeeds columnAfter)

/-- The number of segments that refer to an offset of a text. -/
def SourceMap.references (lines : List (List Segment)) (text : List Char) (o : Nat) : Nat :=
  lines.flatten.countP fun s =>
    s.sourceLine == (lineFeeds (text.take o) : Int) &&
      s.sourceColumn == (columnAfter (text.take o) : Int)

namespace Editor

/-- The lines hold one segment for each traced offset, in order and on its line, and there is one
line for each line of the result. -/
structure Describes (e : Editor) (hires : Bool) (lines : List (List SourceMap.Segment)) :
    Prop where
  entries : numbered 0 lines = (e.traced hires).map e.entryAt
  length : lines.length = lineFeeds e.result + 1

/-! ### Reading the map back -/

theorem segments_sourceMap (e : Editor) (source file : Option String) (hires content : Bool) :
    (e.sourceMap source file hires content).segments = .ok (e.trace hires) := by
  unfold SourceMap.segments sourceMap
  rw [String.toList_ofList]
  exact SourceMap.Mappings.decode_encode (e.trace_ne_nil hires)

theorem describes_trace (e : Editor) (hires : Bool) : e.Describes hires (e.trace hires) :=
  ⟨(e.numbered_trace hires).1, (e.numbered_trace hires).2⟩

/-! ### References -/

variable {e : Editor} {hires : Bool} {o : Nat}

theorem mem_traced : o ∈ e.traced hires ↔ o ≤ e.size ∧ e.traces hires o = true := by
  rw [traced, List.mem_filter, List.mem_range, Nat.lt_succ_iff]

theorem mem_traced_of_mark (hmark : o ∈ e.marks) (ho : o ≤ e.size) : o ∈ e.traced hires := by
  refine mem_traced.mpr ⟨ho, ?_⟩
  unfold traces
  split <;> simp [hmark]

/-- A traced offset is referred to once. -/
theorem references_of_traced {lines : List (List SourceMap.Segment)}
    (h : e.Describes hires lines) (ho : o ∈ e.traced hires) :
    SourceMap.references lines e.text o = 1 := by
  have hflatten : lines.flatten = (e.traced hires).map e.segmentAt := by
    rw [← map_snd_numbered 0, h.entries, List.map_map]
    rfl
  have hnodup : (e.traced hires).Nodup := List.nodup_range.filter _
  rw [SourceMap.references, hflatten, List.countP_map, ← List.count_eq_one_of_mem hnodup ho]
  apply List.countP_congr
  intro k hk
  have hkle := (mem_traced.mp hk).1
  have hole := (mem_traced.mp ho).1
  simp only [Function.comp_apply, segmentAt, Bool.and_eq_true, beq_iff_eq, Int.natCast_inj]
  constructor
  · rintro ⟨hline, hcolumn⟩
    exact Text.take_position_injective hkle hole hline hcolumn
  · rintro rfl
    exact ⟨rfl, rfl⟩

theorem references_eq_one {text : List Char} {cs : List Call}
    {lines : List (List SourceMap.Segment)} (records : Records text cs e)
    (h : e.Describes hires lines) (hmark : .mark o ∈ cs) :
    SourceMap.references lines text o = 1 := by
  have hmem := (records.marks o).mpr hmark
  have hle : o ≤ e.size := by
    rw [size, records.sameText]
    exact records.inside o hmem
  rw [← records.sameText]
  exact references_of_traced h (mem_traced_of_mark hmem hle)

end Editor

/-! ### Maps of stripped files -/

namespace Stripper
open Editor (Call)

/-- The calls by which a removal is noted. -/
def noteCalls (marked : Bool) (source : List Char) (r : Removal) : List Call :=
  let start : Int := Text.charIndex source r.start
  let stop : Int := Text.charIndex source r.stop
  (if marked then [.mark start, .mark stop] else []) ++ [.delete start stop]

theorem note_eq_calls (marked : Bool) (source : List Char) (r : Removal) :
    note marked source r = (noteCalls marked source r).forM Call.run := by
  cases marked <;> simp [note, noteCalls, Call.run]

theorem edited_eq_calls (marked : Bool) (source : List Char) (removals : List Removal) :
    edited marked source removals =
      Editor.calls source (removals.flatMap (noteCalls marked source)) := by
  have hrun : ∀ e, Editor.after (removals.forM (note marked source)) e =
      Editor.after ((removals.flatMap (noteCalls marked source)).forM Call.run) e := by
    induction removals with
    | nil => exact fun e => rfl
    | cons r rest ih =>
      intro e
      rw [Editor.after_cons, List.flatMap_cons, Editor.after_append, note_eq_calls]
      exact bind_congr ih
  exact hrun _

/-- Whatever the notes of removals delete has both its ends marked if a map is wanted. -/
theorem marks_of_delete {source : List Char} {removals : List Removal} {i k : Int}
    (h : Call.delete i k ∈ removals.flatMap (noteCalls true source)) :
    .mark i ∈ removals.flatMap (noteCalls true source) ∧
      .mark k ∈ removals.flatMap (noteCalls true source) := by
  obtain ⟨r, hr, hcall⟩ := List.mem_flatMap.mp h
  simp only [noteCalls, if_true, List.cons_append, List.nil_append, List.mem_cons,
    List.not_mem_nil, or_false, reduceCtorEq, false_or, Call.delete.injEq] at hcall
  obtain ⟨rfl, rfl⟩ := hcall
  exact ⟨List.mem_flatMap.mpr ⟨r, hr, by simp [noteCalls]⟩,
    List.mem_flatMap.mpr ⟨r, hr, by simp [noteCalls]⟩⟩

theorem orElse_eq_ok {ε ε' α : Type} {wrap : ε → ε'} {x : Except ε α} {a : α}
    (h : orElse wrap x = .ok a) : x = .ok a := by
  cases x with
  | error err => cases h
  | ok b =>
    cases h
    rfl

/-- The editor behind a stripped file. -/
theorem stripWith_cases {s : Stripper} {parse : Parser}
    {code path : String} {stripped : Stripped}
    (h : s.stripWith parse code path = .ok (some stripped)) :
    ∃ removals e, edited s.settings.sourceMap code.toList removals = .ok e ∧
      stripped = ⟨String.ofList e.result, removals, e.removed,
        if s.settings.sourceMap then some (e.sourceMap (some path) (some path) true true)
        else none⟩ := by
  unfold stripWith at h
  split at h
  · obtain ⟨root, -, h⟩ := bind_eq_ok h
    obtain ⟨result, hstrip, h⟩ := bind_eq_ok h
    cases h
    obtain ⟨removals, -, hstrip⟩ := bind_eq_ok hstrip
    obtain ⟨e, hnotes, hresult⟩ := bind_eq_ok hstrip
    cases hresult
    exact ⟨removals, e, orElse_eq_ok hnotes, rfl⟩
  · cases h

/-- A source map holds exactly what it should. After any calls of an editor that succeed, it has one
segment for each traced offset, in order, and refers once to each offset that was marked. So the map
of a stripped file refers once to each end of whatever was taken away. -/
theorem map_exact :
    (∀ (text : List Char) (cs : List Call) (e : Editor), Editor.calls text cs = .ok e →
      ∀ (source file : Option String) (hires content : Bool), ∃ lines,
        (e.sourceMap source file hires content).segments = .ok lines ∧ e.Describes hires lines ∧
        ∀ o : Nat, .mark o ∈ cs → SourceMap.references lines text o = 1) ∧
    ∀ (s : Stripper) (parse : Parser) (code path : String)
      (stripped : Stripped), s.settings.sourceMap = true →
      s.stripWith parse code path = .ok (some stripped) →
      ∃ map lines, stripped.map = some map ∧ map.segments = .ok lines ∧
        ∀ span ∈ stripped.removed, SourceMap.references lines code.toList span.start = 1 ∧
          SourceMap.references lines code.toList span.stop = 1 := by
  constructor
  · intro text cs e h source file hires content
    exact ⟨_, e.segments_sourceMap source file hires content, e.describes_trace hires,
      fun o ho => Editor.references_eq_one (Editor.calls_records h) (e.describes_trace hires) ho⟩
  · intro s parse code path stripped hmap h
    obtain ⟨removals, e, hnotes, rfl⟩ := stripWith_cases h
    rw [hmap, edited_eq_calls] at hnotes
    have records := Editor.calls_records hnotes
    refine ⟨_, _, if_pos hmap, e.segments_sourceMap _ _ _ _, fun span hspan => ?_⟩
    obtain ⟨⟨t, ht, hstart⟩, u, hu, hstop⟩ := Span.merge_ends hspan
    have hfirst := (marks_of_delete ((records.deleted t).mp ht).2).1
    have hlast := (marks_of_delete ((records.deleted u).mp hu).2).2
    rw [← hstart, ← hstop]
    exact ⟨Editor.references_eq_one records (e.describes_trace true) hfirst,
      Editor.references_eq_one records (e.describes_trace true) hlast⟩

/-- A deletion over a line's end, marked at both its ends and at the end of the text, and the map of
a file whose only statement is an import to strip. -/
theorem map_exact_seam :
    (∃ e lines,
      Editor.calls "a\nb\nc".toList [.delete 1 4, .mark 4, .mark 1, .mark 5] = .ok e ∧
      e.result = "ac".toList ∧ e.traced false = [0, 1, 4, 5] ∧
      (e.sourceMap none none false false).segments = .ok lines ∧ e.Describes false lines ∧
      SourceMap.references lines "a\nb\nc".toList 4 = 1) ∧
    ∃ stripped map lines,
      (⟨"strip", ⟨[], [], ["π"], true⟩, ⟨[], []⟩⟩ : Stripper).stripWith (checkTree Node.sample)
        Node.sampleText "a.jsx" = .ok (some stripped) ∧
      stripped.removed = [⟨5, 23⟩] ∧ stripped.map = some map ∧ map.segments = .ok lines ∧
      SourceMap.references lines Node.sampleText.toList 5 = 1 ∧
      SourceMap.references lines Node.sampleText.toList 23 = 1 := by
  constructor
  · have hcalls : Editor.calls "a\nb\nc".toList [.delete 1 4, .mark 4, .mark 1, .mark 5] =
      .ok ⟨"a\nb\nc".toList, [⟨1, 4⟩], [4, 1, 5], by simp⟩ := rfl
    obtain ⟨lines, hlines, hdescribes, honce⟩ := map_exact.1 _ _ _ hcalls none none false false
    exact ⟨_, lines, hcalls, by decide +kernel, by decide +kernel, hlines, hdescribes,
      honce 4 (by decide)⟩
  · obtain ⟨stripped, hstrip, hremoved⟩ : ∃ stripped,
        (⟨"strip", ⟨[], [], ["π"], true⟩, ⟨[], []⟩⟩ : Stripper).stripWith (checkTree Node.sample)
          Node.sampleText "a.jsx" = .ok (some stripped) ∧ stripped.removed = [⟨5, 23⟩] :=
      ⟨_, rfl, by decide +kernel⟩
    obtain ⟨map, lines, hmap, hlines, honce⟩ := map_exact.2 _ _ _ _ stripped rfl hstrip
    have := honce ⟨5, 23⟩ (by rw [hremoved]; decide)
    exact ⟨stripped, map, lines, hstrip, hremoved, hmap, hlines, this⟩

end Stripper
end PropShear
