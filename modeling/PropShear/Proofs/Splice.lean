import PropShear.Proofs.Edit.Bytes
import PropShear.Proofs.Removal.Asked
import PropShear.Proofs.Text.CharIndex
import PropShear.Stripper

/-! Stripping a file is cutting bytes out of it.

The removals of a tiled tree are noted in an editor without fail (`edited_ok`), each as the
characters that make up its bytes (`Removal.charSpan`). `strip_splices` then says what is left: the
bytes outside the removals, in order, and nothing else. -/
namespace PropShear

variable {source : List Char} {modules : List Specifier} {root : Node}

namespace Removal

/-- A byte lies in a removal. -/
def holds (r : Removal) (b : Nat) : Bool := r.start ≤ b && b < r.stop

/-- A byte lies in one of the removals. -/
def gone (removals : List Removal) (b : Nat) : Bool := removals.any (·.holds b)

/-- The whole of a character lies in one of the removals. -/
def Takes (source : List Char) (removals : List Removal) (i : Nat) : Prop :=
  i < source.length ∧ ∃ r ∈ removals,
    r.start ≤ Text.byteOffset source i ∧ Text.byteOffset source (i + 1) ≤ r.stop

/-- A removal in characters. -/
def charSpan (source : List Char) (r : Removal) : Span :=
  ⟨Text.charIndex source r.start, Text.charIndex source r.stop⟩

theorem Fits.charSpan_eq {r : Removal} (h : Fits source r) :
    ∃ i k, charSpan source r = ⟨i, k⟩ ∧ i ≤ k ∧ k ≤ source.length ∧
      Text.byteOffset source i = r.start ∧ Text.byteOffset source k = r.stop := by
  obtain ⟨i, hi, hstart⟩ := h.starts
  obtain ⟨k, hk, hstop⟩ := h.stops
  refine ⟨i, k, ?_, ?_, hk, hstart, hstop⟩
  · rw [charSpan, ← hstart, ← hstop, Text.charIndex_byteOffset source i hi,
      Text.charIndex_byteOffset source k hk]
  · have := h.ordered
    rwa [← hstart, ← hstop, Text.byteOffset_le_iff source hi] at this

/-- A byte of a character lies in a removal exactly if the character does. -/
theorem Fits.holds_eq {r : Removal} (h : Fits source r) {j b : Nat}
    (hle : Text.byteOffset source j ≤ b) (hlt : b < Text.byteOffset source (j + 1)) :
    r.holds b = (charSpan source r).contains j := by
  obtain ⟨i, k, hspan, -, -, hstart, hstop⟩ := h.charSpan_eq
  have hi := Text.byteOffset_le_byte_iff source (i := i) hle hlt
  have hk := Text.byteOffset_le_byte_iff source (i := k) hle hlt
  rw [hspan, Bool.eq_iff_iff, Span.contains_iff, holds, Bool.and_eq_true, decide_eq_true_eq,
    decide_eq_true_eq, ← hstart, ← hstop]
  dsimp only
  omega

theorem Fits.contains_iff {r : Removal} (h : Fits source r) {j : Nat} :
    (charSpan source r).contains j = true ↔ j < source.length ∧
      r.start ≤ Text.byteOffset source j ∧ Text.byteOffset source (j + 1) ≤ r.stop := by
  obtain ⟨i, k, hspan, hik, hk, hstart, hstop⟩ := h.charSpan_eq
  rw [hspan, Span.contains_iff, ← hstart, ← hstop, Text.byteOffset_le_iff source (by omega)]
  dsimp only
  constructor
  · rintro ⟨hij, hjk⟩
    exact ⟨by omega, hij, Text.byteOffset_mono source hjk⟩
  · rintro ⟨hj, hij, hjk⟩
    exact ⟨hij, (Text.byteOffset_le_iff source hj).mp hjk⟩

end Removal

/-! ### Noting removals in an editor -/

namespace Stripper

/-- One step: the span of the removal is noted unless it is empty. -/
theorem after_note (marked : Bool) {e : Editor} {r : Removal} (htext : e.text = source)
    (hr : r.Fits source) :
    ∃ e', Editor.after (note marked source r) e = .ok e' ∧ e'.text = source ∧
      e'.deleted = e.deleted ++ [r.charSpan source].filter fun s => s.start < s.stop := by
  obtain ⟨i, k, hspan, hik, hk, -, -⟩ := hr.charSpan_eq
  have hi : Text.charIndex source r.start = i := congrArg Span.start hspan
  have hk' : Text.charIndex source r.stop = k := congrArg Span.stop hspan
  have hsize : e.size = source.length := congrArg List.length htext
  have hdelete : ∀ e₁ : Editor, e₁.size = e.size → e₁.text = e.text → e₁.deleted = e.deleted →
      ∃ e', (Editor.delete i k).run e₁ = (.ok (), e') ∧ e'.text = source ∧
        e'.deleted = e.deleted ++ [⟨i, k⟩].filter fun s => s.start < s.stop := by
    intro e₁ hsize₁ htext₁ hdeleted₁
    have hbound : k ≤ e₁.size := by omega
    refine ⟨_, Editor.run_delete hik hbound, ?_, ?_⟩
    · rw [Editor.text_addSpan, htext₁, htext]
    · rw [Editor.deleted_addSpan hbound, hdeleted₁]
  rw [hspan]
  unfold note
  rw [hi, hk']
  cases marked with
  | false =>
    obtain ⟨e', he', hrest⟩ := hdelete e rfl rfl rfl
    exact ⟨e', Editor.after_of_ok he', hrest⟩
  | true =>
    obtain ⟨e', he', hrest⟩ := hdelete ((e.addMark i).addMark k) rfl rfl rfl
    refine ⟨e', Editor.after_of_ok ?_, hrest⟩
    dsimp only
    rw [if_pos rfl, run_bind_ok (Editor.run_mark (by omega)),
      run_bind_ok (Editor.run_mark (by rw [Editor.size_addMark]; omega))]
    exact he'

/-- The whole run: the spans of all removals are noted, in order, the empty ones left out. -/
theorem after_notes (marked : Bool) (removals : List Removal) {e : Editor}
    (htext : e.text = source) (hfits : ∀ r ∈ removals, r.Fits source) :
    ∃ e', Editor.after (removals.forM (note marked source)) e = .ok e' ∧ e'.text = source ∧
      e'.deleted = e.deleted ++
        (removals.map (Removal.charSpan source)).filter fun s => s.start < s.stop := by
  induction removals generalizing e with
  | nil => exact ⟨e, rfl, htext, (List.append_nil _).symm⟩
  | cons r rest ih =>
    rw [List.forall_mem_cons] at hfits
    obtain ⟨e₁, hnote, htext₁, hdeleted₁⟩ := after_note marked htext hfits.1
    obtain ⟨e₂, hrun, htext₂, hdeleted₂⟩ := ih htext₁ hfits.2
    refine ⟨e₂, ?_, htext₂, ?_⟩
    · rw [Editor.after_cons, hnote]
      exact hrun
    · rw [hdeleted₂, hdeleted₁, List.append_assoc, ← List.filter_append]
      rfl

theorem edited_ok (marked : Bool) {removals : List Removal}
    (hfits : ∀ r ∈ removals, r.Fits source) :
    ∃ e, edited marked source removals = .ok e ∧ e.text = source ∧
      e.deleted = (removals.map (Removal.charSpan source)).filter fun s => s.start < s.stop := by
  obtain ⟨e, hrun, htext, hdeleted⟩ := after_notes marked removals (e := .ofText source) rfl hfits
  exact ⟨e, hrun, htext, hdeleted⟩

end Stripper

/-! ### What is left and what is gone -/

namespace Removal

/-- Leaving out the empty spans, and merging the others, covers just the characters taken. -/
theorem covers_charSpans {removals : List Removal} (hfits : ∀ r ∈ removals, r.Fits source)
    (i : Nat) : Span.covers (Span.merge
      ((removals.map (charSpan source)).filter fun s => s.start < s.stop)) i = true ↔
      Takes source removals i := by
  rw [Span.covers_merge, Span.covers_iff]
  constructor
  · rintro ⟨s, hs, hin⟩
    obtain ⟨r, hr, rfl⟩ := List.mem_map.mp (List.mem_filter.mp hs).1
    obtain ⟨hi, htaken⟩ := (hfits r hr).contains_iff.mp (Span.contains_iff.mpr hin)
    exact ⟨hi, r, hr, htaken⟩
  · rintro ⟨hi, r, hr, htaken⟩
    have hin := Span.contains_iff.mp ((hfits r hr).contains_iff.mpr ⟨hi, htaken⟩)
    refine ⟨charSpan source r, List.mem_filter.mpr ⟨List.mem_map_of_mem hr, ?_⟩, hin⟩
    exact decide_eq_true (Nat.lt_of_le_of_lt hin.1 hin.2)

/-- A byte of a character is gone exactly if the character is taken. -/
theorem gone_eq {removals : List Removal} (hfits : ∀ r ∈ removals, r.Fits source) {j b : Nat}
    (hj : j < source.length) (hle : Text.byteOffset source j ≤ b)
    (hlt : b < Text.byteOffset source (j + 1)) :
    gone removals b = true ↔ Takes source removals j := by
  rw [gone, List.any_eq_true, Takes, and_iff_right hj]
  constructor
  · rintro ⟨r, hr, hb⟩
    rw [(hfits r hr).holds_eq hle hlt] at hb
    exact ⟨r, hr, ((hfits r hr).contains_iff.mp hb).2⟩
  · rintro ⟨r, hr, htaken⟩
    refine ⟨r, hr, ?_⟩
    rw [(hfits r hr).holds_eq hle hlt]
    exact (hfits r hr).contains_iff.mpr ⟨hj, htaken⟩

theorem sharesFate {removals : List Removal} {spans : List Span}
    (hfits : ∀ r ∈ removals, r.Fits source)
    (hcovers : ∀ i, Span.covers spans i = true ↔ Takes source removals i) :
    Editor.SharesFate spans (gone removals) source := by
  intro k hk b hle hlt
  rw [Bool.eq_iff_iff, gone_eq hfits hk hle hlt, hcovers]

end Removal

namespace Stripper

/-- A stripper that tracks one module in every file. -/
def tracking (m : String) : Stripper := ⟨"strip", ⟨[], [], [m], false⟩, ⟨[], []⟩⟩

theorem stripTree_eq (s : Stripper) {code path : String} {removals : List Removal} {e : Editor}
    (hfind : Removal.find code.toList s.settings.modules root = .ok removals)
    (hrun : edited s.settings.sourceMap code.toList removals = .ok e) :
    s.stripTree root code path = .ok ⟨String.ofList e.result, removals, e.removed,
      if s.settings.sourceMap then some (e.sourceMap (some path) (some path) true true)
      else none⟩ := by
  rw [stripTree, hfind, orElse]
  show (orElse Error.edit (edited _ _ _) >>= _) = _
  rw [hrun]
  rfl

/-- The removals of a tree end up in an editor that takes away just their characters. -/
theorem edited_find (marked : Bool) {removals : List Removal} (ht : root.Tiled source)
    (hfind : Removal.find source modules root = .ok removals) :
    ∃ e, edited marked source removals = .ok e ∧ e.text = source ∧
      ∀ i, Span.covers e.removed i = true ↔ Removal.Takes source removals i := by
  have hfits : ∀ r ∈ removals, r.Fits source := fun r hr => Removal.find_fits ht hfind hr
  obtain ⟨e, hrun, htext, hdeleted⟩ := edited_ok marked hfits
  refine ⟨e, hrun, htext, ?_⟩
  rw [Editor.removed, hdeleted]
  exact Removal.covers_charSpans hfits

/-- A file whose removals can be told is stripped without fail. What is left are the bytes that no
removal holds, and what is gone is listed in canonical form. -/
theorem stripTree_ok (s : Stripper) (code path : String) {removals : List Removal}
    (ht : root.Tiled code.toList)
    (hfind : Removal.find code.toList s.settings.modules root = .ok removals) :
    ∃ stripped, s.stripTree root code path = .ok stripped ∧ stripped.removals = removals ∧
      Text.Utf8.encode stripped.code.toList =
        Text.survivors (Removal.gone removals) (Text.Utf8.encode code.toList) ∧
      Span.Canonical stripped.removed ∧
      ∀ i, Span.covers stripped.removed i = true ↔ Removal.Takes code.toList removals i := by
  have hfits : ∀ r ∈ removals, r.Fits code.toList := fun r hr => Removal.find_fits ht hfind hr
  obtain ⟨e, hrun, htext, hcovers⟩ := edited_find s.settings.sourceMap ht hfind
  refine ⟨_, stripTree_eq s hfind hrun, rfl, ?_, e.removed_canonical, hcovers⟩
  rw [String.toList_ofList, Editor.result_eq, htext]
  exact (Removal.sharesFate hfits hcovers).encode_eq

theorem stripWith_eq (s : Stripper) {parse : Parser}
    {code path : String} {stripped : Stripped}
    (heligible : s.filter.isEligible path.toList = true)
    (hparse : parse path code.toList = .ok root) (h : s.stripTree root code path = .ok stripped) :
    s.stripWith parse code path = .ok (some stripped) := by
  rw [stripWith, if_pos heligible, hparse]
  show (s.stripTree root code path >>= _) = _
  rw [h]
  rfl

/-- A file that does not parse is not stripped. -/
theorem stripWith_error (s : Stripper) {parse : Parser}
    {code path : String} {e : SyntaxError} (heligible : s.filter.isEligible path.toList = true)
    (hparse : parse path code.toList = .error e) :
    s.stripWith parse code path = .error (.syntaxError e) := by
  rw [stripWith, if_pos heligible, hparse]
  rfl

/-- A file whose removals cannot be told is not stripped. -/
theorem stripWith_fault (s : Stripper) {parse : Parser}
    {code path : String} {e : Fault} (heligible : s.filter.isEligible path.toList = true)
    (hparse : parse path code.toList = .ok root)
    (hfind : Removal.find code.toList s.settings.modules root = .error e) :
    s.stripWith parse code path = .error (.fault e) := by
  rw [stripWith, if_pos heligible, hparse]
  show (s.stripTree root code path >>= _) = _
  rw [stripTree, hfind]
  rfl

/-- An eligible file with a tree free of errors is stripped as its tree tells. -/
theorem stripWith_checkTree (s : Stripper) {code path : String} (hclean : root.hasError = false)
    (heligible : s.filter.isEligible path.toList = true) {stripped : Stripped}
    (h : s.stripTree root code path = .ok stripped) :
    s.stripWith (checkTree root) code path = .ok (some stripped) := by
  have hcheck : checkTree root path code.toList = .ok root := by
    rw [checkTree, Node.syntaxError?, hclean]
    rfl
  exact stripWith_eq s heligible hcheck h

/-- Stripping an eligible file never fails on a well-formed tree without errors. The bytes of the
result are those of the file that lie in no removal of the tree, in order, and the spans reported
as removed are the maximal runs of characters that are gone, in order. -/
theorem strip_splices (s : Stripper) (root : Node) (code path : String)
    (wf : root.WellFormed code.toList) (hclean : root.hasError = false)
    (heligible : s.filter.isEligible path.toList = true) :
    ∃ removals stripped,
      Removal.find code.toList s.settings.modules root = .ok removals ∧
      s.stripWith (checkTree root) code path = .ok (some stripped) ∧
      stripped.removals = removals ∧
      Text.Utf8.encode stripped.code.toList =
        Text.survivors (Removal.gone removals) (Text.Utf8.encode code.toList) ∧
      stripped.removed.Pairwise (fun a b => a.stop < b.start) ∧
      ∀ span, span ∈ stripped.removed ↔ span.IsRun (Removal.Takes code.toList removals) := by
  obtain ⟨found, hfind, -⟩ := Removal.find_ok s.settings.modules wf
  obtain ⟨stripped, hstrip, hremovals, hcode, hcanonical, hcovers⟩ :=
    stripTree_ok s code path wf.tiled hfind
  have htakes := funext fun i => propext (hcovers i)
  refine ⟨_, stripped, hfind, stripWith_checkTree s hclean heligible hstrip, hremovals, hcode,
    hcanonical.apart, fun span => ?_⟩
  rw [hcanonical.mem_iff_isRun, htakes]

theorem strip_splices_sample :
    ∃ stripped, (⟨"strip", ⟨[], [], ["π"], true⟩, ⟨[], []⟩⟩ : Stripper).stripWith
        (checkTree Node.sample) Node.sampleText "a.jsx" = .ok (some stripped) ∧
      Text.Utf8.encode stripped.code.toList = Text.Utf8.encode "let é, c;".toList := by
  obtain ⟨removals, stripped, hfind, hstrip, -, hcode, -⟩ :=
    strip_splices ⟨"strip", ⟨[], [], ["π"], true⟩, ⟨[], []⟩⟩ Node.sample Node.sampleText "a.jsx"
      Node.sample_wellFormed rfl rfl
  have hremovals : Except.ok [⟨.required, some "π", 6, 25⟩] = Except.ok removals := hfind
  cases hremovals
  exact ⟨stripped, hstrip, hcode.trans (by decide)⟩

end Stripper
end PropShear
