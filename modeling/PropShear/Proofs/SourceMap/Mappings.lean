import PropShear.Proofs.SourceMap.Vlq
import PropShear.SourceMap.Mappings

/-! A position table that is written and read again.

Writer and reader count their differences from the same position at every segment, so the round trip
goes segment by segment (`decodePieces_encodeSegments`) and line by line
(`decodeLines_encodeLines`). No digit is a separator, so the pieces are found again and every table
with a line survives (`table_round_trip`). -/
namespace PropShear.SourceMap.Mappings

/-! ### Segments -/

theorem decode_encodeSegment (column : Int) (a : Anchor) (s : Segment) :
    Vlq.decode (encodeSegment column a s) = .ok [s.column - column, s.source - a.source,
      s.sourceLine - a.line, s.sourceColumn - a.column] := by
  have hlast := Vlq.decode_encode_append (s.sourceColumn - a.column) []
  rw [List.append_nil] at hlast
  unfold encodeSegment
  rw [List.append_assoc, List.append_assoc, Vlq.decode_encode_append, Vlq.decode_encode_append,
    Vlq.decode_encode_append, hlast]
  rfl

theorem encodeSegment_ne_nil (column : Int) (a : Anchor) (s : Segment) :
    encodeSegment column a s ≠ [] := by
  simp [encodeSegment, Vlq.encode_ne_nil]

theorem anchorAfter_cons (a : Anchor) (s : Segment) (rest : List Segment) :
    anchorAfter a (s :: rest) = anchorAfter s.anchor rest := by
  unfold anchorAfter
  cases rest with
  | nil => rfl
  | cons t rest => rw [List.getLast?_cons_cons, List.getLast?_cons]; rfl

/-- One step: four integers or more make a segment. -/
theorem decodePieces_cons {column : Int} {a : Anchor} {piece : List Char}
    {rest : List (List Char)} {c s l k : Int} {more : List Int} (hne : piece ≠ [])
    (h : Vlq.decode piece = .ok (c :: s :: l :: k :: more)) :
    decodePieces column a (piece :: rest) =
      (decodePieces (column + c) ⟨a.source + s, a.line + l, a.column + k⟩ rest).map fun found =>
        (⟨column + c, a.source + s, a.line + l, a.column + k⟩ :: found.1, found.2) := by
  rw [decodePieces.eq_3 _ _ _ _ hne, decodePiece, h]
  show (decodePieces (column + c) ⟨a.source + s, a.line + l, a.column + k⟩ rest >>= _) = _
  cases decodePieces (column + c) ⟨a.source + s, a.line + l, a.column + k⟩ rest <;> rfl

/-- The segments of a line are read back, and the reader ends where the writer did. -/
theorem decodePieces_encodeSegments (column : Int) (a : Anchor) (line : List Segment) :
    decodePieces column a (encodeSegments column a line) = .ok (line, anchorAfter a line) := by
  induction line generalizing column a with
  | nil => rfl
  | cons s rest ih =>
    have hcolumn : column + (s.column - column) = s.column := by omega
    have hsource : a.source + (s.source - a.source) = s.source := by omega
    have hline : a.line + (s.sourceLine - a.line) = s.sourceLine := by omega
    have hsourceColumn : a.column + (s.sourceColumn - a.column) = s.sourceColumn := by omega
    rw [encodeSegments, decodePieces_cons (encodeSegment_ne_nil column a s)
      (decode_encodeSegment column a s), hcolumn, hsource, hline, hsourceColumn, anchorAfter_cons]
    show (decodePieces s.column s.anchor _).map _ = _
    rw [ih]
    rfl

/-! ### Lines -/

theorem mem_alphabet_of_mem_encodeSegments {column : Int} {a : Anchor} {line : List Segment}
    {piece : List Char} {c : Char} (hpiece : piece ∈ encodeSegments column a line)
    (hc : c ∈ piece) : c ∈ Vlq.alphabet := by
  induction line generalizing column a with
  | nil => cases hpiece
  | cons s rest ih =>
    rcases List.mem_cons.mp hpiece with rfl | hpiece
    · simp only [encodeSegment, List.mem_append] at hc
      rcases hc with ((hc | hc) | hc) | hc <;> exact Vlq.mem_alphabet_of_mem_encode hc
    · exact ih hpiece

theorem decodePieces_line (a : Anchor) (line : List Segment) :
    decodePieces 0 a (Text.pieces ',' (Text.joined [','] (encodeSegments 0 a line))) =
      .ok (line, anchorAfter a line) := by
  cases line with
  | nil => rfl
  | cons s rest =>
    have hne : encodeSegments 0 a (s :: rest) ≠ [] := List.cons_ne_nil _ _
    rw [Text.pieces_joined hne, decodePieces_encodeSegments]
    intro piece hpiece hcomma
    exact Vlq.comma_not_mem_alphabet (mem_alphabet_of_mem_encodeSegments hpiece hcomma)

theorem decodeLines_encodeLines (a : Anchor) (lines : List (List Segment)) :
    decodeLines a (encodeLines a lines) = .ok lines := by
  induction lines generalizing a with
  | nil => rfl
  | cons line rest ih =>
    rw [encodeLines, decodeLines, decodePieces_line]
    show (decodeLines (anchorAfter a line) _ >>= fun found => pure (line :: found)) = _
    rw [ih]
    rfl

theorem semicolon_not_mem_encodeLines (a : Anchor) (lines : List (List Segment)) :
    ∀ line ∈ encodeLines a lines, ';' ∉ line := by
  induction lines generalizing a with
  | nil => exact List.forall_mem_nil _
  | cons line rest ih =>
    refine List.forall_mem_cons.mpr ⟨fun h => ?_, ih _⟩
    rcases Text.mem_joined h with h | ⟨piece, hpiece, h⟩
    · exact absurd h (by decide)
    · exact Vlq.semicolon_not_mem_alphabet (mem_alphabet_of_mem_encodeSegments hpiece h)

/-- A table with at least one line is read back. -/
theorem decode_encode {lines : List (List Segment)} (h : lines ≠ []) :
    decode (encode lines) = .ok lines := by
  have hne : encodeLines {} lines ≠ [] := by
    cases lines with
    | nil => exact absurd rfl h
    | cons line rest => exact List.cons_ne_nil _ _
  unfold decode encode
  rw [Text.pieces_joined hne (semicolon_not_mem_encodeLines {} lines), decodeLines_encodeLines]

/-- A table is read back, whatever integers its segments hold and whichever of its lines are empty.
Only a table without lines is not. -/
theorem table_round_trip (lines : List (List Segment)) :
    decode (encode lines) = .ok lines ↔ lines ≠ [] := by
  constructor
  · rintro h rfl
    -- the text written for no lines is empty, which is read as one line without segments
    have hone : decode (encode []) = .ok [[]] := rfl
    rw [hone] at h
    cases h
  · exact decode_encode

end PropShear.SourceMap.Mappings
