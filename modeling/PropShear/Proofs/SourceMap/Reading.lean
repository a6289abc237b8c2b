import PropShear.Proofs.SourceMap.Canonical
import PropShear.Proofs.SourceMap.Mappings

/-! What a written position table holds, and which texts are none.

A text is refused exactly if it is malformed: a character of it belongs nowhere, or a piece between
separators ends inside a number. Every other text is a table. Each piece that is not empty is a row
of integers, and a row of four or more is a segment; shorter rows only move the generated column
(`IsLine`). A row holds at least one integer, so there always is a column to move by
(`decode_refuses_malformed`). -/
namespace PropShear.SourceMap

/-- The integers of one piece make a segment. -/
def isSegment (row : List Int) : Bool := 4 ≤ row.length

/-- The sum of the integers at one position of each row; a row without that position adds
nothing. -/
def total (k : Nat) (rows : List (List Int)) : Int := (rows.map (·.getD k 0)).foldr (· + ·) 0

/-- The position in the sources after some rows: only segments move it. -/
def Anchor.after (a : Anchor) (rows : List (List Int)) : Anchor :=
  ⟨a.source + total 1 (rows.filter isSegment), a.line + total 2 (rows.filter isSegment),
    a.column + total 3 (rows.filter isSegment)⟩

namespace Mappings

/-- The segments of a line, one for each row with four integers or more. The column of a segment
counts all rows of the line up to its own, its position in the sources only those that are
segments. -/
structure IsLine (column : Int) (a : Anchor) (rows : List (List Int)) (segments : List Segment) :
    Prop where
  length : segments.length = rows.countP isSegment
  segment : ∀ j row, rows[j]? = some row → isSegment row = true →
    ∃ s, segments[(rows.take j).countP isSegment]? = some s ∧
      s.column = column + total 0 (rows.take (j + 1)) ∧ s.anchor = a.after (rows.take (j + 1))

/-- The lines of a table. Columns start anew on each line, positions in the sources go on from line
to line. -/
structure IsTable (a : Anchor) (rows : List (List (List Int))) (table : List (List Segment)) :
    Prop where
  length : table.length = rows.length
  line : ∀ i row, rows[i]? = some row →
    ∃ line, table[i]? = some line ∧ IsLine 0 (a.after (rows.take i).flatten) row line

/-- The integers of each piece that is not empty. -/
def rowsOf (pieces : List (List Char)) : List (List Int) :=
  (pieces.filter (!·.isEmpty)).map fun piece => (Vlq.groups piece).map Vlq.value

/-- The rows of each line of a text. -/
def rows (s : List Char) : List (List (List Int)) :=
  (Text.pieces ';' s).map fun line => rowsOf (Text.pieces ',' line)

/-- The text holds a character that is neither a digit nor a separator, or a piece of it ends in a
digit with the continuation bit. -/
def Malformed (s : List Char) : Prop :=
  (∃ c ∈ s, c ∉ Vlq.alphabet ∧ c ≠ ',' ∧ c ≠ ';') ∨
    ∃ line ∈ Text.pieces ';' s, ∃ piece ∈ Text.pieces ',' line,
      ∃ c ∈ piece.getLast?, Vlq.continues c = true

/-- All groups of digits in the piece are whole. -/
def Whole (piece : List Char) : Prop := ∀ g ∈ Vlq.groups piece, Vlq.IsGroup g

end Mappings

/-! ### Sums of rows -/

theorem total_cons (k : Nat) (row : List Int) (rows : List (List Int)) :
    total k (row :: rows) = row.getD k 0 + total k rows := rfl

theorem total_append (k : Nat) (rows more : List (List Int)) :
    total k (rows ++ more) = total k rows + total k more := by
  induction rows with
  | nil => exact (Int.zero_add _).symm
  | cons row rest ih => rw [List.cons_append, total_cons, total_cons, ih, Int.add_assoc]

theorem Anchor.after_nil (a : Anchor) : a.after [] = a := by
  simp only [Anchor.after, List.filter_nil, total, List.map_nil, List.foldr_nil, Int.add_zero]

theorem Anchor.after_append (a : Anchor) (rows more : List (List Int)) :
    a.after (rows ++ more) = (a.after rows).after more := by
  simp only [Anchor.after, List.filter_append, total_append, Int.add_assoc]

theorem Anchor.after_of_short {row : List Int} (h : isSegment row = false) (a : Anchor) :
    a.after [row] = a := by
  have hnone : [row].filter isSegment = [].filter isSegment := by simp [h]
  rw [Anchor.after, hnone]
  exact a.after_nil

namespace Mappings

/-! ### Rows -/

/-- The segment that a row makes, if it makes one. -/
def made (column : Int) (a : Anchor) (row : List Int) : List Segment :=
  if isSegment row then
    [⟨column + row.getD 0 0, (a.after [row]).source, (a.after [row]).line, (a.after [row]).column⟩]
  else []

theorem length_made (column : Int) (a : Anchor) (row : List Int) :
    (made column a row).length = [row].countP isSegment := by
  unfold made
  split
  · next h => simp [h]
  · next h => simp [h]

theorem IsLine.nil (column : Int) (a : Anchor) : IsLine column a [] [] :=
  ⟨rfl, fun j row h => by cases h⟩

/-- One more row in front: it moves what is counted from and makes a segment if it is long
enough. -/
theorem IsLine.cons {column : Int} {a : Anchor} {row : List Int} {rows : List (List Int)}
    {line : List Segment} (h : IsLine (column + row.getD 0 0) (a.after [row]) rows line) :
    IsLine column a (row :: rows) (made column a row ++ line) := by
  have hcount : ∀ more : List (List Int), (row :: more).countP isSegment =
      (made column a row).length + more.countP isSegment := fun more => by
    rw [length_made, ← List.countP_append]
    rfl
  have hafter : ∀ more : List (List Int), a.after (row :: more) = (a.after [row]).after more :=
    a.after_append [row]
  refine ⟨by rw [List.length_append, h.length, hcount], fun j other hj hother => ?_⟩
  cases j with
  | zero =>
    cases hj
    rw [made, if_pos hother]
    refine ⟨_, rfl, ?_, rfl⟩
    rw [List.take_succ_cons, total_cons]
    exact congrArg (column + ·) (Int.add_zero _).symm
  | succ j =>
    obtain ⟨s, hs, hcolumn, hanchor⟩ := h.segment j other hj hother
    refine ⟨s, ?_, ?_, ?_⟩
    · rw [List.take_succ_cons, hcount, List.getElem?_append_right (Nat.le_add_right _ _),
        Nat.add_sub_cancel_left, hs]
    · rw [hcolumn, List.take_succ_cons, total_cons, Int.add_assoc]
    · rw [hanchor, List.take_succ_cons]
      exact (hafter _).symm

theorem IsTable.nil (a : Anchor) : IsTable a [] [] := ⟨rfl, fun i row h => by cases h⟩

theorem IsTable.cons {a : Anchor} {row : List (List Int)} {rows : List (List (List Int))}
    {line : List Segment} {table : List (List Segment)} (hline : IsLine 0 a row line)
    (h : IsTable (a.after row) rows table) : IsTable a (row :: rows) (line :: table) := by
  refine ⟨by rw [List.length_cons, List.length_cons, h.length], fun i other hi => ?_⟩
  cases i with
  | zero =>
    cases hi
    refine ⟨line, rfl, ?_⟩
    rw [List.take_zero, List.flatten_nil, a.after_nil]
    exact hline
  | succ i =>
    obtain ⟨found, hfound, hshape⟩ := h.line i other hi
    refine ⟨found, hfound, ?_⟩
    rw [List.take_succ_cons, List.flatten_cons, a.after_append]
    exact hshape

/-! ### Pieces -/

/-- A piece that is not empty is a row of at least one integer if its groups are whole, and is
refused otherwise. -/
theorem decodePiece_cases {piece : List Char} (hne : piece ≠ []) :
    Whole piece ∧ (∃ c more, (Vlq.groups piece).map Vlq.value = c :: more ∧
        Vlq.decode piece = .ok (c :: more)) ∨
      ¬ Whole piece ∧ ∃ e, decodePiece piece = .error (.badPiece e) := by
  by_cases hwhole : Whole piece
  · refine .inl ⟨hwhole, ?_⟩
    have hrow : (Vlq.groups piece).map Vlq.value ≠ [] := by
      intro hnil
      apply hne
      rw [← Vlq.flatten_groups piece, List.map_eq_nil_iff.mp hnil]
      rfl
    obtain ⟨c, more, hrow⟩ := List.exists_cons_of_ne_nil hrow
    exact ⟨c, more, hrow, Vlq.decode_eq_ok_iff.mpr ⟨hwhole, hrow.symm⟩⟩
  · refine .inr ⟨hwhole, ?_⟩
    cases h : Vlq.decode piece with
    | ok values => exact absurd (Vlq.decode_eq_ok_iff.mp h).1 hwhole
    | error e => exact ⟨e, by rw [decodePiece, h]; rfl⟩

/-- One step: fewer than four integers only move the column. -/
theorem decodePieces_short {column : Int} {a : Anchor} {piece : List Char}
    {rest : List (List Char)} {c : Int} {more : List Int} (hne : piece ≠ [])
    (h : Vlq.decode piece = .ok (c :: more)) (hshort : isSegment (c :: more) = false) :
    decodePieces column a (piece :: rest) = decodePieces (column + c) a rest := by
  rw [decodePieces.eq_3 _ _ _ _ hne, decodePiece, h]
  rcases more with _ | ⟨s, _ | ⟨l, _ | ⟨k, others⟩⟩⟩
  · rfl
  · rfl
  · rfl
  · simp [isSegment] at hshort

/-- One step: a row adds its segment, if it makes one, to what the pieces after it give. -/
theorem decodePieces_row {column : Int} {a : Anchor} {piece : List Char}
    (rest : List (List Char)) {c : Int} {more : List Int} (hne : piece ≠ [])
    (h : Vlq.decode piece = .ok (c :: more)) :
    decodePieces column a (piece :: rest) =
      (decodePieces (column + c) (a.after [c :: more]) rest).map fun found =>
        (made column a (c :: more) ++ found.1, found.2) := by
  cases hrow : isSegment (c :: more) with
  | false =>
    rw [decodePieces_short hne h hrow, a.after_of_short hrow, made, hrow]
    cases decodePieces (column + c) a rest <;> rfl
  | true =>
    rcases more with _ | ⟨s, _ | ⟨l, _ | ⟨k, others⟩⟩⟩
    · cases hrow
    · cases hrow
    · cases hrow
    · have hafter : a.after [c :: s :: l :: k :: others] =
          ⟨a.source + s, a.line + l, a.column + k⟩ := by
        simp [Anchor.after, hrow, total]
      rw [decodePieces_cons hne h, made, hrow, hafter]
      rfl

/-- Pieces are a line if all of them are whole, and are refused otherwise. -/
theorem decodePieces_cases (column : Int) (a : Anchor) (pieces : List (List Char)) :
    (∀ piece ∈ pieces, Whole piece) ∧
        (∃ line, decodePieces column a pieces = .ok (line, a.after (rowsOf pieces)) ∧
          IsLine column a (rowsOf pieces) line) ∨
      (¬ ∀ piece ∈ pieces, Whole piece) ∧
        ∃ e, decodePieces column a pieces = .error (.badPiece e) := by
  induction pieces generalizing column a with
  | nil =>
    refine .inl ⟨List.forall_mem_nil _, [], ?_, .nil column a⟩
    show _ = Except.ok ([], a.after [])
    rw [a.after_nil]
    rfl
  | cons piece rest ih =>
    by_cases hne : piece = []
    · subst hne
      have hnil : Whole [] := List.forall_mem_nil _
      rw [decodePieces, List.forall_mem_cons, and_iff_right hnil]
      exact ih column a
    · rcases decodePiece_cases hne with ⟨hwhole, c, more, hrow, hread⟩ | ⟨hbad, e, hread⟩
      · have hrows : rowsOf (piece :: rest) = [c :: more] ++ rowsOf rest := by
          have hkept : (!piece.isEmpty) = true := by simpa using hne
          rw [rowsOf, List.filter_cons, if_pos hkept, List.map_cons, hrow]
          rfl
        rw [decodePieces_row rest hne hread, List.forall_mem_cons, and_iff_right hwhole, hrows,
          a.after_append]
        rcases ih (column + c) (a.after [c :: more]) with ⟨hall, line, hline, hshape⟩ | ⟨hbad, e, he⟩
        · rw [hline]
          exact .inl ⟨hall, _, rfl, hshape.cons⟩
        · rw [he]
          exact .inr ⟨hbad, e, rfl⟩
      · refine .inr ⟨fun hall => hbad (hall piece List.mem_cons_self), e, ?_⟩
        rw [decodePieces.eq_3 _ _ _ _ hne, hread]
        rfl

/-! ### Lines -/

/-- Lines are a table if all their pieces are whole, and are refused otherwise. -/
theorem decodeLines_cases (a : Anchor) (lines : List (List Char)) :
    (∀ line ∈ lines, ∀ piece ∈ Text.pieces ',' line, Whole piece) ∧
        (∃ table, decodeLines a lines = .ok table ∧
          IsTable a (lines.map fun line => rowsOf (Text.pieces ',' line)) table) ∨
      (¬ ∀ line ∈ lines, ∀ piece ∈ Text.pieces ',' line, Whole piece) ∧
        ∃ e, decodeLines a lines = .error (.badPiece e) := by
  induction lines generalizing a with
  | nil => exact .inl ⟨List.forall_mem_nil _, [], rfl, .nil a⟩
  | cons line rest ih =>
    rw [decodeLines, List.forall_mem_cons, List.map_cons]
    rcases decodePieces_cases 0 a (Text.pieces ',' line) with ⟨hall, segments, hread, hline⟩ |
      ⟨hbad, e, hread⟩
    · rw [hread, and_iff_right hall]
      rcases ih (a.after (rowsOf (Text.pieces ',' line))) with ⟨hrest, table, htable, hshape⟩ |
        ⟨hrest, e, he⟩
      · refine .inl ⟨hrest, segments :: table, ?_, .cons hline hshape⟩
        show (decodeLines _ rest >>= fun found => pure (segments :: found)) = _
        rw [htable]
        rfl
      · refine .inr ⟨hrest, e, ?_⟩
        show (decodeLines _ rest >>= fun found => pure (segments :: found)) = _
        rw [he]
        rfl
    · rw [hread]
      exact .inr ⟨fun h => hbad h.1, e, rfl⟩

/-- A text is malformed if one of its pieces is not whole. -/
theorem malformed_iff {s : List Char} : Malformed s ↔
    ¬ ∀ line ∈ Text.pieces ';' s, ∀ piece ∈ Text.pieces ',' line, Whole piece := by
  constructor
  · rintro (⟨c, hc, hdigit, hcomma, hsemicolon⟩ | ⟨line, hline, piece, hpiece, c, hc, hcontinues⟩) h
    · rcases Text.mem_pieces_cases ';' hc with rfl | ⟨line, hline, hc⟩
      · exact hsemicolon rfl
      · rcases Text.mem_pieces_cases ',' hc with rfl | ⟨piece, hpiece, hc⟩
        · exact hcomma rfl
        · exact hdigit ((Vlq.groups_whole_iff.mp (h line hline piece hpiece)).1 c hc)
    · have hends := (Vlq.groups_whole_iff.mp (h line hline piece hpiece)).2 c hc
      rw [hends] at hcontinues
      cases hcontinues
  · intro h
    apply Classical.byContradiction
    intro hwell
    refine h fun line hline piece hpiece => Vlq.groups_whole_iff.mpr ⟨fun c hc => ?_, fun c hc => ?_⟩
    · apply Classical.byContradiction
      intro hdigit
      have hinline := (Text.infix_of_mem_pieces hpiece).subset hc
      refine hwell (.inl ⟨c, (Text.infix_of_mem_pieces hline).subset hinline, hdigit, ?_, ?_⟩)
      · rintro rfl
        exact Text.not_mem_of_mem_pieces hpiece hc
      · rintro rfl
        exact Text.not_mem_of_mem_pieces hline hinline
    · rw [Bool.eq_false_iff]
      intro hcontinues
      exact hwell (.inr ⟨line, hline, piece, hpiece, c, hc, hcontinues⟩)

/-- Reading never lacks a column to move by. It refuses exactly the malformed texts, and of any
other it makes a table with one line more than there are semicolons, whose segments are the pieces
of four integers or more; the shorter ones count for the columns after them. -/
theorem decode_refuses_malformed (s : List Char) :
    decode s ≠ .error .noColumn ∧
      ((∃ e, decode s = .error (.badPiece e)) ↔ Malformed s) ∧
      (¬ Malformed s → ∃ table, decode s = .ok table ∧ table.length = s.count ';' + 1 ∧
        IsTable {} (rows s) table) := by
  rw [malformed_iff, decode]
  rcases decodeLines_cases {} (Text.pieces ';' s) with ⟨hall, table, hread, htable⟩ | ⟨hbad, e, hread⟩
  · rw [hread]
    refine ⟨by simp, ⟨?_, fun hbad => absurd hall hbad⟩, fun _ => ⟨table, rfl, ?_, htable⟩⟩
    · rintro ⟨e, he⟩
      cases he
    · rw [htable.length, List.length_map, Text.length_pieces]
  · rw [hread]
    exact ⟨by simp, ⟨fun _ => hbad, fun _ => ⟨e, rfl⟩⟩, fun hwell => absurd hbad hwell⟩

end Mappings
end PropShear.SourceMap
