/-! Cutting text at a separator and joining it again. -/
namespace PropShear.Text

/-- The pieces between the occurrences of a separator: one more than there are occurrences. -/
def pieces (sep : Char) : List Char → List (List Char)
  | [] => [[]]
  | c :: rest =>
    if c = sep then [] :: pieces sep rest
    else match pieces sep rest with
      | [] => [[c]]
      | piece :: more => (c :: piece) :: more

/-- Joins pieces with a separator between them. -/
def joined (sep : List Char) : List (List Char) → List Char
  | [] => []
  | [piece] => piece
  | piece :: more => piece ++ sep ++ joined sep more

theorem pieces_ne_nil (sep : Char) (s : List Char) : pieces sep s ≠ [] := by
  cases s with
  | nil => simp [pieces]
  | cons c rest =>
    unfold pieces
    split
    · simp
    · split <;> simp

theorem pieces_of_not_mem {sep : Char} {s : List Char} (h : sep ∉ s) : pieces sep s = [s] := by
  induction s with
  | nil => rfl
  | cons c rest ih =>
    rw [List.mem_cons, not_or] at h
    rw [pieces, if_neg (Ne.symm h.1), ih h.2]

theorem pieces_append {sep : Char} {piece : List Char} (h : sep ∉ piece) (rest : List Char) :
    pieces sep (piece ++ sep :: rest) = piece :: pieces sep rest := by
  induction piece with
  | nil => rw [List.nil_append, pieces, if_pos rfl]
  | cons c more ih =>
    rw [List.mem_cons, not_or] at h
    rw [List.cons_append, pieces, if_neg (Ne.symm h.1), ih h.2]

/-- Text is cut at every separator in it, whatever stands on both sides. -/
theorem pieces_cut (sep : Char) (a b : List Char) :
    pieces sep (a ++ sep :: b) = pieces sep a ++ pieces sep b := by
  induction a with
  | nil => exact pieces_append List.not_mem_nil b
  | cons c rest ih =>
    obtain ⟨piece, more, hrest⟩ := List.exists_cons_of_ne_nil (pieces_ne_nil sep rest)
    rw [List.cons_append, pieces, pieces, ih, hrest]
    split <;> rfl

theorem pieces_replicate (sep : Char) (n : Nat) (s : List Char) :
    pieces sep (List.replicate n sep ++ s) = List.replicate n [] ++ pieces sep s := by
  induction n with
  | zero => rfl
  | succ n ih => rw [List.replicate_succ, List.cons_append, pieces, if_pos rfl, ih]; rfl

theorem length_pieces (sep : Char) (s : List Char) : (pieces sep s).length = s.count sep + 1 := by
  induction s with
  | nil => rfl
  | cons c rest ih =>
    obtain ⟨piece, more, hrest⟩ := List.exists_cons_of_ne_nil (pieces_ne_nil sep rest)
    rw [hrest, List.length_cons] at ih
    rw [pieces, hrest, List.count_cons]
    split
    · next hsep => simp [hsep, ih]
    · next hsep => simp [hsep, ih]

theorem head_pieces_prefix {sep : Char} {s piece : List Char} {more : List (List Char)}
    (h : pieces sep s = piece :: more) : piece <+: s := by
  induction s generalizing piece more with
  | nil =>
    cases h
    exact List.prefix_rfl
  | cons c rest ih =>
    obtain ⟨first, others, hrest⟩ := List.exists_cons_of_ne_nil (pieces_ne_nil sep rest)
    rw [pieces, hrest] at h
    split at h
    · cases h
      exact List.nil_prefix
    · cases h
      exact List.cons_prefix_cons.mpr ⟨rfl, ih hrest⟩

theorem infix_of_mem_pieces {sep : Char} {s piece : List Char} (h : piece ∈ pieces sep s) :
    piece <:+: s := by
  induction s generalizing piece with
  | nil =>
    cases List.mem_singleton.mp h
    exact List.infix_rfl
  | cons c rest ih =>
    obtain ⟨first, others, hrest⟩ := List.exists_cons_of_ne_nil (pieces_ne_nil sep rest)
    rw [hrest] at ih
    rw [pieces, hrest] at h
    split at h
    · rcases List.mem_cons.mp h with rfl | h
      · exact List.nil_infix
      · exact (ih h).trans (List.suffix_cons c rest).isInfix
    · rcases List.mem_cons.mp h with rfl | h
      · exact (List.cons_prefix_cons.mpr ⟨rfl, head_pieces_prefix hrest⟩).isInfix
      · exact (ih (List.mem_cons_of_mem first h)).trans (List.suffix_cons c rest).isInfix

theorem not_mem_of_mem_pieces {sep : Char} {s piece : List Char} (h : piece ∈ pieces sep s) :
    sep ∉ piece := by
  induction s generalizing piece with
  | nil =>
    cases List.mem_singleton.mp h
    exact List.not_mem_nil
  | cons c rest ih =>
    obtain ⟨first, others, hrest⟩ := List.exists_cons_of_ne_nil (pieces_ne_nil sep rest)
    rw [hrest] at ih
    rw [pieces, hrest] at h
    split at h
    · rcases List.mem_cons.mp h with rfl | h
      · exact List.not_mem_nil
      · exact ih h
    · next hc =>
      rcases List.mem_cons.mp h with rfl | h
      · rw [List.mem_cons, not_or]
        exact ⟨Ne.symm hc, ih List.mem_cons_self⟩
      · exact ih (List.mem_cons_of_mem first h)

theorem joined_cons {sep : List Char} {piece : List Char} {more : List (List Char)}
    (h : more ≠ []) : joined sep (piece :: more) = piece ++ sep ++ joined sep more := by
  cases more with
  | nil => exact absurd rfl h
  | cons second rest => rfl

theorem joined_append {sep : List Char} {front more : List (List Char)} (hfront : front ≠ [])
    (hmore : more ≠ []) :
    joined sep (front ++ more) = joined sep front ++ sep ++ joined sep more := by
  induction front with
  | nil => exact absurd rfl hfront
  | cons piece rest ih =>
    cases rest with
    | nil => exact joined_cons hmore
    | cons second others =>
      have hne : second :: others ≠ [] := List.cons_ne_nil _ _
      rw [List.cons_append, joined_cons (by simp), ih hne, joined_cons hne]
      simp

theorem mem_joined {sep : List Char} {parts : List (List Char)} {c : Char}
    (h : c ∈ joined sep parts) : c ∈ sep ∨ ∃ piece ∈ parts, c ∈ piece := by
  fun_induction joined sep parts with
  | case1 => cases h
  | case2 piece => exact .inr ⟨piece, List.mem_cons_self, h⟩
  | case3 piece more _ ih =>
    rcases List.mem_append.mp h with h | h
    · rcases List.mem_append.mp h with h | h
      · exact .inr ⟨piece, List.mem_cons_self, h⟩
      · exact .inl h
    · rcases ih h with h | ⟨p, hp, h⟩
      · exact .inl h
      · exact .inr ⟨p, List.mem_cons_of_mem _ hp, h⟩

/-- The pieces of a text joined again are the text. -/
theorem joined_pieces (sep : Char) (s : List Char) : joined [sep] (pieces sep s) = s := by
  induction s with
  | nil => rfl
  | cons c rest ih =>
    obtain ⟨piece, more, hrest⟩ := List.exists_cons_of_ne_nil (pieces_ne_nil sep rest)
    rw [pieces]
    split
    · next hsep => rw [joined_cons (pieces_ne_nil sep rest), ih, hsep]; rfl
    · rw [hrest] at ih
      rw [hrest, ← ih]
      cases more <;> rfl

/-- A character of a text is the separator or stands in a piece. -/
theorem mem_pieces_cases (sep : Char) {c : Char} {s : List Char} (h : c ∈ s) :
    c = sep ∨ ∃ piece ∈ pieces sep s, c ∈ piece := by
  rw [← joined_pieces sep s] at h
  exact (mem_joined h).imp_left List.mem_singleton.mp

theorem prefix_of_prefix_cut {sep : Char} {w a b : List Char} (hsep : sep ∉ w)
    (h : w <+: a ++ sep :: b) : w <+: a := by
  induction a generalizing w with
  | nil =>
    rcases List.prefix_cons_iff.mp h with rfl | ⟨t, rfl, -⟩
    · exact List.prefix_rfl
    · exact absurd List.mem_cons_self hsep
  | cons c rest ih =>
    rcases List.prefix_cons_iff.mp h with rfl | ⟨t, rfl, ht⟩
    · exact List.nil_prefix
    · exact List.cons_prefix_cons.mpr ⟨rfl, ih (fun hmem => hsep (List.mem_cons_of_mem c hmem)) ht⟩

theorem infix_of_infix_cut {sep : Char} {w a b : List Char} (hsep : sep ∉ w)
    (h : w <:+: a ++ sep :: b) : w <:+: a ∨ w <:+: b := by
  induction a with
  | nil =>
    rcases List.infix_cons_iff.mp h with hprefix | hwithin
    · exact .inl (prefix_of_prefix_cut (a := []) hsep hprefix).isInfix
    · exact .inr hwithin
  | cons c rest ih =>
    rcases List.infix_cons_iff.mp h with hprefix | hwithin
    · exact .inl (prefix_of_prefix_cut (a := c :: rest) hsep hprefix).isInfix
    · rcases ih hwithin with hrest | hb
      · exact .inl (hrest.trans (List.suffix_cons c rest).isInfix)
      · exact .inr hb

/-- Text without the separator that occurs in joined text occurs in one of the pieces. -/
theorem exists_infix_of_joined {sep : Char} {w : List Char} {parts : List (List Char)}
    (hne : w ≠ []) (hsep : sep ∉ w) (h : w <:+: joined [sep] parts) :
    ∃ piece ∈ parts, w <:+: piece := by
  induction parts with
  | nil => exact absurd (List.infix_nil.mp h) hne
  | cons piece more ih =>
    by_cases hmore : more = []
    · subst hmore
      exact ⟨piece, List.mem_cons_self, h⟩
    · rw [joined_cons hmore, List.append_assoc] at h
      rcases infix_of_infix_cut hsep h with hpiece | hrest
      · exact ⟨piece, List.mem_cons_self, hpiece⟩
      · obtain ⟨other, hother, hwithin⟩ := ih hrest
        exact ⟨other, List.mem_cons_of_mem piece hother, hwithin⟩

/-- Text joined from pieces without the separator is cut into these pieces again. -/
theorem pieces_joined {sep : Char} {parts : List (List Char)} (hne : parts ≠ [])
    (h : ∀ piece ∈ parts, sep ∉ piece) : pieces sep (joined [sep] parts) = parts := by
  induction parts with
  | nil => exact absurd rfl hne
  | cons piece more ih =>
    rw [List.forall_mem_cons] at h
    cases more with
    | nil => exact pieces_of_not_mem h.1
    | cons second rest =>
      have hjoined : joined [sep] (piece :: second :: rest) =
          piece ++ sep :: joined [sep] (second :: rest) := by simp [joined]
      rw [hjoined, pieces_append h.1, ih (List.cons_ne_nil _ _) h.2]

end PropShear.Text
