import PropShear.Proofs.Glob.Directory

/-! Escaped text in patterns.

Every character of an escaped text is a part of its own that accepts just this character
(`parts_escape`), so the text stands for itself, whatever follows it (`matches_escape_iff`). It
holds no `**` and makes none together with what follows (`single_escape_append`), and a pattern
without `**` is matched as it is (`isPathMatch_single`). -/
namespace PropShear.Glob

variable {c d : Char} {s t pattern : List Char}

/-! ### Parts -/

/-- The part that an escaped character is read as. -/
def Part.exactly (c : Char) : Part :=
  if c = '*' || c = '?' || c = '[' then .oneOf false [(c, c)] else .only c

theorem Part.exactly_ne (c : Char) : exactly c ≠ .anyText := by
  unfold exactly
  split <;> simp

theorem Part.accepts_exactly : (exactly c).accepts d = true ↔ d = c := by
  unfold exactly
  split
  · have hbounds : (c ≤ d ∧ d ≤ c) ↔ d = c :=
      ⟨fun h => Char.le_antisymm h.2 h.1, fun h => h ▸ ⟨Char.le_refl _, Char.le_refl _⟩⟩
    simpa [accepts] using hbounds
  · simp [accepts]

theorem not_special_iff :
    ¬ (c = '*' || c = '?' || c = '[') = true ↔ c ≠ '*' ∧ c ≠ '?' ∧ c ≠ '[' := by
  simp [not_or, and_assoc]

theorem setText?_single (hclose : c ≠ ']') (hnot : c ≠ '!') (rest : List Char) :
    setText? (c :: ']' :: rest) = some ([c], rest) := by
  simp [setText?, hclose, hnot]

theorem setPart_single (hnot : c ≠ '!') : setPart [c] = .oneOf false [(c, c)] := by
  simp [setPart, hnot, chunks, dropEmptyRanges, ranges]

theorem parts_set (hclose : c ≠ ']') (hnot : c ≠ '!') (rest : List Char) :
    parts ('[' :: c :: ']' :: rest) = .oneOf false [(c, c)] :: parts rest := by
  rw [parts, partsFrom]
  simp only [setText?_single hclose hnot, setPart_single hnot]
  rfl

theorem escape_cons (c : Char) (s : List Char) :
    escape (c :: s) = (if c = '*' || c = '?' || c = '[' then ['[', c, ']'] else [c]) ++ escape s :=
  rfl

theorem parts_escape (s pattern : List Char) :
    parts (escape s ++ pattern) = s.map .exactly ++ parts pattern := by
  induction s with
  | nil => rfl
  | cons c rest ih =>
    rw [escape_cons, List.map_cons, Part.exactly, List.cons_append, ← ih, List.append_assoc]
    by_cases hspecial : (c = '*' || c = '?' || c = '[') = true
    · rw [if_pos hspecial, if_pos hspecial]
      refine parts_set ?_ ?_ _
      · rintro rfl
        cases hspecial
      · rintro rfl
        cases hspecial
    · rw [if_neg hspecial, if_neg hspecial]
      have hplain : Plain [c] := List.forall_mem_singleton.mpr (not_special_iff.mp hspecial)
      exact parts_plain hplain _

/-- An escaped text stands for itself. -/
theorem matches_escape_iff :
    Matches (parts (escape s ++ pattern)) t ↔ ∃ u, t = s ++ u ∧ Matches (parts pattern) u := by
  rw [parts_escape]
  induction s generalizing t with
  | nil => simp
  | cons c rest ih =>
    rw [List.map_cons, List.cons_append, matches_one_iff (Part.exactly_ne c)]
    constructor
    · rintro ⟨d, u, rfl, hd, h⟩
      obtain ⟨v, rfl, hv⟩ := ih.mp h
      exact ⟨v, by rw [Part.accepts_exactly.mp hd]; rfl, hv⟩
    · rintro ⟨u, rfl, hu⟩
      exact ⟨c, rest ++ u, rfl, Part.accepts_exactly.mpr rfl, ih.mpr ⟨u, rfl, hu⟩⟩

/-! ### The characters of escaped text -/

theorem escape_append (s t : List Char) : escape (s ++ t) = escape s ++ escape t :=
  List.flatMap_append

theorem escape_of_plain (h : Plain s) : escape s = s := by
  induction s with
  | nil => rfl
  | cons c rest ih =>
    obtain ⟨hstar, hmark, hbracket⟩ := h c List.mem_cons_self
    rw [escape_cons, ih fun d hd => h d (List.mem_cons_of_mem c hd)]
    simp [hstar, hmark, hbracket]

/-- Escaped text holds what the text holds, and brackets. -/
theorem mem_escape (h : c ∈ escape s) : c = '[' ∨ c = ']' ∨ c ∈ s := by
  obtain ⟨d, hd, hc⟩ := List.mem_flatMap.mp h
  split at hc
  · rcases List.mem_cons.mp hc with rfl | hc
    · exact .inl rfl
    · rcases List.mem_cons.mp hc with rfl | hc
      · exact .inr (.inr hd)
      · exact .inr (.inl (List.mem_singleton.mp hc))
  · rw [List.mem_singleton.mp hc]
    exact .inr (.inr hd)

/-- Text without brackets is the escaped form of itself only. -/
theorem eq_of_escape_eq (h : escape s = t) (hbracket : '[' ∉ t) : s = t := by
  have hplain : Plain s := by
    intro c hc
    apply not_special_iff.mp
    intro hspecial
    refine hbracket (h ▸ List.mem_flatMap.mpr ⟨c, hc, ?_⟩)
    rw [if_pos hspecial]
    exact List.mem_cons_self
  rw [← h, escape_of_plain hplain]

/-! ### No double stars -/

/-- The text has no `**` in it. -/
def Single (s : List Char) : Prop := ¬ ['*', '*'] <:+: s

theorem single_cons (h : c ≠ '*') : Single (c :: s) ↔ Single s := by
  unfold Single
  rw [List.infix_cons_iff, List.cons_prefix_cons]
  simp [Ne.symm h]

theorem single_star_cons (h : d ≠ '*') : Single ('*' :: d :: s) ↔ Single s := by
  rw [← single_cons (s := s) h]
  unfold Single
  rw [List.infix_cons_iff, List.cons_prefix_cons, List.cons_prefix_cons]
  simp [Ne.symm h]

theorem single_escape_append : Single (escape s ++ pattern) ↔ Single pattern := by
  induction s with
  | nil => rfl
  | cons c rest ih =>
    rw [escape_cons, List.append_assoc]
    by_cases hspecial : (c = '*' || c = '?' || c = '[') = true
    · rw [if_pos hspecial]
      show Single ('[' :: c :: ']' :: (escape rest ++ pattern)) ↔ _
      rw [single_cons (by decide)]
      by_cases hstar : c = '*'
      · rw [hstar, single_star_cons (by decide), ih]
      · rw [single_cons hstar, single_cons (by decide), ih]
    · rw [if_neg hspecial]
      show Single (c :: (escape rest ++ pattern)) ↔ _
      rw [single_cons (not_special_iff.mp hspecial).1, ih]

theorem innerPlaces_single (h : Single pattern) : innerPlaces pattern = 0 := by
  induction pattern with
  | nil => rfl
  | cons c rest ih =>
    have hrest : Single rest := fun hwithin => h (hwithin.trans (List.suffix_cons c rest).isInfix)
    have hplace : startsPlace (c :: rest) = false := by
      apply Bool.eq_false_iff.mpr
      intro hplace
      obtain ⟨more, hmore⟩ := startsPlace_iff.mp hplace
      exact h (hmore ▸ ⟨['/'], '/' :: more, rfl⟩)
    rw [innerPlaces, hplace, ih hrest]
    rfl

/-- Without `**` there is nothing to leave out. -/
theorem isPathMatch_single {path : List Char} (h : Single pattern) :
    isPathMatch pattern path = true ↔ isMatch pattern path = true := by
  have hdrop := (shortens_dropDirectories pattern).eq_of_no_place (innerPlaces_single h)
  rw [isPathMatch_iff, hdrop, isMatch_iff]
  constructor
  · rintro (hmatch | ⟨rest, rfl, -⟩ | hmatch)
    · exact hmatch
    · exact absurd ⟨[], '/' :: rest, rfl⟩ h
    · exact hmatch
  · exact .inl

end PropShear.Glob
