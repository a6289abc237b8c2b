import PropShear.Proofs.Text.Boundary

/-! From bytes back to characters.

Every byte of a text is one of those that a single character is written with (`HoldsByte`), and
`charIndex` finds that character. The search among the offsets of the characters ends at the right
one because the offsets up to a byte are the first ones of the table (`countUpTo_eq`). Where bytes
and characters are equal in number, every character takes one byte, and the offset itself is what
the search would find (`charIndex_eq_searchIndex`). -/
namespace PropShear.Text

variable {s : List Char} {k b : Nat}

/-- Byte `b` of a text is one of those that the character with index `k` is written with. -/
def HoldsByte (s : List Char) (k b : Nat) : Prop :=
  ∃ before c after, s = before ++ c :: after ∧ before.length = k ∧
    (Utf8.encode before).length ≤ b ∧ b < (Utf8.encode (before ++ [c])).length

/-! ### Bytes and characters -/

theorem byteOffset_of_length_le (h : s.length ≤ k) : byteOffset s k = byteLength s := by
  rw [byteOffset, List.take_of_length_le h]

theorem byteOffset_le_byteLength (s : List Char) (k : Nat) : byteOffset s k ≤ byteLength s := by
  rw [← byteOffset_of_length_le (Nat.le_add_left s.length k)]
  exact byteOffset_mono s (Nat.le_add_right ..)

/-- Every character takes at least a byte. -/
theorem le_byteOffset (s : List Char) (hk : k ≤ s.length) : k ≤ byteOffset s k := by
  induction s generalizing k with
  | nil => exact Nat.le_trans hk (Nat.zero_le _)
  | cons c rest ih =>
    cases k with
    | zero => exact Nat.zero_le _
    | succ k =>
      have hc := c.utf8Size_pos
      have hrest := ih (k := k) (by simpa using hk)
      rw [byteOffset_cons_succ]
      omega

/-- If there are as many bytes as characters, neither the characters before an offset nor those
after it have a byte to spare. -/
theorem byteOffset_eq_self (hsingle : byteLength s = s.length) (hk : k ≤ s.length) :
    byteOffset s k = k := by
  have hsum : byteOffset s k + byteOffset (s.drop k) (s.length - k) = s.length := by
    rw [← byteOffset_add, Nat.add_sub_of_le hk, byteOffset_of_length_le (Nat.le_refl _), hsingle]
  have hbefore := le_byteOffset s hk
  have hafter : s.length - k ≤ byteOffset (s.drop k) (s.length - k) :=
    le_byteOffset _ (Nat.le_of_eq List.length_drop.symm)
  omega

theorem lt_length_of_lt_byteOffset (hle : byteOffset s k ≤ b) (hlt : b < byteOffset s (k + 1)) :
    k < s.length := by
  rcases Nat.lt_or_ge k s.length with h | h
  · exact h
  · rw [byteOffset_of_length_le h] at hle
    rw [byteOffset_of_length_le (Nat.le_succ_of_le h)] at hlt
    omega

theorem holdsByte_iff : HoldsByte s k b ↔ byteOffset s k ≤ b ∧ b < byteOffset s (k + 1) := by
  constructor
  · rintro ⟨before, c, after, rfl, rfl, hle, hlt⟩
    have hsplit : before ++ c :: after = (before ++ [c]) ++ after := by simp
    rw [Utf8.length_encode] at hle hlt
    refine ⟨?_, ?_⟩
    · rwa [byteOffset, List.take_left]
    · rw [byteOffset, hsplit, List.take_left' (by simp)]
      exact hlt
  · rintro ⟨hle, hlt⟩
    have hk := lt_length_of_lt_byteOffset hle hlt
    have htake : s.take k ++ [s[k]] = s.take (k + 1) := List.take_append_getElem hk
    refine ⟨s.take k, s[k], s.drop (k + 1), ?_, ?_, ?_, ?_⟩
    · rw [← List.drop_eq_getElem_cons hk, List.take_append_drop]
    · rw [List.length_take, Nat.min_eq_left (Nat.le_of_lt hk)]
    · rwa [Utf8.length_encode]
    · rwa [htake, Utf8.length_encode]

theorem HoldsByte.lt_length (h : HoldsByte s k b) : k < s.length := by
  obtain ⟨hle, hlt⟩ := holdsByte_iff.mp h
  exact lt_length_of_lt_byteOffset hle hlt

theorem HoldsByte.lt_byteLength (h : HoldsByte s k b) : b < byteLength s :=
  Nat.lt_of_lt_of_le (holdsByte_iff.mp h).2 (byteOffset_le_byteLength s (k + 1))

theorem exists_holdsByte (h : b < byteLength s) : ∃ k, HoldsByte s k b := by
  simp only [holdsByte_iff]
  induction s generalizing b with
  | nil => exact absurd h (Nat.not_lt_zero b)
  | cons c rest ih =>
    rw [byteLength_cons] at h
    rcases Nat.lt_or_ge b c.utf8Size with hfirst | hrest
    · refine ⟨0, by rw [byteOffset_zero]; exact Nat.zero_le b, ?_⟩
      rwa [byteOffset_cons_succ, byteOffset_zero]
    · obtain ⟨k, hle, hlt⟩ := ih (b := b - c.utf8Size) (by omega)
      refine ⟨k + 1, ?_, ?_⟩ <;> rw [byteOffset_cons_succ] <;> omega

/-! ### The search -/

theorem length_charStarts (offset : Nat) (s : List Char) :
    (charStarts offset s).length = s.length := by
  induction s generalizing offset with
  | nil => rfl
  | cons c rest ih => rw [charStarts, List.length_cons, ih, List.length_cons]

theorem getElem_charStarts (offset : Nat) (s : List Char) (i : Nat)
    (h : i < (charStarts offset s).length) :
    (charStarts offset s)[i] = offset + byteOffset s i := by
  induction s generalizing offset i with
  | nil => exact absurd h (Nat.not_lt_zero i)
  | cons c rest ih =>
    cases i with
    | zero => rfl
    | succ i =>
      simp only [charStarts, List.getElem_cons_succ, ih, byteOffset_cons_succ, Nat.add_assoc]

/-- If the entries up to `b` are the first `n` of the table, the search ends at `n`: whichever half
is kept, `n` is between its ends. -/
theorem countUpTo_eq {table : Array Nat} {n low high : Nat} (hhigh : high ≤ table.size)
    (hsplit : ∀ i (h : i < table.size), table[i] ≤ b ↔ i < n) (hlow : low ≤ n) (hn : n ≤ high) :
    countUpTo table b low high hhigh = n := by
  fun_induction countUpTo table b low high hhigh with
  | case1 low high hhigh h middle hmiddle hlt ih =>
    have hright : ¬ middle < n := by
      rw [← hsplit middle hmiddle]
      exact Nat.not_le_of_lt hlt
    exact ih hlow (Nat.le_of_not_lt hright)
  | case2 low high hhigh h middle hmiddle hge ih =>
    have hleft : middle < n := (hsplit middle hmiddle).mp (Nat.le_of_not_lt hge)
    exact ih hleft hn
  | case3 low high hhigh h => omega

theorem HoldsByte.searchIndex_eq (h : HoldsByte s k b) : searchIndex s b = k := by
  obtain ⟨hle, hlt⟩ := holdsByte_iff.mp h
  have hsplit : ∀ i (hi : i < (charStarts 0 s).toArray.size),
      (charStarts 0 s).toArray[i] ≤ b ↔ i < k + 1 := by
    intro i hi
    rw [List.getElem_toArray, getElem_charStarts, Nat.zero_add, byteOffset_le_byte_iff s hle hlt,
      Nat.lt_succ_iff]
  have hsize : k + 1 ≤ (charStarts 0 s).toArray.size := by
    rw [List.size_toArray, length_charStarts]
    exact h.lt_length
  rw [searchIndex, if_neg (Nat.not_le_of_lt h.lt_byteLength)]
  dsimp only
  rw [countUpTo_eq (Nat.le_refl _) hsplit (Nat.zero_le _) hsize, Nat.add_sub_cancel]

theorem searchIndex_byteLength (s : List Char) : searchIndex s (byteLength s) = s.length :=
  if_pos (Nat.le_refl _)

/-! ### The index of a byte -/

/-- In a text of single bytes the search would find the offset itself. -/
theorem charIndex_eq_searchIndex (hb : b ≤ byteLength s) : charIndex s b = searchIndex s b := by
  unfold charIndex
  split
  · next hsingle =>
    rcases Nat.lt_or_eq_of_le hb with hlt | rfl
    · obtain ⟨k, hk⟩ := exists_holdsByte hlt
      obtain ⟨hle, hlt⟩ := holdsByte_iff.mp hk
      rw [byteOffset_eq_self hsingle (Nat.le_of_lt hk.lt_length)] at hle
      rw [byteOffset_eq_self hsingle hk.lt_length] at hlt
      rw [hk.searchIndex_eq]
      omega
    · rw [searchIndex_byteLength, hsingle]
  · rfl

example : searchIndex ['a', 'b', 'c'] 2 = 2 := by decide +kernel

theorem charIndex_byteLength (s : List Char) : charIndex s (byteLength s) = s.length := by
  rw [charIndex_eq_searchIndex (Nat.le_refl _), searchIndex_byteLength]

theorem HoldsByte.charIndex_eq (h : HoldsByte s k b) : charIndex s b = k := by
  rw [charIndex_eq_searchIndex (Nat.le_of_lt h.lt_byteLength), h.searchIndex_eq]

/-- An index is reached from the byte at which its character starts on. -/
theorem le_charIndex_iff (hb : b ≤ byteLength s) (hk : k ≤ s.length) :
    k ≤ charIndex s b ↔ byteOffset s k ≤ b := by
  rcases Nat.lt_or_eq_of_le hb with hlt | rfl
  · obtain ⟨i, hi⟩ := exists_holdsByte hlt
    obtain ⟨hle, hlt⟩ := holdsByte_iff.mp hi
    rw [hi.charIndex_eq, byteOffset_le_byte_iff s hle hlt]
  · rw [charIndex_byteLength]
    exact iff_of_true hk (byteOffset_le_byteLength s k)

theorem charIndex_le_length (hb : b ≤ byteLength s) : charIndex s b ≤ s.length := by
  rcases Nat.lt_or_eq_of_le hb with hlt | rfl
  · obtain ⟨k, hk⟩ := exists_holdsByte hlt
    rw [hk.charIndex_eq]
    exact Nat.le_of_lt hk.lt_length
  · exact Nat.le_of_eq (charIndex_byteLength s)

theorem charIndex_mono {a : Nat} (hab : a ≤ b) (hb : b ≤ byteLength s) :
    charIndex s a ≤ charIndex s b := by
  have ha := Nat.le_trans hab hb
  have hle := charIndex_le_length ha
  have hstart : byteOffset s (charIndex s a) ≤ a := (le_charIndex_iff ha hle).mp (Nat.le_refl _)
  exact (le_charIndex_iff hb hle).mpr (Nat.le_trans hstart hab)

/-- The index of the byte at which a character starts is that of the character. -/
theorem charIndex_byteOffset (s : List Char) (k : Nat) (hk : k ≤ s.length) :
    charIndex s (byteOffset s k) = k := by
  rcases Nat.lt_or_eq_of_le hk with hlt | rfl
  · exact (holdsByte_iff.mpr
      ⟨Nat.le_refl _, byteOffset_lt s (Nat.lt_succ_self k) hlt⟩).charIndex_eq
  · rw [byteOffset_of_length_le (Nat.le_refl _), charIndex_byteLength]

/-- Offsets are converted exactly: a byte leads to the one character it belongs to and the end to
the length, a character's first byte leads back to it, later bytes never lead to earlier characters,
and whether the offset is taken for the index or the index is searched for makes no difference. -/
theorem charIndex_exact (s : List Char) (b : Nat) (hb : b ≤ (Utf8.encode s).length) :
    (∀ k, charIndex s b = k ↔ HoldsByte s k b ∨ b = (Utf8.encode s).length ∧ k = s.length) ∧
      (∀ k ≤ s.length, charIndex s (Utf8.encode (s.take k)).length = k) ∧
      (∀ a ≤ b, charIndex s a ≤ charIndex s b) ∧
      charIndex s b = searchIndex s b := by
  rw [Utf8.length_encode] at hb ⊢
  refine ⟨fun k => ⟨?_, ?_⟩, ?_, fun a hab => charIndex_mono hab hb, charIndex_eq_searchIndex hb⟩
  · rintro rfl
    rcases Nat.lt_or_eq_of_le hb with hlt | rfl
    · obtain ⟨k, hk⟩ := exists_holdsByte hlt
      exact .inl (hk.charIndex_eq ▸ hk)
    · exact .inr ⟨rfl, charIndex_byteLength s⟩
  · rintro (h | ⟨rfl, rfl⟩)
    · exact h.charIndex_eq
    · exact charIndex_byteLength s
  · intro k hk
    rw [Utf8.length_encode]
    exact charIndex_byteOffset s k hk

/-- The last byte of the third character, in a text of characters of one to four bytes. -/
theorem charIndex_exact_mixed :
    5 ≤ (Utf8.encode ['a', 'é', '€', '😀']).length ∧ charIndex ['a', 'é', '€', '😀'] 5 = 2 ∧
      charIndex ['a', 'é', '€', '😀'] (Utf8.encode ['a', 'é', '€']).length = 3 ∧
      charIndex ['a', 'é', '€', '😀'] 4 ≤ charIndex ['a', 'é', '€', '😀'] 5 ∧
      searchIndex ['a', 'é', '€', '😀'] 5 = 2 := by
  have hb : 5 ≤ (Utf8.encode ['a', 'é', '€', '😀']).length := by decide
  obtain ⟨hindex, hstart, hmono, hsearch⟩ := charIndex_exact ['a', 'é', '€', '😀'] 5 hb
  have hthird : charIndex ['a', 'é', '€', '😀'] 5 = 2 :=
    (hindex 2).mpr (.inl ⟨['a', 'é'], '€', ['😀'], rfl, rfl, by decide, by decide⟩)
  exact ⟨hb, hthird, hstart 3 (by decide), hmono 4 (by decide), hsearch ▸ hthird⟩

end PropShear.Text
