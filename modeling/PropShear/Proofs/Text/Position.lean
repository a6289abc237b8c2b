/-! Lines and columns in characters.

The position after a text is the number of its line feeds and the number of characters since the
last one. Along a text positions grow (`position_lt_append`), so an offset is determined by the
position there (`take_position_injective`). -/
namespace PropShear.Text

/-- The number of line feeds. -/
def lineFeeds (s : List Char) : Nat := s.count '\n'

/-- The number of characters since the last line feed. -/
def columnAfter (s : List Char) : Nat := (s.reverse.takeWhile (· ≠ '\n')).length

theorem lineFeeds_append (s t : List Char) : lineFeeds (s ++ t) = lineFeeds s + lineFeeds t :=
  List.count_append

theorem lineFeeds_singleton (c : Char) : lineFeeds [c] = if c = '\n' then 1 else 0 := by
  by_cases h : c = '\n' <;> simp [lineFeeds, h]

theorem columnAfter_concat (s : List Char) (c : Char) :
    columnAfter (s ++ [c]) = if c = '\n' then 0 else columnAfter s + 1 := by
  unfold columnAfter
  rw [List.reverse_append, List.reverse_singleton, List.singleton_append, List.takeWhile_cons]
  by_cases h : c = '\n' <;> simp [h]

/-- A text that goes on leads to a later line, or to a later column of the same line. -/
theorem position_lt_append (s t : List Char) (ht : t ≠ []) :
    lineFeeds s < lineFeeds (s ++ t) ∨
      lineFeeds s = lineFeeds (s ++ t) ∧ columnAfter s < columnAfter (s ++ t) := by
  induction t generalizing s with
  | nil => exact absurd rfl ht
  | cons c rest ih =>
    have hsplit : s ++ c :: rest = (s ++ [c]) ++ rest := by simp
    -- the first character alone leads on, and the rest never leads back
    have hstep : lineFeeds s < lineFeeds (s ++ [c]) ∨
        lineFeeds s = lineFeeds (s ++ [c]) ∧ columnAfter s < columnAfter (s ++ [c]) := by
      rw [lineFeeds_append, lineFeeds_singleton, columnAfter_concat]
      by_cases h : c = '\n'
      · simp [h]
      · simp [h]
    cases rest with
    | nil => exact hstep
    | cons d more =>
      have hrest := ih (s ++ [c]) (List.cons_ne_nil _ _)
      rw [hsplit]
      omega

/-- The position at an offset tells the offset. -/
theorem take_position_injective {s : List Char} {i k : Nat} (hi : i ≤ s.length) (hk : k ≤ s.length)
    (hline : lineFeeds (s.take i) = lineFeeds (s.take k))
    (hcolumn : columnAfter (s.take i) = columnAfter (s.take k)) : i = k := by
  have hlt : ∀ {i k : Nat}, i < k → k ≤ s.length → lineFeeds (s.take i) = lineFeeds (s.take k) →
      columnAfter (s.take i) ≠ columnAfter (s.take k) := by
    intro i k hik hk hline hcolumn
    obtain ⟨d, rfl⟩ := Nat.exists_eq_add_of_lt hik
    have hne : (s.drop i).take (d + 1) ≠ [] := by
      intro hnil
      have hlength := congrArg List.length hnil
      simp only [List.length_take, List.length_drop, List.length_nil] at hlength
      omega
    have := position_lt_append (s.take i) ((s.drop i).take (d + 1)) hne
    rw [← List.take_add] at this
    rw [Nat.add_assoc] at hline hcolumn
    omega
  rcases Nat.lt_trichotomy i k with h | h | h
  · exact absurd hcolumn (hlt h hk hline)
  · exact h
  · exact absurd hcolumn.symm (hlt h hi hline.symm)

end PropShear.Text
