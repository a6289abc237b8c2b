import PropShear.Text.Offset
import PropShear.Text.Utf8

/-! Byte offsets that fall between characters.

`byteOffset s k` is where the character with index `k` starts. Offsets grow from character to
character (`byteOffset_lt`), and cutting at two of them cuts no character (`slice?_byteOffset`). -/
namespace PropShear.Text

/-- The offset of the first byte of the character with index `k`. -/
def byteOffset (s : List Char) (k : Nat) : Nat := byteLength (s.take k)

/-- The offset falls between two characters or at an end of the text. -/
def IsBoundary (s : List Char) (b : Nat) : Prop := ∃ k, k ≤ s.length ∧ byteOffset s k = b

instance (s : List Char) (b : Nat) : Decidable (IsBoundary s b) :=
  inferInstanceAs (Decidable (∃ k, k ≤ s.length ∧ byteOffset s k = b))

/-! ### Offsets of characters -/

@[simp] theorem byteLength_nil : byteLength [] = 0 := rfl

@[simp] theorem byteLength_cons (c : Char) (s : List Char) :
    byteLength (c :: s) = c.utf8Size + byteLength s := rfl

theorem Utf8.length_encode (s : List Char) : (Utf8.encode s).length = byteLength s := by
  induction s with
  | nil => rfl
  | cons c rest ih =>
    have hencode : Utf8.encode (c :: rest) = String.utf8EncodeChar c ++ Utf8.encode rest :=
      List.flatMap_cons
    rw [hencode, List.length_append, String.length_utf8EncodeChar, ih, byteLength_cons]

@[simp] theorem byteOffset_zero (s : List Char) : byteOffset s 0 = 0 := by
  simp [byteOffset]

@[simp] theorem byteOffset_cons_succ (c : Char) (s : List Char) (k : Nat) :
    byteOffset (c :: s) (k + 1) = c.utf8Size + byteOffset s k := by
  simp [byteOffset]

/-- Offsets add up along the text. -/
theorem byteOffset_add (s : List Char) (i k : Nat) :
    byteOffset s (i + k) = byteOffset s i + byteOffset (s.drop i) k := by
  induction s generalizing i with
  | nil => simp [byteOffset]
  | cons c rest ih =>
    cases i with
    | zero => simp
    | succ i =>
      have hi : i + 1 + k = i + k + 1 := by omega
      rw [hi, byteOffset_cons_succ, byteOffset_cons_succ, ih i, List.drop_succ_cons, Nat.add_assoc]

theorem byteOffset_mono (s : List Char) {i k : Nat} (h : i ≤ k) :
    byteOffset s i ≤ byteOffset s k := by
  obtain ⟨d, rfl⟩ := Nat.exists_eq_add_of_le h
  rw [byteOffset_add]
  exact Nat.le_add_right ..

/-- Every character takes at least a byte, so offsets grow from character to character. -/
theorem byteOffset_lt (s : List Char) {i k : Nat} (h : i < k) (hk : k ≤ s.length) :
    byteOffset s i < byteOffset s k := by
  induction s generalizing i k with
  | nil => simp only [List.length_nil] at hk; omega
  | cons c rest ih =>
    cases k with
    | zero => omega
    | succ k =>
      have hc := c.utf8Size_pos
      cases i with
      | zero =>
        rw [byteOffset_zero, byteOffset_cons_succ]
        omega
      | succ i =>
        rw [byteOffset_cons_succ, byteOffset_cons_succ]
        have := ih (i := i) (k := k) (by omega) (by simpa using hk)
        omega

theorem byteOffset_le_iff (s : List Char) {i k : Nat} (hi : i ≤ s.length) :
    byteOffset s i ≤ byteOffset s k ↔ i ≤ k := by
  constructor
  · intro h
    rcases Nat.lt_or_ge k i with hlt | hge
    · have := byteOffset_lt s hlt hi
      omega
    · exact hge
  · exact byteOffset_mono s

/-- Which characters start at or before a byte of the character with index `k`. -/
theorem byteOffset_le_byte_iff (s : List Char) {i k b : Nat} (hle : byteOffset s k ≤ b)
    (hlt : b < byteOffset s (k + 1)) : byteOffset s i ≤ b ↔ i ≤ k := by
  constructor
  · intro h
    rcases Nat.lt_or_ge k i with hki | hge
    · have := byteOffset_mono s (i := k + 1) hki
      omega
    · exact hge
  · exact fun h => Nat.le_trans (byteOffset_mono s h) hle

/-! ### Cutting at boundaries -/

theorem dropBytes?_byteOffset (s : List Char) (k : Nat) (hk : k ≤ s.length) :
    dropBytes? s (byteOffset s k) = some (s.drop k) := by
  induction s generalizing k with
  | nil => simp only [List.length_nil, Nat.le_zero_eq] at hk; subst hk; rfl
  | cons c rest ih =>
    cases k with
    | zero => simp [dropBytes?]
    | succ k =>
      have hc := c.utf8Size_pos
      have hpos : byteOffset (c :: rest) (k + 1) ≠ 0 := by rw [byteOffset_cons_succ]; omega
      rw [dropBytes?.eq_3 _ _ _ hpos, byteOffset_cons_succ, if_pos (Nat.le_add_right ..),
        Nat.add_sub_cancel_left, ih k (by simpa using hk), List.drop_succ_cons]

theorem takeBytes?_byteOffset (s : List Char) (k : Nat) (hk : k ≤ s.length) :
    takeBytes? s (byteOffset s k) = some (s.take k) := by
  induction s generalizing k with
  | nil => simp only [List.length_nil, Nat.le_zero_eq] at hk; subst hk; rfl
  | cons c rest ih =>
    cases k with
    | zero => simp [takeBytes?]
    | succ k =>
      have hc := c.utf8Size_pos
      have hpos : byteOffset (c :: rest) (k + 1) ≠ 0 := by rw [byteOffset_cons_succ]; omega
      rw [takeBytes?.eq_3 _ _ _ hpos, byteOffset_cons_succ, if_pos (Nat.le_add_right ..),
        Nat.add_sub_cancel_left, ih k (by simpa using hk), List.take_succ_cons, Option.map_some]

/-- The text between two boundaries. -/
theorem slice?_byteOffset (s : List Char) {i k : Nat} (h : i ≤ k) (hk : k ≤ s.length) :
    slice? s (byteOffset s i) (byteOffset s k) = some ((s.drop i).take (k - i)) := by
  unfold slice?
  rw [dropBytes?_byteOffset s i (by omega)]
  obtain ⟨d, rfl⟩ := Nat.exists_eq_add_of_le h
  rw [byteOffset_add, Nat.add_sub_cancel_left, Nat.add_sub_cancel_left]
  have hd : d ≤ (s.drop i).length := by rw [List.length_drop]; omega
  split
  · next hle =>
    have h0 : d = 0 := by
      rcases Nat.eq_zero_or_pos d with h0 | hpos
      · exact h0
      · have := byteOffset_lt (s.drop i) hpos hd
        rw [byteOffset_zero] at this
        omega
    subst h0
    simp
  · exact takeBytes?_byteOffset (s.drop i) d hd

/-- The text between two other texts. -/
theorem slice?_middle (a m b : List Char) :
    slice? (a ++ m ++ b) (byteLength a) (byteLength (a ++ m)) = some m := by
  have hstart : byteOffset (a ++ m ++ b) a.length = byteLength a := by simp [byteOffset]
  have hstop : byteOffset (a ++ m ++ b) (a ++ m).length = byteLength (a ++ m) := by
    rw [byteOffset, List.take_left]
  rw [← hstart, ← hstop, slice?_byteOffset _ (by simp) (by simp)]
  simp

theorem slice?_isSome {s : List Char} {start stop : Nat} (hstart : IsBoundary s start)
    (hstop : IsBoundary s stop) : (slice? s start stop).isSome = true := by
  obtain ⟨i, hi, rfl⟩ := hstart
  obtain ⟨k, hk, rfl⟩ := hstop
  rcases Nat.le_total i k with h | h
  · rw [slice?_byteOffset s h hk]
    rfl
  · rw [slice?, if_pos (byteOffset_mono s h)]
    rfl

end PropShear.Text
