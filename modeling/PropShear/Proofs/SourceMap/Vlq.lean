import PropShear.SourceMap.Vlq

/-! Integers survive being written as base-64 digits.

The reader carries the bits read so far and their number, so what it makes of a group of digits is
said for any such state (`IsGroup.decodeFrom_append`). What is written for a number is a group that
spells it, so reading an integer that was just written gives it back and leaves the text after it to
be read (`decode_encode_append`). -/
namespace PropShear.SourceMap.Vlq

/-! ### Digits -/

theorem digit?_digit {n : Nat} (h : n < 64) : digit? (digit n) = some n := by
  have hall : ∀ k : Fin 64, digit? (digit k) = some k.val := by decide +kernel
  exact hall ⟨n, h⟩

theorem comma_not_mem_alphabet : ',' ∉ alphabet := by decide +kernel

theorem semicolon_not_mem_alphabet : ';' ∉ alphabet := by decide +kernel

theorem digit_mem_alphabet (n : Nat) : digit n ∈ alphabet := by
  unfold digit
  rw [List.getD_eq_getElem?_getD]
  cases h : alphabet[n]? with
  | none => decide +kernel
  | some c => exact List.mem_of_getElem? h

theorem mem_alphabet_of_mem_digits {n : Nat} {c : Char} (h : c ∈ digits n) : c ∈ alphabet := by
  fun_induction digits n with
  | case1 n _ =>
    rw [List.mem_singleton.mp h]
    exact digit_mem_alphabet n
  | case2 n _ ih =>
    rcases List.mem_cons.mp h with rfl | h
    · exact digit_mem_alphabet _
    · exact ih h

theorem mem_alphabet_of_mem_encode {v : Int} {c : Char} (h : c ∈ encode v) : c ∈ alphabet :=
  mem_alphabet_of_mem_digits h

theorem encode_ne_nil (v : Int) : encode v ≠ [] := by
  unfold encode
  rw [digits]
  split <;> exact List.cons_ne_nil _ _

/-! ### Reading back -/

theorem unzigzag_zigzag (v : Int) : unzigzag (zigzag v) = v := by
  unfold zigzag unzigzag
  split <;> split <;> omega

/-- One step: a digit without the continuation bit ends the number. -/
theorem decodeFrom_last (acc shift : Nat) {d : Nat} (h : d < 32) (rest : List Char) :
    decodeFrom acc shift (digit d :: rest) =
      (decode rest).map (unzigzag (acc + d * Nat.pow 2 shift) :: ·) := by
  rw [decodeFrom, digit?_digit (by omega)]
  simp only [h, if_true, Nat.mod_eq_of_lt h]
  rfl

/-- One step: a digit with the continuation bit adds five bits above those read so far. -/
theorem decodeFrom_continued (acc shift : Nat) {d : Nat} (h : d < 32) (rest : List Char) :
    decodeFrom acc shift (digit (d + 32) :: rest) =
      decodeFrom (acc + d * Nat.pow 2 shift) (shift + 5) rest := by
  have hmod : (d + 32) % 32 = d := by omega
  have hge : ¬ d + 32 < 32 := by omega
  rw [decodeFrom, digit?_digit (by omega)]
  simp only [hge, if_false, hmod]

/-- Digits with the continuation bit, and one without it at the end. -/
inductive IsGroup : List Char → Prop
  | last {d : Nat} (h : d < 32) : IsGroup [digit d]
  | more {d : Nat} {rest : List Char} (h : d < 32) (hrest : IsGroup rest) :
    IsGroup (digit (d + 32) :: rest)

/-- The number that the five low bits of each digit spell, the lowest first. -/
def folded : List Char → Nat
  | [] => 0
  | c :: rest => (digit? c).getD 0 % 32 + 32 * folded rest

theorem folded_last {d : Nat} (h : d < 32) : folded [digit d] = d := by
  simp only [folded, digit?_digit (show d < 64 by omega), Option.getD_some]
  omega

theorem folded_more {d : Nat} (h : d < 32) (rest : List Char) :
    folded (digit (d + 32) :: rest) = d + 32 * folded rest := by
  simp only [folded, digit?_digit (show d + 32 < 64 by omega), Option.getD_some]
  omega

/-- A whole group, in whatever state the reader is. -/
theorem IsGroup.decodeFrom_append {g : List Char} (hg : IsGroup g) (acc shift : Nat)
    (rest : List Char) :
    decodeFrom acc shift (g ++ rest) =
      (decode rest).map (unzigzag (acc + folded g * Nat.pow 2 shift) :: ·) := by
  induction hg generalizing acc shift with
  | last h =>
    rw [folded_last h]
    exact decodeFrom_last acc shift h rest
  | @more d more h _ ih =>
    have hpow : Nat.pow 2 (shift + 5) = 32 * Nat.pow 2 shift := by
      have := Nat.pow_add 2 5 shift
      rw [Nat.add_comm 5 shift] at this
      exact this
    have hvalue : d * Nat.pow 2 shift + folded more * (32 * Nat.pow 2 shift) =
        (d + 32 * folded more) * Nat.pow 2 shift := by
      rw [← Nat.mul_assoc, ← Nat.add_mul, Nat.mul_comm (folded more) 32]
    rw [List.cons_append, decodeFrom_continued acc shift h, ih, hpow, Nat.add_assoc, hvalue,
      folded_more h]

/-- A group is read as one integer, and the text after it as if it stood alone. -/
theorem IsGroup.decode_append {g : List Char} (hg : IsGroup g) (rest : List Char) :
    decode (g ++ rest) = (decode rest).map (unzigzag (folded g) :: ·) := by
  have hvalue : 0 + folded g * Nat.pow 2 0 = folded g := by
    rw [Nat.zero_add]
    exact Nat.mul_one _
  rw [decode, hg.decodeFrom_append, hvalue]

theorem isGroup_digits (n : Nat) : IsGroup (digits n) := by
  fun_induction digits n with
  | case1 n h => exact .last h
  | case2 n _ ih => exact .more (Nat.mod_lt n (by decide)) ih

@[simp] theorem folded_digits (n : Nat) : folded (digits n) = n := by
  fun_induction digits n with
  | case1 n h => exact folded_last h
  | case2 n _ ih => rw [folded_more (Nat.mod_lt n (by decide)), ih, Nat.mod_add_div]

/-- An integer is read back, whatever comes after it. -/
theorem decode_encode_append (v : Int) (rest : List Char) :
    decode (encode v ++ rest) = (decode rest).map (v :: ·) := by
  unfold encode
  rw [(isGroup_digits _).decode_append, folded_digits, unzigzag_zigzag]

end PropShear.SourceMap.Vlq
