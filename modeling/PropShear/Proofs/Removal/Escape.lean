import PropShear.Removal.Literal

/-! Escapes that can be read.

An escape may name a number, in hexadecimal or octal digits. Unless that number is too large the
escape has a value (`cookEscape_errs`). Every escape of ECMAScript names a code point if the
number between the braces of `\u{…}` is one (`inRange_of_ecmaScript`). -/
namespace PropShear

namespace Text

/-- The digits from `0` to `9` and the letters that continue them in base sixteen. -/
def hexDigitChars : List Char :=
  ['0', '1', '2', '3', '4', '5', '6', '7', '8', '9', 'a', 'b', 'c', 'd', 'e', 'f',
    'A', 'B', 'C', 'D', 'E', 'F']

def octalDigitChars : List Char := ['0', '1', '2', '3', '4', '5', '6', '7']

/-- The number that digits spell, the first digit counting most. -/
def digitsValue (base : Nat) (digits : List Char) : Nat :=
  digits.foldl (fun acc c => acc * base + (digitBelow? base c).getD 0) 0

theorem digitsValue_foldl_lt (base : Nat) (hb : 0 < base) (digits : List Char) (acc : Nat) :
    digits.foldl (fun acc c => acc * base + (digitBelow? base c).getD 0) acc <
      (acc + 1) * Nat.pow base digits.length := by
  induction digits generalizing acc with
  | nil => simp
  | cons c rest ih =>
    have hdigit : (digitBelow? base c).getD 0 < base := by
      unfold digitBelow?
      cases hv : (digitValue? c).filter (· < base) with
      | none => exact hb
      | some v => simpa using (Option.filter_eq_some_iff.mp hv).2
    have hstep : acc * base + (digitBelow? base c).getD 0 + 1 ≤ (acc + 1) * base := by
      rw [Nat.add_mul, Nat.one_mul]
      omega
    calc rest.foldl _ (acc * base + (digitBelow? base c).getD 0)
        < (acc * base + (digitBelow? base c).getD 0 + 1) * Nat.pow base rest.length := ih _
      _ ≤ (acc + 1) * base * Nat.pow base rest.length := Nat.mul_le_mul_right _ hstep
      _ = (acc + 1) * Nat.pow base (c :: rest).length := by
        rw [Nat.mul_assoc, Nat.mul_comm base]
        rfl

theorem digitsValue_lt (base : Nat) (hb : 0 < base) (digits : List Char) :
    digitsValue base digits < Nat.pow base digits.length := by
  simpa [digitsValue] using digitsValue_foldl_lt base hb digits 0

/-! ### Plain digits are read as they stand -/

/-- What is checked of each digit of a list holds for all of them. -/
theorem forall_of_all {digits : List Char} {P : Char → Prop} [DecidablePred P]
    (h : digits.all fun c => decide (P c)) : ∀ c ∈ digits, P c :=
  fun c hc => of_decide_eq_true (List.all_eq_true.mp h c hc)

theorem plainDigit_of_hex : ∀ c ∈ hexDigitChars, plainDigit c = c := forall_of_all (by decide)

theorem isNumberBlank_of_hex : ∀ c ∈ hexDigitChars, isNumberBlank c = false :=
  forall_of_all (by decide)

theorem not_special_of_hex : ∀ c ∈ hexDigitChars,
    c ≠ '_' ∧ c ≠ '-' ∧ c ≠ '+' ∧ c ≠ 'x' ∧ c ≠ 'X' ∧ c ≠ 'o' ∧ c ≠ 'O' :=
  forall_of_all (by decide)

/-- Digits below a base, without separators, signs or blanks. -/
def PlainDigits (base : Nat) (digits : List Char) : Prop :=
  ∀ c ∈ digits, c ∈ hexDigitChars ∧ (digitBelow? base c).isSome = true

theorem PlainDigits.tail {base : Nat} {c : Char} {rest : List Char}
    (h : PlainDigits base (c :: rest)) : PlainDigits base rest :=
  fun d hd => h d (List.mem_cons_of_mem c hd)

theorem readDigits?_plain (base acc : Nat) (digits : List Char) (h : PlainDigits base digits) :
    readDigits? base acc digits =
      some (digits.foldl (fun acc c => acc * base + (digitBelow? base c).getD 0) acc) := by
  induction digits generalizing acc with
  | nil => rfl
  | cons c rest ih =>
    obtain ⟨hhex, hsome⟩ := h c List.mem_cons_self
    obtain ⟨v, hv⟩ := Option.isSome_iff_exists.mp hsome
    have hc : ∀ (d : Char) (r : List Char), c = '_' → rest = d :: r → False :=
      fun _ _ hc _ => (not_special_of_hex _ hhex).1 hc
    rw [readDigits?.eq_3 _ _ _ _ hc, hv]
    simp only [Option.bind_eq_bind, Option.bind_some, ih _ h.tail, List.foldl_cons, hv,
      Option.getD_some]

theorem dropIntroducer_plain (base : Nat) (digits : List Char) (h : PlainDigits base digits) :
    dropIntroducer base digits = digits := by
  unfold dropIntroducer
  split
  · next c rest =>
    obtain ⟨-, -, -, hx, hX, ho, hO⟩ :=
      not_special_of_hex _ (h c (List.mem_cons_of_mem _ List.mem_cons_self)).1
    simp [hx, hX, ho, hO]
  · rfl

theorem readNat?_plain (base : Nat) (digits : List Char) (h : PlainDigits base digits)
    (hne : digits ≠ []) : readNat? base digits = some (digitsValue base digits) := by
  unfold readNat?
  rw [dropIntroducer_plain base digits h]
  cases digits with
  | nil => exact absurd rfl hne
  | cons c rest =>
    obtain ⟨hhex, hsome⟩ := h c List.mem_cons_self
    obtain ⟨v, hv⟩ := Option.isSome_iff_exists.mp hsome
    have hc := (not_special_of_hex _ hhex).1
    simp only [hv, Option.bind_eq_bind, Option.bind_some, readDigits?_plain base v rest h.tail,
      digitsValue, List.foldl_cons, Nat.zero_mul, Nat.zero_add, Option.getD_some]

theorem dropWhile_blank_plain {base : Nat} {digits : List Char} (h : PlainDigits base digits) :
    digits.dropWhile isNumberBlank = digits := by
  cases digits with
  | nil => rfl
  | cons c rest =>
    rw [List.dropWhile_cons, isNumberBlank_of_hex _ (h c List.mem_cons_self).1]
    rfl

/-- The reader of integers gives digits their value. -/
theorem readInt?_plain (base : Nat) (digits : List Char) (h : PlainDigits base digits)
    (hne : digits ≠ []) : readInt? base digits = some (digitsValue base digits : Int) := by
  have hmap : digits.map plainDigit = digits := by
    conv => rhs; rw [← List.map_id digits]
    exact List.map_congr_left fun c hc => plainDigit_of_hex c (h c hc).1
  have hreverse : PlainDigits base digits.reverse := fun c hc => h c (List.mem_reverse.mp hc)
  unfold readInt?
  rw [hmap, dropWhile_blank_plain h, dropRightWhile, dropWhile_blank_plain hreverse,
    List.reverse_reverse]
  have hnat := readNat?_plain base digits h hne
  split
  · next rest => exact absurd rfl (not_special_of_hex _ (h '-' List.mem_cons_self).1).2.1
  · next rest => exact absurd rfl (not_special_of_hex _ (h '+' List.mem_cons_self).1).2.2.1
  · rw [hnat]
    rfl

end Text

namespace Literal

/-- The number that an escape names, given with its backslash. -/
def escapeNumber? (raw : List Char) : Option Int :=
  match raw.drop 1 with
  | [] => none
  | head :: tail =>
    if head = 'x' then Text.readInt? 16 tail
    else if head = 'u' then
      match tail with
      | '\x7b' :: inner => Text.readInt? 16 inner.dropLast
      | _ => Text.readInt? 16 tail
    else if (head :: tail).all Text.isDigit && '0' ≤ head && head ≤ '7' &&
        !(tail.isEmpty && head == '0') then
      Text.readInt? 8 (head :: tail)
    else none

/-- If the escape names a number, it is a code point. -/
def EscapeInRange (raw : List Char) : Prop := ∀ n ∈ escapeNumber? raw, 0 ≤ n ∧ n ≤ 0x10ffff

instance (raw : List Char) : Decidable (EscapeInRange raw) :=
  inferInstanceAs (Decidable (∀ n ∈ escapeNumber? raw, 0 ≤ n ∧ n ≤ 0x10ffff))

/-- The escape names a number of more than 32 bits. -/
def TooLarge (raw : List Char) : Prop :=
  ∃ n ∈ escapeNumber? raw, n < -0x80000000 ∨ 0x80000000 ≤ n

theorem EscapeInRange.not_tooLarge {raw : List Char} (h : EscapeInRange raw) : ¬ TooLarge raw := by
  rintro ⟨n, hn, hlarge⟩
  have hrange := h n hn
  omega

theorem numericEscape_errs {raw : List Char} {number : Option Int} {e : Fault}
    (h : numericEscape raw number = .error e) :
    e = .escapeTooLarge ∧ ∃ n ∈ number, n < -0x80000000 ∨ 0x80000000 ≤ n := by
  cases number with
  | none => cases h
  | some n =>
    rw [numericEscape] at h
    split at h
    · next hlarge =>
      cases h
      exact ⟨rfl, n, rfl, hlarge⟩
    · split at h
      · cases h
      · cases h

/-- An escape that has no value fails for the number it names. -/
theorem numericEscape_of_cookEscape {raw : List Char} {e : Fault}
    (h : cookEscape raw = .error e) : numericEscape raw (escapeNumber? raw) = .error e := by
  unfold cookEscape at h
  unfold escapeNumber?
  cases hraw : raw.drop 1 with
  | nil =>
    rw [hraw] at h
    cases h
  | cons head tail =>
    simp only [hraw] at h ⊢
    split at h
    · cases h
    split at h
    · next hx => rw [if_pos hx, h]
    split at h
    · next hx hu =>
      rw [if_neg hx, if_pos hu, ← h]
      grind
    split at h
    · next hx hu ho => rw [if_neg hx, if_neg hu, if_pos ho, h]
    · cases h

/-- An escape has a value unless it names too large a number. -/
theorem cookEscape_errs {raw : List Char} {e : Fault} (h : cookEscape raw = .error e) :
    e = .escapeTooLarge ∧ TooLarge raw := numericEscape_errs (numericEscape_of_cookEscape h)

/-! ### The escapes of ECMAScript -/

/-- An escape sequence of a string literal, given with its backslash: two hexadecimal digits after
`x`, four after `u`, any number of them in braces that spell a code point, one to three octal
digits, the end of a line, or any other character. -/
inductive EcmaScript : List Char → Prop
  | hex {a b : Char} (ha : a ∈ Text.hexDigitChars) (hb : b ∈ Text.hexDigitChars) :
    EcmaScript ['\\', 'x', a, b]
  | unit {a b c d : Char} (h : ∀ e ∈ [a, b, c, d], e ∈ Text.hexDigitChars) :
    EcmaScript ['\\', 'u', a, b, c, d]
  | codePoint {digits : List Char} (hne : digits ≠ [])
      (h : ∀ c ∈ digits, c ∈ Text.hexDigitChars) (hle : Text.digitsValue 16 digits ≤ 0x10ffff) :
    EcmaScript ('\\' :: 'u' :: '\x7b' :: (digits ++ ['\x7d']))
  | octal {digits : List Char} (hne : digits ≠ []) (hlength : digits.length ≤ 3)
      (h : ∀ c ∈ digits, c ∈ Text.octalDigitChars) : EcmaScript ('\\' :: digits)
  | lineBreak : EcmaScript ['\\', '\r', '\n']
  | character {c : Char} (hx : c ≠ 'x') (hu : c ≠ 'u') (ho : c ∉ Text.octalDigitChars) :
    EcmaScript ['\\', c]

theorem plainDigits_of_hex {digits : List Char} (h : ∀ c ∈ digits, c ∈ Text.hexDigitChars) :
    Text.PlainDigits 16 digits := by
  have hbelow : ∀ c ∈ Text.hexDigitChars, (Text.digitBelow? 16 c).isSome = true :=
    Text.forall_of_all (by decide)
  exact fun c hc => ⟨h c hc, hbelow c (h c hc)⟩

theorem plainDigits_of_octal {digits : List Char} (h : ∀ c ∈ digits, c ∈ Text.octalDigitChars) :
    Text.PlainDigits 8 digits := by
  have hbelow : ∀ c ∈ Text.octalDigitChars,
      c ∈ Text.hexDigitChars ∧ (Text.digitBelow? 8 c).isSome = true :=
    Text.forall_of_all (by decide)
  exact fun c hc => hbelow c (h c hc)

theorem mem_octalDigitChars {c : Char} (h0 : '0' ≤ c) (h7 : c ≤ '7') :
    c ∈ Text.octalDigitChars := by
  have h0 : 48 ≤ c.toNat := h0
  have h7 : c.toNat ≤ 55 := h7
  have hall : ∀ k < 8, Char.ofNat (48 + k) ∈ Text.octalDigitChars := by decide
  have hc := hall (c.toNat - 48) (by omega)
  rwa [show 48 + (c.toNat - 48) = c.toNat by omega, Char.ofNat_toNat] at hc

/-- A number of a few digits is a code point. -/
theorem readInt?_inRange {base : Nat} {digits : List Char} (h : Text.PlainDigits base digits)
    (hne : digits ≠ []) (hle : Text.digitsValue base digits ≤ 0x10ffff) :
    ∀ n ∈ Text.readInt? base digits, 0 ≤ n ∧ n ≤ 0x10ffff := by
  intro n hn
  rw [Text.readInt?_plain base digits h hne] at hn
  cases hn
  omega

/-- Every escape of ECMAScript is in range. -/
theorem inRange_of_ecmaScript {raw : List Char} (h : EcmaScript raw) : EscapeInRange raw := by
  unfold EscapeInRange
  cases h with
  | @hex a b ha hb =>
    have hdigits : ∀ c ∈ [a, b], c ∈ Text.hexDigitChars := by simp [ha, hb]
    have hlt := Text.digitsValue_lt 16 (by decide) [a, b]
    exact readInt?_inRange (plainDigits_of_hex hdigits) (by simp) (by simp at hlt; omega)
  | @unit a b c d h =>
    have hbrace : a ≠ '\x7b' := by
      intro ha
      have := h a List.mem_cons_self
      rw [ha] at this
      exact absurd this (by decide)
    have hnumber : escapeNumber? ['\\', 'u', a, b, c, d] = Text.readInt? 16 [a, b, c, d] := by
      simp [escapeNumber?, hbrace]
    have hlt := Text.digitsValue_lt 16 (by decide) [a, b, c, d]
    rw [hnumber]
    exact readInt?_inRange (plainDigits_of_hex h) (by simp) (by simp at hlt; omega)
  | @codePoint digits hne h hle =>
    have hnumber : escapeNumber? ('\\' :: 'u' :: '\x7b' :: (digits ++ ['\x7d'])) =
        Text.readInt? 16 digits := by
      simp [escapeNumber?]
    rw [hnumber]
    exact readInt?_inRange (plainDigits_of_hex h) hne hle
  | @octal digits hne hlength h =>
    have hlt := Text.digitsValue_lt 8 (by decide) digits
    have hpow : Nat.pow 8 digits.length ≤ 512 := Nat.pow_le_pow_right (by decide) hlength
    have hrange := readInt?_inRange (plainDigits_of_octal h) hne (by omega)
    cases digits with
    | nil => exact absurd rfl hne
    | cons head tail =>
      have hletters : head ≠ 'x' ∧ head ≠ 'u' := by
        have hall : ∀ c ∈ Text.octalDigitChars, c ≠ 'x' ∧ c ≠ 'u' :=
          Text.forall_of_all (by decide)
        exact hall head (h head List.mem_cons_self)
      intro n hn
      simp only [escapeNumber?, List.drop_succ_cons, List.drop_zero, if_neg hletters.1,
        if_neg hletters.2] at hn
      split at hn
      · exact hrange n hn
      · cases hn
  | lineBreak => decide
  | @character c hx hu ho =>
    intro n hn
    simp only [escapeNumber?, List.drop_succ_cons, List.drop_zero, if_neg hx, if_neg hu] at hn
    split at hn
    · next hoctal =>
      simp only [Bool.and_eq_true, decide_eq_true_eq] at hoctal
      exact absurd (mem_octalDigitChars hoctal.1.1.2 hoctal.1.2) ho
    · cases hn

end Literal
end PropShear
