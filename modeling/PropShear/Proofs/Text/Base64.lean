import PropShear.Text.Base64

/-! Base-64 text is read back as the bytes it was written for.

The reader (`decode?`) takes four digits at a time; padding may only stand in the last four. What is
left over in the last digit before the padding does not count. -/
namespace PropShear.Text.Base64

/-- The value of a digit. -/
def value? (c : Char) : Option Nat := alphabet.idxOf? c

/-- The bytes of one group of four digits, two of which may be padding. -/
def readGroup? (a b c d : Char) : Option (List UInt8) := do
  let n := (← value? a) * 0x40 + (← value? b)
  if d = '=' then
    if c = '=' then return [(n / 0x10).toUInt8]
    let n := n * 0x40 + (← value? c)
    return [(n / 0x400).toUInt8, (n / 4).toUInt8]
  let n := (n * 0x40 + (← value? c)) * 0x40 + (← value? d)
  return [(n / 0x10000).toUInt8, (n / 0x100).toUInt8, n.toUInt8]

/-- The bytes that the text stands for. -/
def decode? : List Char → Option (List UInt8)
  | [] => some []
  | a :: b :: c :: d :: rest => do
    if d = '=' ∧ rest ≠ [] then none
    return (← readGroup? a b c d) ++ (← decode? rest)
  | _ => none

theorem value?_digit (n : Nat) : value? (digit n) = some (n % 64) := by
  have hall : ∀ k : Fin 64, value? (alphabet.getD k 'A') = some k.val := by decide +kernel
  exact hall ⟨n % 64, Nat.mod_lt n (by decide)⟩

theorem digit_ne_pad (n : Nat) : digit n ≠ '=' := by
  intro h
  have hvalue := value?_digit n
  rw [h] at hvalue
  have hnone : value? '=' = none := by decide +kernel
  rw [hnone] at hvalue
  cases hvalue

theorem toUInt8_of_mod {n : Nat} {a : UInt8} (h : n % 256 = a.toNat) : n.toUInt8 = a := by
  apply UInt8.toNat_inj.mp
  rw [← h]
  rfl

/-! ### Groups -/

theorem readGroup?_one (a : UInt8) :
    readGroup? (digit (a.toNat * 0x10 / 0x40)) (digit (a.toNat * 0x10)) '=' '=' = some [a] := by
  have ha := a.toNat_lt
  simp only [readGroup?, value?_digit, Option.bind_eq_bind, Option.bind_some, if_true]
  rw [toUInt8_of_mod (a := a) (by omega)]
  rfl

theorem readGroup?_two (a b : UInt8) {n : Nat} (hn : n = (a.toNat * 0x100 + b.toNat) * 4) :
    readGroup? (digit (n / 0x1000)) (digit (n / 0x40)) (digit n) '=' = some [a, b] := by
  have ha := a.toNat_lt
  have hb := b.toNat_lt
  simp only [readGroup?, value?_digit, Option.bind_eq_bind, Option.bind_some, if_true,
    digit_ne_pad, if_false]
  rw [toUInt8_of_mod (a := a) (by omega), toUInt8_of_mod (a := b) (by omega)]
  rfl

theorem readGroup?_three (a b c : UInt8) {n : Nat}
    (hn : n = (a.toNat * 0x100 + b.toNat) * 0x100 + c.toNat) :
    readGroup? (digit (n / 0x40000)) (digit (n / 0x1000)) (digit (n / 0x40)) (digit n) =
      some [a, b, c] := by
  have ha := a.toNat_lt
  have hb := b.toNat_lt
  have hc := c.toNat_lt
  simp only [readGroup?, value?_digit, Option.bind_eq_bind, Option.bind_some, digit_ne_pad,
    if_false]
  rw [toUInt8_of_mod (a := a) (by omega), toUInt8_of_mod (a := b) (by omega),
    toUInt8_of_mod (a := c) (by omega)]
  rfl

theorem decode?_group {a b c d : Char} {rest : List Char} {front more : List UInt8}
    (hpad : d = '=' → rest = []) (hgroup : readGroup? a b c d = some front)
    (hrest : decode? rest = some more) :
    decode? (a :: b :: c :: d :: rest) = some (front ++ more) := by
  have hlast : ¬ (d = '=' ∧ rest ≠ []) := fun h => h.2 (hpad h.1)
  rw [decode?, if_neg hlast, hgroup, hrest]
  rfl

/-! ### Whole texts -/

/-- Bytes are read back, whatever their number leaves for the last group. -/
theorem decode?_encode (bytes : List UInt8) : decode? (encode bytes) = some bytes := by
  fun_induction encode bytes with
  | case1 => rfl
  | case2 a n => exact decode?_group (fun _ => rfl) (readGroup?_one a) rfl
  | case3 a b n => exact decode?_group (fun _ => rfl) (readGroup?_two a b rfl) rfl
  | case4 a b c rest n ih =>
    exact decode?_group (fun h => absurd h (digit_ne_pad n)) (readGroup?_three a b c rfl) ih

end PropShear.Text.Base64
