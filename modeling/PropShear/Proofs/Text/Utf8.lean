import PropShear.Proofs.Except
import PropShear.Text.Utf8

/-! Reading UTF-8 and writing it again.

While a character is being read, every way to finish it leads to the bytes that it is written with
(`Completes`). A lead byte starts that way (`completes_of_lead`) and every further byte keeps to it,
so what is read is written with the bytes it was read from (`encode_decode`). The other way round,
the bytes of a character are read as that character (`decodeFrom_encodeChar`), so the bytes that can
be read are those that some text is written with (`decode_eq_ok_iff`). -/
namespace PropShear.Text.Utf8

/-! ### Characters and their numbers -/

theorem val_ofNat {v : Nat} (h : v.isValidChar) : (Char.ofNat v).val.toNat = v := by
  rw [Char.ofNat, dif_pos h]
  rfl

/-- Bytes are known by their numbers. -/
theorem ofNat_eq {n : Nat} {b : UInt8} (h : n = b.toNat) : UInt8.ofNat n = b := by
  rw [h, UInt8.ofNat_toNat]

theorem encodeChar_one {b : UInt8} (h : b.toNat < 0x80) :
    String.utf8EncodeChar (Char.ofNat b.toNat) = [b] := by
  simp only [String.utf8EncodeChar, val_ofNat (.inl (by omega) : b.toNat.isValidChar)]
  rw [if_pos (by omega), UInt8.ofNat_toNat]

theorem encodeChar_two {v : Nat} {b₁ b₂ : UInt8} (hleast : 0x80 ≤ v) (hmost : v ≤ 0x7ff)
    (h₁ : v / 64 + 0xc0 = b₁.toNat) (h₂ : v % 64 + 0x80 = b₂.toNat) :
    String.utf8EncodeChar (Char.ofNat v) = [b₁, b₂] := by
  simp only [String.utf8EncodeChar, val_ofNat (.inl (by omega) : v.isValidChar)]
  rw [if_neg (by omega), if_pos hmost, ofNat_eq (b := b₁) (by omega), ofNat_eq h₂]

theorem encodeChar_three {v : Nat} {b₁ b₂ b₃ : UInt8} (hvalid : v.isValidChar)
    (hleast : 0x800 ≤ v) (hmost : v ≤ 0xffff) (h₁ : v / 4096 + 0xe0 = b₁.toNat)
    (h₂ : v / 64 % 64 + 0x80 = b₂.toNat) (h₃ : v % 64 + 0x80 = b₃.toNat) :
    String.utf8EncodeChar (Char.ofNat v) = [b₁, b₂, b₃] := by
  simp only [String.utf8EncodeChar, val_ofNat hvalid]
  rw [if_neg (by omega), if_neg (by omega), if_pos hmost, ofNat_eq (b := b₁) (by omega),
    ofNat_eq h₂, ofNat_eq h₃]

theorem encodeChar_four {v : Nat} {b₁ b₂ b₃ b₄ : UInt8} (hleast : 0x10000 ≤ v)
    (hmost : v < 0x110000) (h₁ : v / 262144 + 0xf0 = b₁.toNat)
    (h₂ : v / 4096 % 64 + 0x80 = b₂.toNat) (h₃ : v / 64 % 64 + 0x80 = b₃.toNat)
    (h₄ : v % 64 + 0x80 = b₄.toNat) :
    String.utf8EncodeChar (Char.ofNat v) = [b₁, b₂, b₃, b₄] := by
  simp only [String.utf8EncodeChar, val_ofNat (.inr (by omega) : v.isValidChar)]
  rw [if_neg (by omega), if_neg (by omega), if_neg (by omega), ofNat_eq (b := b₁) (by omega),
    ofNat_eq h₂, ofNat_eq h₃, ofNat_eq h₄]

/-- A character of one byte is that byte, and the bytes of every other character are from 128 on. -/
theorem mem_encodeChar {c : Char} {b : UInt8} (h : b ∈ String.utf8EncodeChar c) :
    b.toNat = c.val.toNat ∨ 0x80 ≤ b.toNat := by
  simp only [String.utf8EncodeChar] at h
  split at h
  · cases List.mem_singleton.mp h
    rw [UInt8.toNat_ofNat_of_lt' (by show _ < 256; omega)]
    exact .inl rfl
  · -- every byte of a longer form is a small number above 128, 192, 224 or 240
    have hhigh {n : Nat} (hlow : 0x80 ≤ n) (hbyte : n < 256) (hb : b = UInt8.ofNat n) :
        b.toNat = c.val.toNat ∨ 0x80 ≤ b.toNat := by
      rw [hb, UInt8.toNat_ofNat_of_lt' hbyte]
      exact .inr hlow
    split at h
    · simp only [List.mem_cons, List.not_mem_nil, or_false] at h
      rcases h with h | h <;> exact hhigh (by omega) (by omega) h
    · split at h <;> simp only [List.mem_cons, List.not_mem_nil, or_false] at h
      · rcases h with h | h | h <;> exact hhigh (by omega) (by omega) h
      · rcases h with h | h | h | h <;> exact hhigh (by omega) (by omega) h

/-! ### Unfinished characters -/

/-- Whatever bytes complete a character of which some are read, together they are what the
character is written with. The next byte lies between bounds, all after it are continuation
bytes. -/
def Completes (read : List UInt8) (value : Nat) : (missing least most : Nat) → Prop
  | 0, _, _ => String.utf8EncodeChar (Char.ofNat value) = read
  | missing + 1, least, most => ∀ b : UInt8, least ≤ b.toNat → b.toNat ≤ most →
    Completes (read ++ [b]) (value * 64 + (b.toNat - 0x80)) missing 0x80 0xbf

theorem completes_two {b : UInt8} (hleast : 0xc2 ≤ b.toNat) (hmost : b.toNat < 0xe0) :
    Completes [b] (b.toNat - 0xc0) 1 0x80 0xbf := by
  intro b₂ _ _
  apply encodeChar_two <;> omega

/-- The bounds of the second byte leave out over-long forms and surrogates. -/
theorem completes_three {b : UInt8} (hleast : 0xe0 ≤ b.toNat) (hmost : b.toNat < 0xf0) :
    Completes [b] (b.toNat - 0xe0) 2 (if b.toNat = 0xe0 then 0xa0 else 0x80)
      (if b.toNat = 0xed then 0x9f else 0xbf) := by
  intro b₂ hleast₂ hmost₂ b₃ _ _
  have hlong : 0x80 ≤ b₂.toNat ∧ (b.toNat = 0xe0 → 0xa0 ≤ b₂.toNat) := by
    split at hleast₂ <;> omega
  have hsurrogate : b₂.toNat ≤ 0xbf ∧ (b.toNat = 0xed → b₂.toNat ≤ 0x9f) := by
    split at hmost₂ <;> omega
  clear hleast₂ hmost₂
  apply encodeChar_three
  · unfold Nat.isValidChar
    omega
  all_goals omega

/-- The bounds of the second byte leave out over-long forms and numbers beyond the last
character. -/
theorem completes_four {b : UInt8} (hleast : 0xf0 ≤ b.toNat) (hmost : b.toNat < 0xf5) :
    Completes [b] (b.toNat - 0xf0) 3 (if b.toNat = 0xf0 then 0x90 else 0x80)
      (if b.toNat = 0xf4 then 0x8f else 0xbf) := by
  intro b₂ hleast₂ hmost₂ b₃ _ _ b₄ _ _
  have hlong : 0x80 ≤ b₂.toNat ∧ (b.toNat = 0xf0 → 0x90 ≤ b₂.toNat) := by
    split at hleast₂ <;> omega
  have hbeyond : b₂.toNat ≤ 0xbf ∧ (b.toNat = 0xf4 → b₂.toNat ≤ 0x8f) := by
    split at hmost₂ <;> omega
  clear hleast₂ hmost₂
  apply encodeChar_four <;> omega

/-- A lead byte is completed by the bytes it announces. -/
theorem completes_of_lead {b : UInt8} {u : Unfinished} (h : Unfinished.ofLead? b = some u) :
    0 < u.missing ∧ Completes [b] u.value u.missing u.least u.most := by
  unfold Unfinished.ofLead? at h
  dsimp only at h
  split at h
  · cases h
  · split at h
    · cases h
      exact ⟨Nat.one_pos, completes_two (by omega) (by omega)⟩
    · split at h
      · cases h
        exact ⟨Nat.two_pos, completes_three (by omega) (by omega)⟩
      · split at h
        · cases h
          exact ⟨Nat.succ_pos 2, completes_four (by omega) (by omega)⟩
        · cases h

/-! ### Texts -/

/-- What is read of a character, if one is being read. -/
def Reading (read : List UInt8) : Option Unfinished → Prop
  | none => read = []
  | some u => 0 < u.missing ∧ Completes read u.value u.missing u.least u.most

theorem encode_cons (c : Char) (s : List Char) :
    encode (c :: s) = String.utf8EncodeChar c ++ encode s := rfl

/-- The invariant carries over each byte: what is read of a character is either kept or written. -/
theorem encode_decodeFrom {position : Nat} {state : Option Unfinished} {bytes : List UInt8}
    {s : List Char} {read : List UInt8} (hread : Reading read state)
    (h : decodeFrom position state bytes = .ok s) : encode s = read ++ bytes := by
  fun_induction decodeFrom position state bytes generalizing s read with
  | case1 position =>
    cases h
    cases hread
    rfl
  | case2 => cases h
  | case3 position b rest hlow ih =>
    obtain ⟨more, hmore, hs⟩ := bind_eq_ok h
    cases hs
    cases hread
    rw [encode_cons, encodeChar_one hlow, ih rfl hmore]
    rfl
  | case4 => cases h
  | case5 position b rest hhigh u hlead ih =>
    cases hread
    exact ih (completes_of_lead hlead) h
  | case6 => cases h
  | case7 position u b rest n hbounds value =>
    rename_i hlast ih
    obtain ⟨more, hmore, hs⟩ := bind_eq_ok h
    cases hs
    obtain ⟨hmissing, hcompletes⟩ := hread
    have hone : u.missing = 1 := by omega
    rw [hone] at hcompletes
    have hchar := hcompletes b (by omega) (by omega)
    rw [Completes] at hchar
    rw [encode_cons, hchar, ih rfl hmore, List.append_assoc]
    rfl
  | case8 position u b rest n hbounds value =>
    rename_i hmore ih
    obtain ⟨hmissing, hcompletes⟩ := hread
    obtain ⟨m, hm⟩ : ∃ m, u.missing = m + 2 := ⟨u.missing - 2, by omega⟩
    rw [hm] at hcompletes
    have hnext : Reading (read ++ [b])
        (some ⟨u.first, u.count + 1, value, u.missing - 1, 0x80, 0xbf⟩) := by
      rw [hm]
      exact ⟨Nat.succ_pos m, hcompletes b (by omega) (by omega)⟩
    rw [ih hnext h, List.append_assoc]
    rfl

theorem encode_decode {bytes : List UInt8} {s : List Char} (h : decode bytes = .ok s) :
    encode s = bytes := encode_decodeFrom (show Reading [] none from rfl) h

/-! ### Reading what was written -/

section Reading

variable {position v : Nat} {u : Unfinished} {b : UInt8} {rest : List UInt8} {s : List Char}

theorem toNat_byte {n : Nat} (h : n < 256) : (UInt8.ofNat n).toNat = n := UInt8.toNat_ofNat_of_lt' h

theorem decodeFrom_lead (h : Unfinished.ofLead? b = some u) :
    decodeFrom position none (b :: rest) = decodeFrom (position + 1) (some u) rest := by
  have hhigh : ¬ b.toNat < 0x80 := by
    intro hlow
    rw [Unfinished.ofLead?, if_pos (by omega)] at h
    cases h
  rw [decodeFrom, if_neg hhigh, h]

/-- A continuation byte within the bounds adds its six bits. -/
theorem decodeFrom_next (hleast : u.least ≤ v % 64 + 0x80) (hmost : v % 64 + 0x80 ≤ u.most)
    (hmissing : 2 ≤ u.missing) :
    decodeFrom position (some u) (UInt8.ofNat (v % 64 + 0x80) :: rest) =
      decodeFrom (position + 1)
        (some ⟨u.first, u.count + 1, u.value * 64 + v % 64, u.missing - 1, 0x80, 0xbf⟩) rest := by
  have hbyte : (UInt8.ofNat (v % 64 + 0x80)).toNat = v % 64 + 0x80 := toNat_byte (by omega)
  rw [decodeFrom, hbyte, if_neg (by omega), if_neg (by omega), Nat.add_sub_cancel]

theorem decodeFrom_last (hleast : u.least ≤ v % 64 + 0x80) (hmost : v % 64 + 0x80 ≤ u.most)
    (hmissing : u.missing = 1) (hrest : ∀ position, decodeFrom position none rest = .ok s) :
    decodeFrom position (some u) (UInt8.ofNat (v % 64 + 0x80) :: rest) =
      .ok (Char.ofNat (u.value * 64 + v % 64) :: s) := by
  have hbyte : (UInt8.ofNat (v % 64 + 0x80)).toNat = v % 64 + 0x80 := toNat_byte (by omega)
  rw [decodeFrom, hbyte, if_neg (by omega), if_pos (by omega), hrest, Nat.add_sub_cancel]
  rfl

theorem decodeFrom_one (hmost : v ≤ 0x7f)
    (hrest : ∀ position, decodeFrom position none rest = .ok s) :
    decodeFrom position none (UInt8.ofNat v :: rest) = .ok (Char.ofNat v :: s) := by
  rw [decodeFrom, toNat_byte (by omega), if_pos (by omega), hrest]
  rfl

theorem decodeFrom_two (hleast : 0x7f < v) (hmost : v ≤ 0x7ff)
    (hrest : ∀ position, decodeFrom position none rest = .ok s) :
    decodeFrom position none
        (UInt8.ofNat (v / 64 % 32 + 0xc0) :: UInt8.ofNat (v % 64 + 0x80) :: rest) =
      .ok (Char.ofNat v :: s) := by
  have hfirst : (UInt8.ofNat (v / 64 % 32 + 0xc0)).toNat = v / 64 + 0xc0 := by
    rw [toNat_byte (by omega)]
    omega
  have hlead : Unfinished.ofLead? (UInt8.ofNat (v / 64 % 32 + 0xc0)) =
      some ⟨UInt8.ofNat (v / 64 % 32 + 0xc0), 1, v / 64, 1, 0x80, 0xbf⟩ := by
    simp only [Unfinished.ofLead?, hfirst]
    rw [if_neg (by omega), if_pos (by omega), Nat.add_sub_cancel]
  rw [decodeFrom_lead hlead,
    decodeFrom_last (by dsimp only; omega) (by dsimp only; omega) rfl hrest]
  dsimp only
  rw [show v / 64 * 64 + v % 64 = v by omega]

/-- The number is no surrogate, so the second byte is within the bounds that the first one sets. -/
theorem decodeFrom_three (hvalid : v.isValidChar) (hleast : 0x7ff < v) (hmost : v ≤ 0xffff)
    (hrest : ∀ position, decodeFrom position none rest = .ok s) :
    decodeFrom position none (UInt8.ofNat (v / 4096 % 16 + 0xe0) ::
        UInt8.ofNat (v / 64 % 64 + 0x80) :: UInt8.ofNat (v % 64 + 0x80) :: rest) =
      .ok (Char.ofNat v :: s) := by
  have hfirst : (UInt8.ofNat (v / 4096 % 16 + 0xe0)).toNat = v / 4096 + 0xe0 := by
    rw [toNat_byte (by omega)]
    omega
  have hlead : Unfinished.ofLead? (UInt8.ofNat (v / 4096 % 16 + 0xe0)) =
      some ⟨UInt8.ofNat (v / 4096 % 16 + 0xe0), 1, v / 4096, 2,
        if v / 4096 + 0xe0 = 0xe0 then 0xa0 else 0x80,
        if v / 4096 + 0xe0 = 0xed then 0x9f else 0xbf⟩ := by
    simp only [Unfinished.ofLead?, hfirst]
    rw [if_neg (by omega), if_neg (by omega), if_pos (by omega), Nat.add_sub_cancel]
  unfold Nat.isValidChar at hvalid
  rw [decodeFrom_lead hlead,
    decodeFrom_next (by dsimp only; split <;> omega) (by dsimp only; split <;> omega) (by simp),
    decodeFrom_last (by dsimp only; omega) (by dsimp only; omega) rfl hrest]
  dsimp only
  rw [show (v / 4096 * 64 + v / 64 % 64) * 64 + v % 64 = v by omega]

theorem decodeFrom_four (hleast : 0xffff < v) (hmost : v < 0x110000)
    (hrest : ∀ position, decodeFrom position none rest = .ok s) :
    decodeFrom position none (UInt8.ofNat (v / 262144 % 8 + 0xf0) ::
        UInt8.ofNat (v / 4096 % 64 + 0x80) :: UInt8.ofNat (v / 64 % 64 + 0x80) ::
        UInt8.ofNat (v % 64 + 0x80) :: rest) = .ok (Char.ofNat v :: s) := by
  have hfirst : (UInt8.ofNat (v / 262144 % 8 + 0xf0)).toNat = v / 262144 + 0xf0 := by
    rw [toNat_byte (by omega)]
    omega
  have hlead : Unfinished.ofLead? (UInt8.ofNat (v / 262144 % 8 + 0xf0)) =
      some ⟨UInt8.ofNat (v / 262144 % 8 + 0xf0), 1, v / 262144, 3,
        if v / 262144 + 0xf0 = 0xf0 then 0x90 else 0x80,
        if v / 262144 + 0xf0 = 0xf4 then 0x8f else 0xbf⟩ := by
    simp only [Unfinished.ofLead?, hfirst]
    rw [if_neg (by omega), if_neg (by omega), if_neg (by omega), if_pos (by omega),
      Nat.add_sub_cancel]
  rw [decodeFrom_lead hlead,
    decodeFrom_next (by dsimp only; split <;> omega) (by dsimp only; split <;> omega) (by simp),
    decodeFrom_next (by dsimp only; omega) (by dsimp only; omega) (by simp),
    decodeFrom_last (by dsimp only; omega) (by dsimp only; omega) rfl hrest]
  dsimp only
  rw [show ((v / 262144 * 64 + v / 4096 % 64) * 64 + v / 64 % 64) * 64 + v % 64 = v by omega]

/-- A character that was written is read again. -/
theorem decodeFrom_encodeChar (c : Char)
    (hrest : ∀ position, decodeFrom position none rest = .ok s) (position : Nat) :
    decodeFrom position none (String.utf8EncodeChar c ++ rest) = .ok (c :: s) := by
  have hvalid : c.val.toNat.isValidChar := c.valid
  have hmost : c.val.toNat < 0x110000 := by
    unfold Nat.isValidChar at hvalid
    omega
  have hchar : Char.ofNat c.val.toNat = c := Char.ofNat_toNat c
  rw [← hchar]
  simp only [String.utf8EncodeChar, val_ofNat hvalid]
  split
  · exact decodeFrom_one ‹_› hrest
  · split
    · exact decodeFrom_two (by omega) ‹_› hrest
    · split
      · exact decodeFrom_three hvalid (by omega) ‹_› hrest
      · exact decodeFrom_four (by omega) hmost hrest

end Reading

theorem decode_encode (s : List Char) : decode (encode s) = .ok s := by
  have hread : ∀ position, decodeFrom position none (encode s) = .ok s := by
    induction s with
    | nil =>
      intro position
      rfl
    | cons c rest ih => exact decodeFrom_encodeChar c ih
  exact hread 0

theorem encode_injective {s t : List Char} (h : encode s = encode t) : s = t := by
  have hdecode := decode_encode s
  rw [h, decode_encode] at hdecode
  exact (Except.ok.inj hdecode).symm

/-- Bytes are read as a text exactly if they are what it is written with. -/
theorem decode_eq_ok_iff {bytes : List UInt8} {s : List Char} :
    decode bytes = .ok s ↔ encode s = bytes := by
  constructor
  · exact encode_decode
  · rintro rfl
    exact decode_encode s

end PropShear.Text.Utf8
