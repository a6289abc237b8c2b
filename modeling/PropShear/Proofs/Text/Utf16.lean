import Mathlib.Data.List.Chain
import PropShear.Text.CodePoint

/-! Code points and their UTF-16 units.

A code point beyond 16 bits is written with two units, a high surrogate and a low one; all others,
surrogates among them, are written with one. So lists of code points that differ can be written with
the same units, but only one of them is joined, with no high surrogate right before a low one
(`joinPairs_utf16`). Joining pairs leads to that one (`utf16_joinPairs`, `joined_joinPairs`).
Strings hold no surrogates, so they are found again from their units (`ofCodePoints?_joinPairs`). -/
namespace PropShear.Text

/-- The UTF-16 units of a code point. -/
def codeUnits (n : Nat) : List Nat :=
  if n < 0x10000 then [n] else [0xd800 + (n - 0x10000) / 0x400, 0xdc00 + (n - 0x10000) % 0x400]

def utf16 (points : List Nat) : List Nat := points.flatMap codeUnits

/-- No high surrogate stands right before a low one. -/
def Joined (points : List Nat) : Prop :=
  points.IsChain fun a b => ¬ (isHighSurrogate a = true ∧ isLowSurrogate b = true)

/-- All are code points of Unicode, surrogates included. -/
def InUnicode (points : List Nat) : Prop := ∀ n ∈ points, n < 0x110000

instance (points : List Nat) : Decidable (Joined points) := inferInstanceAs (Decidable
  (points.IsChain fun a b => ¬ (isHighSurrogate a = true ∧ isLowSurrogate b = true)))

instance (points : List Nat) : Decidable (InUnicode points) :=
  inferInstanceAs (Decidable (∀ n ∈ points, n < 0x110000))

theorem isHighSurrogate_iff {n : Nat} : isHighSurrogate n = true ↔ 0xd800 ≤ n ∧ n < 0xdc00 := by
  simp [isHighSurrogate]

theorem isLowSurrogate_iff {n : Nat} : isLowSurrogate n = true ↔ 0xdc00 ≤ n ∧ n < 0xe000 := by
  simp [isLowSurrogate]

@[simp] theorem utf16_nil : utf16 [] = [] := rfl

@[simp] theorem utf16_cons (n : Nat) (rest : List Nat) :
    utf16 (n :: rest) = codeUnits n ++ utf16 rest := List.flatMap_cons

theorem utf16_append (a b : List Nat) : utf16 (a ++ b) = utf16 a ++ utf16 b := List.flatMap_append

theorem codeUnits_small {n : Nat} (h : n < 0x10000) : codeUnits n = [n] := if_pos h

theorem toNat_lt (c : Char) : c.toNat < 0x110000 := by
  have hvalid : c.val.toNat.isValidChar := c.valid
  unfold Nat.isValidChar at hvalid
  show c.val.toNat < 0x110000
  omega

theorem inUnicode_codePoints (s : List Char) : InUnicode (codePoints s) := by
  intro n hn
  obtain ⟨c, -, rfl⟩ := List.mem_map.mp hn
  exact toNat_lt c

/-! ### Pairs -/

variable {high low n : Nat}

theorem codeUnits_pairValue (hhigh : isHighSurrogate high = true)
    (hlow : isLowSurrogate low = true) : codeUnits (pairValue high low) = [high, low] := by
  rw [isHighSurrogate_iff] at hhigh
  rw [isLowSurrogate_iff] at hlow
  have hvalue : pairValue high low - 0x10000 = (high - 0xd800) * 0x400 + (low - 0xdc00) := by
    unfold pairValue
    omega
  rw [codeUnits, if_neg (by unfold pairValue; omega), hvalue]
  simp only [List.cons.injEq, and_true]
  omega

theorem codeUnits_large (hleast : 0x10000 ≤ n) (hmost : n < 0x110000) :
    ∃ high low, codeUnits n = [high, low] ∧ isHighSurrogate high = true ∧
      isLowSurrogate low = true ∧ pairValue high low = n := by
  refine ⟨_, _, if_neg (Nat.not_lt.mpr hleast), ?_, ?_, ?_⟩
  · rw [isHighSurrogate_iff]
    omega
  · rw [isLowSurrogate_iff]
    omega
  · unfold pairValue
    omega

theorem le_pairValue (high low : Nat) : 0x10000 ≤ pairValue high low := by
  unfold pairValue
  omega

/-! ### Joining -/

theorem joinPairs_pair (rest : List Nat) (hhigh : isHighSurrogate high = true)
    (hlow : isLowSurrogate low = true) :
    joinPairs (high :: low :: rest) = pairValue high low :: joinPairs rest := by
  rw [joinPairs, hhigh, hlow]
  rfl

theorem joinPairs_apart (rest : List Nat)
    (h : ¬ (isHighSurrogate high = true ∧ isLowSurrogate low = true)) :
    joinPairs (high :: low :: rest) = high :: joinPairs (low :: rest) := by
  rw [joinPairs, if_neg (by rwa [Bool.and_eq_true])]

/-- Joining pairs changes no unit. -/
theorem utf16_joinPairs (points : List Nat) : utf16 (joinPairs points) = utf16 points := by
  fun_induction joinPairs points with
  | case1 high low rest hpair ih =>
    rw [Bool.and_eq_true] at hpair
    have hhigh := isHighSurrogate_iff.mp hpair.1
    have hlow := isLowSurrogate_iff.mp hpair.2
    rw [utf16_cons, utf16_cons, utf16_cons, codeUnits_pairValue hpair.1 hpair.2, ih,
      codeUnits_small (by omega), codeUnits_small (by omega)]
    rfl
  | case2 high low rest hpair ih =>
    rw [utf16_cons, ih]
    exact (utf16_cons high (low :: rest)).symm
  | case3 points => rfl

/-- What joined text starts with was there, or is too large for a surrogate. -/
theorem head_joinPairs (rest : List Nat) :
    (joinPairs (n :: rest)).head? = some n ∨ ∃ m, (joinPairs (n :: rest)).head? = some m ∧
      0x10000 ≤ m := by
  cases rest with
  | nil => exact .inl rfl
  | cons low rest =>
    by_cases h : isHighSurrogate n = true ∧ isLowSurrogate low = true
    · rw [joinPairs_pair rest h.1 h.2]
      exact .inr ⟨_, rfl, le_pairValue n low⟩
    · rw [joinPairs_apart rest h]
      exact .inl rfl

theorem joined_joinPairs (points : List Nat) : Joined (joinPairs points) := by
  unfold Joined
  fun_induction joinPairs points with
  | case1 high low rest hpair ih =>
    refine ih.cons fun next _ hpair => ?_
    have := isHighSurrogate_iff.mp hpair.1
    have := le_pairValue high low
    omega
  | case2 high low rest hpair ih =>
    rw [Bool.and_eq_true] at hpair
    refine ih.cons fun next hnext => ?_
    rcases head_joinPairs (n := low) rest with hsame | ⟨m, hm, hlarge⟩
    · cases hsame.symm.trans hnext
      exact hpair
    · cases hm.symm.trans hnext
      intro hboth
      have := isLowSurrogate_iff.mp hboth.2
      omega
  | case3 points hshort =>
    rcases points with _ | ⟨n, _ | ⟨low, rest⟩⟩
    · exact .nil
    · exact .singleton n
    · exact absurd rfl (hshort n low rest)

theorem inUnicode_joinPairs {points : List Nat} (h : InUnicode points) :
    InUnicode (joinPairs points) := by
  unfold InUnicode at h ⊢
  fun_induction joinPairs points with
  | case1 high low rest hpair ih =>
    rw [Bool.and_eq_true] at hpair
    have := isHighSurrogate_iff.mp hpair.1
    have := isLowSurrogate_iff.mp hpair.2
    simp only [List.forall_mem_cons] at h ⊢
    refine ⟨?_, ih h.2.2⟩
    unfold pairValue
    omega
  | case2 high low rest hpair ih =>
    rw [List.forall_mem_cons] at h ⊢
    exact ⟨h.1, ih h.2⟩
  | case3 points => exact h

/-- Units of joined text are joined to that text again. -/
theorem joinPairs_utf16 {points : List Nat} (hunicode : InUnicode points)
    (hjoined : Joined points) : joinPairs (utf16 points) = points := by
  induction points with
  | nil => rfl
  | cons n rest ih =>
    have hrest := ih (fun m hm => hunicode m (List.mem_cons_of_mem n hm)) hjoined.tail
    by_cases hlarge : 0x10000 ≤ n
    · obtain ⟨high, low, hunits, hhigh, hlow, hvalue⟩ :=
        codeUnits_large hlarge (hunicode n List.mem_cons_self)
      rw [utf16_cons, hunits]
      show joinPairs (high :: low :: utf16 rest) = n :: rest
      rw [joinPairs_pair _ hhigh hlow, hvalue, hrest]
    · rw [utf16_cons, codeUnits_small (by omega)]
      show joinPairs (n :: utf16 rest) = n :: rest
      -- a single unit is not joined with what comes after it
      cases rest with
      | nil => rfl
      | cons m more =>
        by_cases hm : 0x10000 ≤ m
        · obtain ⟨high, low, hunits, hhigh, -⟩ := codeUnits_large hm
            (hunicode m (List.mem_cons_of_mem n List.mem_cons_self))
          rw [utf16_cons, hunits] at hrest ⊢
          have hapart : ¬ (isHighSurrogate n = true ∧ isLowSurrogate high = true) := by
            rw [isLowSurrogate_iff]
            rw [isHighSurrogate_iff] at hhigh
            omega
          show joinPairs (n :: high :: low :: utf16 more) = n :: m :: more
          rw [joinPairs_apart _ hapart]
          exact congrArg (n :: ·) hrest
        · rw [utf16_cons, codeUnits_small (by omega)] at hrest ⊢
          show joinPairs (n :: m :: utf16 more) = n :: m :: more
          rw [joinPairs_apart _ (List.isChain_cons_cons.mp hjoined).1]
          exact congrArg (n :: ·) hrest

/-- Two joined texts with the same units are the same. -/
theorem Joined.eq_of_utf16 {a b : List Nat} (ha : Joined a) (hb : Joined b)
    (hinA : InUnicode a) (hinB : InUnicode b) (h : utf16 a = utf16 b) : a = b := by
  rw [← joinPairs_utf16 hinA ha, h, joinPairs_utf16 hinB hb]

/-! ### Strings -/

/-- Text holds no surrogates, so there are no pairs to join in it. -/
theorem joined_codePoints (s : List Char) : Joined (codePoints s) := by
  apply List.Pairwise.isChain
  rw [codePoints, List.pairwise_map]
  refine List.pairwise_of_forall fun a b h => ?_
  have hvalid : a.val.toNat.isValidChar := a.valid
  have hhigh := isHighSurrogate_iff.mp h.1
  unfold Nat.isValidChar at hvalid
  have htoNat : a.toNat = a.val.toNat := rfl
  omega

theorem ofCodePoints?_codePoints (s : List Char) :
    ofCodePoints? (codePoints s) = some (String.ofList s) := by
  have hchar (c : Char) : Char.ofNatAux c.toNat c.valid = c := by
    have h := Char.ofNat_toNat c
    rwa [Char.ofNat, dif_pos (show c.toNat.isValidChar from c.valid)] at h
  unfold ofCodePoints? codePoints
  rw [List.mapM_map]
  suffices h : s.mapM (m := Option) ((fun n : Nat => if h : n.isValidChar then
      some (Char.ofNatAux n h) else none) ∘ Char.toNat) = some s by rw [h]; rfl
  induction s with
  | nil => rfl
  | cons c more ih =>
    rw [List.mapM_cons, ih, Function.comp_apply, dif_pos (show c.toNat.isValidChar from c.valid), hchar]
    rfl

/-- A string is found again from its units. -/
theorem ofCodePoints?_joinPairs (s : String) :
    ofCodePoints? (joinPairs (utf16 (codePoints s.toList))) = some s := by
  rw [joinPairs_utf16 (inUnicode_codePoints s.toList) (joined_codePoints s.toList),
    ofCodePoints?_codePoints, String.ofList_toList]

end PropShear.Text
