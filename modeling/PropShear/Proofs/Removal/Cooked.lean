import Mathlib.Data.List.Forall2
import PropShear.Proofs.Except
import PropShear.Proofs.Removal.Escape
import PropShear.Proofs.Text.Utf16

/-! The value of a string literal.

Each part of a literal denotes UTF-16 units: a fragment those of its characters, an escape those
that ECMAScript gives it (`Denotes`). The value of the literal is the text with all these units in
order (`value?_denotes`). Since the halves of a pair may come from two escapes, that is not the
concatenation of the values of the parts, but there is only one such text in which pairs are
joined. -/
namespace PropShear.Literal

/-! ### Numbers -/

/-- The digits with their values; a letter counts in either case. -/
def digitTable : List (Char × Nat) :=
  [('0', 0), ('1', 1), ('2', 2), ('3', 3), ('4', 4), ('5', 5), ('6', 6), ('7', 7), ('8', 8),
    ('9', 9), ('a', 10), ('b', 11), ('c', 12), ('d', 13), ('e', 14), ('f', 15), ('A', 10),
    ('B', 11), ('C', 12), ('D', 13), ('E', 14), ('F', 15)]

/-- Digits of a base spell a number, the last one counting least. -/
inductive Spells (base : Nat) : List Char → Nat → Prop
  | nil : Spells base [] 0
  | snoc {digits : List Char} {n v : Nat} {c : Char} (h : Spells base digits n)
      (hc : (c, v) ∈ digitTable) (hv : v < base) : Spells base (digits ++ [c]) (n * base + v)

theorem digitBelow?_of_mem {base v : Nat} {c : Char} (hc : (c, v) ∈ digitTable) (hv : v < base) :
    c ∈ Text.hexDigitChars ∧ Text.digitBelow? base c = some v := by
  have htable : digitTable.all (fun d => decide (d.1 ∈ Text.hexDigitChars ∧
    Text.digitValue? d.1 = some d.2)) = true := by decide
  obtain ⟨hmem, hvalue⟩ := of_decide_eq_true (List.all_eq_true.mp htable _ hc)
  refine ⟨hmem, ?_⟩
  rw [Text.digitBelow?, hvalue, Option.filter_some, if_pos (decide_eq_true hv)]

namespace Spells

variable {base n : Nat} {digits : List Char}

/-- What is known of the digits of a base is known of all that a number is spelled with. -/
theorem forall_mem {P : Char → Prop} (h : Spells base digits n)
    (hP : ∀ c v, (c, v) ∈ digitTable → v < base → P c) : ∀ c ∈ digits, P c := by
  induction h with
  | nil => exact List.forall_mem_nil P
  | snoc _ hc hv ih =>
    intro d hd
    rcases List.mem_append.mp hd with hd | hd
    · exact ih d hd
    · rw [List.mem_singleton.mp hd]
      exact hP _ _ hc hv

theorem plain (h : Spells base digits n) : Text.PlainDigits base digits :=
  h.forall_mem fun c v hc hv => by
    obtain ⟨hmem, hvalue⟩ := digitBelow?_of_mem hc hv
    exact ⟨hmem, by rw [hvalue]; rfl⟩

theorem digitsValue (h : Spells base digits n) : Text.digitsValue base digits = n := by
  induction h with
  | nil => rfl
  | snoc _ hc hv ih =>
    unfold Text.digitsValue at ih ⊢
    rw [List.foldl_append, ih, List.foldl_cons, (digitBelow?_of_mem hc hv).2]
    rfl

theorem lt (h : Spells base digits n) (hbase : 0 < base) : n < Nat.pow base digits.length := by
  rw [← h.digitsValue]
  exact Text.digitsValue_lt base hbase digits

/-- A number that is spelled out is read. -/
theorem readInt? (h : Spells base digits n) (hne : digits ≠ []) :
    Text.readInt? base digits = some (n : Int) := by
  rw [Text.readInt?_plain base digits h.plain hne, h.digitsValue]

theorem octal (h : Spells 8 digits n) : ∀ c ∈ digits, c ∈ Text.octalDigitChars := by
  have htable : digitTable.all (fun d => decide (d.2 < 8 → d.1 ∈ Text.octalDigitChars)) = true := by
    decide
  exact h.forall_mem fun c v hc => of_decide_eq_true (List.all_eq_true.mp htable _ hc)

end Spells

/-! ### Escapes -/

/-- The escapes of one character that stand for another, or for a quote or a backslash. -/
def singleEscapes : List (Char × Nat) :=
  [('\x27', 0x27), ('\x22', 0x22), ('\\', 0x5c), ('b', 0x8), ('f', 0xc), ('n', 0xa), ('r', 0xd),
    ('t', 0x9), ('v', 0xb)]

/-- The ends of lines that a backslash continues. -/
def lineEnds : List (List Char) := [['\n'], ['\r'], ['\r', '\n'], ['\u2028'], ['\u2029']]

/-- The characters with a meaning of their own behind a backslash. -/
def escapeChars : List Char :=
  singleEscapes.map Prod.fst ++ Text.octalDigitChars ++ ['x', 'u'] ++ lineEnds.flatten

/-- The UTF-16 units that ECMAScript gives an escape sequence, which is given with its backslash. -/
inductive Denotes : List Char → List Nat → Prop
  | single {c : Char} {n : Nat} (h : (c, n) ∈ singleEscapes) : Denotes ['\\', c] [n]
  | hex {digits : List Char} {n : Nat} (h : Spells 16 digits n) (hlength : digits.length = 2) :
    Denotes ('\\' :: 'x' :: digits) [n]
  | unit {digits : List Char} {n : Nat} (h : Spells 16 digits n) (hlength : digits.length = 4) :
    Denotes ('\\' :: 'u' :: digits) [n]
  | codePoint {digits : List Char} {n : Nat} (h : Spells 16 digits n) (hne : digits ≠ [])
      (hle : n ≤ 0x10ffff) :
    Denotes ('\\' :: 'u' :: '\x7b' :: (digits ++ ['\x7d'])) (Text.codeUnits n)
  | octal {digits : List Char} {n : Nat} (h : Spells 8 digits n) (hne : digits ≠ [])
      (hlength : digits.length ≤ 3) (hle : n ≤ 255) : Denotes ('\\' :: digits) [n]
  | continuation {line : List Char} (h : line ∈ lineEnds) : Denotes ('\\' :: line) []
  | other {c : Char} (h : c ∉ escapeChars) : Denotes ['\\', c] (Text.codeUnits c.toNat)

/-- The escape has a value, whose units are the given ones. -/
def Cooks (raw : List Char) (units : List Nat) : Prop :=
  ∃ points, cookEscape raw = .ok points ∧ Text.utf16 points = units ∧ Text.InUnicode points

theorem cooks_point {raw : List Char} {n : Nat} (h : cookEscape raw = .ok [n])
    (hn : n < 0x110000) : Cooks raw (Text.codeUnits n) := by
  refine ⟨[n], h, List.append_nil _, ?_⟩
  intro m hm
  rw [List.mem_singleton.mp hm]
  exact hn

theorem cooks_unit {raw : List Char} {n : Nat} (h : cookEscape raw = .ok [n])
    (hn : n < 0x10000) : Cooks raw [n] := by
  rw [← Text.codeUnits_small hn]
  exact cooks_point h (by omega)

/-- A number that is a code point is the value of its escape. -/
theorem numericEscape_spells {base n : Nat} {digits : List Char} (raw : List Char)
    (h : Spells base digits n) (hne : digits ≠ []) (hn : n < 0x110000) :
    numericEscape raw (Text.readInt? base digits) = .ok [n] := by
  rw [h.readInt? hne, numericEscape, if_neg (by omega), if_pos (by omega), Int.toNat_natCast]

theorem cookEscape_single {c : Char} {n : Nat} (h : (c, n) ∈ singleEscapes) :
    cookEscape ['\\', c] = .ok [n] ∧ n < 0x10000 := by
  have htable : singleEscapes.all (fun d => decide ((cookEscape ['\\', d.1]).toOption =
    some [d.2] ∧ d.2 < 0x10000)) = true := by decide
  obtain ⟨hcook, hn⟩ := of_decide_eq_true (List.all_eq_true.mp htable _ h)
  obtain ⟨points, hpoints, -⟩ := exists_ok (p := fun _ => true) (by rw [hcook]; rfl)
  rw [hpoints] at hcook ⊢
  cases hcook
  exact ⟨rfl, hn⟩

theorem cookEscape_continuation {line : List Char} (h : line ∈ lineEnds) :
    cookEscape ('\\' :: line) = .ok [] := by
  simp only [lineEnds, List.mem_cons, List.not_mem_nil, or_false] at h
  rcases h with rfl | rfl | rfl | rfl | rfl <;> rfl

theorem cookEscape_hex (digits : List Char) : cookEscape ('\\' :: 'x' :: digits) =
    numericEscape ('\\' :: 'x' :: digits) (Text.readInt? 16 digits) := rfl

theorem cookEscape_unit {digits : List Char} (h : '\x7b' ∉ digits) :
    cookEscape ('\\' :: 'u' :: digits) =
      numericEscape ('\\' :: 'u' :: digits) (Text.readInt? 16 digits) := by
  cases digits with
  | nil => rfl
  | cons c rest =>
    have hc : c ≠ '\x7b' := fun hc => h (hc ▸ List.mem_cons_self)
    simp [cookEscape, isLineTerminator, hc]

theorem cookEscape_codePoint (digits : List Char) :
    cookEscape ('\\' :: 'u' :: '\x7b' :: (digits ++ ['\x7d'])) =
      numericEscape ('\\' :: 'u' :: '\x7b' :: (digits ++ ['\x7d'])) (Text.readInt? 16 digits) := by
  show numericEscape _ (Text.readInt? 16 (digits ++ ['\x7d']).dropLast) = _
  rw [List.dropLast_concat]

/-- Octal digits are read as a number, except that a zero alone is an escape of one character. -/
theorem cookEscape_octal {digits : List Char} {n : Nat} (h : Spells 8 digits n) (hne : digits ≠ [])
    (hn : n ≤ 255) : cookEscape ('\\' :: digits) = .ok [n] := by
  have hdigits := h.octal
  have hfacts : ∀ c ∈ Text.octalDigitChars, Text.isDigit c = true ∧ isLineTerminator c = false ∧
      c ≠ 'x' ∧ c ≠ 'u' ∧ '0' ≤ c ∧ c ≤ '7' := Text.forall_of_all (by decide)
  cases digits with
  | nil => exact absurd rfl hne
  | cons head tail =>
    obtain ⟨-, hline, hx, hu, hleast, hmost⟩ := hfacts head (hdigits head List.mem_cons_self)
    have hall : (head :: tail).all Text.isDigit = true :=
      List.all_eq_true.mpr fun c hc => (hfacts c (hdigits c hc)).1
    by_cases hzero : tail = [] ∧ head = '0'
    · obtain ⟨rfl, rfl⟩ := hzero
      rw [← h.digitsValue]
      rfl
    · have hnumber : ((head :: tail).all Text.isDigit && decide ('0' ≤ head) &&
          decide (head ≤ '7') && !(tail.isEmpty && head == '0')) = true := by
        simp only [hall, hleast, hmost, decide_true, Bool.and_true, Bool.true_and,
          Bool.not_eq_true', Bool.and_eq_false_imp, List.isEmpty_iff, beq_eq_false_iff_ne]
        exact fun htail hhead => hzero ⟨htail, hhead⟩
      rw [← numericEscape_spells ('\\' :: head :: tail) h hne (by omega)]
      unfold cookEscape
      simp only [List.drop_succ_cons, List.drop_zero]
      rw [hline, if_neg Bool.false_ne_true, if_neg hx, if_neg hu, if_pos hnumber]

theorem isLineTerminator_iff {c : Char} : isLineTerminator c = true ↔ [c] ∈ lineEnds := by
  have hnumber : ∀ d : Char, c.toNat = d.toNat ↔ c = d := fun d => Char.toNat_inj
  simp [isLineTerminator, lineEnds, ← hnumber, or_assoc]

/-- Escapes of one character without a meaning of their own stand for that character. -/
theorem cookEscape_other {c : Char} (h : c ∉ escapeChars) :
    cookEscape ['\\', c] = .ok [c.toNat] := by
  simp only [escapeChars, List.mem_append, not_or, List.mem_flatten, not_exists, not_and] at h
  obtain ⟨⟨⟨hsingle, hoctal⟩, hletters⟩, hends⟩ := h
  have hline : isLineTerminator c = false := by
    rw [← Bool.not_eq_true, isLineTerminator_iff]
    exact fun hline => hends [c] hline List.mem_cons_self
  have hsimple : simpleEscape c = c := by
    unfold simpleEscape
    split <;> simp_all [singleEscapes, Text.octalDigitChars]
  have hnumber : ([c].all Text.isDigit && decide ('0' ≤ c) && decide (c ≤ '7') &&
      !(([] : List Char).isEmpty && c == '0')) = false := by
    rw [← Bool.not_eq_true]
    intro hall
    simp only [Bool.and_eq_true, decide_eq_true_eq] at hall
    exact hoctal (mem_octalDigitChars hall.1.1.2 hall.1.2)
  simp only [List.mem_cons, List.not_mem_nil, or_false, not_or] at hletters
  unfold cookEscape
  simp only [List.drop_succ_cons, List.drop_zero]
  rw [hline, if_neg Bool.false_ne_true, if_neg hletters.1, if_neg hletters.2, hnumber,
    if_neg Bool.false_ne_true, hsimple]

/-- Every escape of ECMAScript has the value that it denotes. -/
theorem Denotes.cooks {raw : List Char} {units : List Nat} (h : Denotes raw units) :
    Cooks raw units := by
  cases h with
  | single h => exact cooks_unit (cookEscape_single h).1 (cookEscape_single h).2
  | @hex digits n h hlength =>
    have hn := h.lt (by decide)
    rw [hlength] at hn
    have hne := List.ne_nil_of_length_eq_add_one hlength
    have hsmall : n < 0x10000 := Nat.lt_of_lt_of_le hn (by decide)
    exact cooks_unit ((cookEscape_hex digits).trans
      (numericEscape_spells _ h hne (by omega))) hsmall
  | @unit digits n h hlength =>
    have hn : n < 0x10000 := by
      have hn := h.lt (by decide)
      rwa [hlength] at hn
    have hne := List.ne_nil_of_length_eq_add_one hlength
    have hbrace : '\x7b' ∉ digits := fun hmem => absurd (h.plain _ hmem).1 (by decide)
    exact cooks_unit ((cookEscape_unit hbrace).trans (numericEscape_spells _ h hne (by omega))) hn
  | @codePoint digits n h hne hle =>
    exact cooks_point ((cookEscape_codePoint digits).trans
      (numericEscape_spells _ h hne (by omega))) (by omega)
  | octal h hne hlength hle => exact cooks_unit (cookEscape_octal h hne hle) (by omega)
  | continuation h => exact ⟨[], cookEscape_continuation h, rfl, List.forall_mem_nil _⟩
  | @other c h => exact cooks_point (cookEscape_other h) (Text.toNat_lt c)

/-! ### Literals -/

/-- A part of a string literal denotes units. -/
inductive PartDenotes (source : List Char) (part : Node) : List Nat → Prop
  | fragment {text : List Char} (hkind : part.kind ≠ .escapeSequence)
      (htext : part.text? source = some text) :
    PartDenotes source part (Text.utf16 (Text.codePoints text))
  | escape {text : List Char} {units : List Nat} (hkind : part.kind = .escapeSequence)
      (htext : part.text? source = some text) (h : Denotes text units) :
    PartDenotes source part units

/-- A part has a value with the units that it denotes. -/
theorem PartDenotes.cooked {source : List Char} {part : Node} {units : List Nat}
    (h : PartDenotes source part units) :
    ∃ points, cookPart source part = .ok points ∧ Text.utf16 points = units ∧
      Text.InUnicode points := by
  cases h with
  | @fragment text hkind htext =>
    refine ⟨Text.codePoints text, ?_, rfl, Text.inUnicode_codePoints text⟩
    simp only [cookPart, textOf, htext, hkind]
    rfl
  | escape hkind htext h =>
    obtain ⟨points, hcook, hpoints⟩ := h.cooks
    refine ⟨points, ?_, hpoints⟩
    simp only [cookPart, textOf, htext, hkind]
    exact hcook

/-- Parts have values one after another, and so do their units follow each other. -/
theorem mapM_cookPart {source : List Char} {parts : List Node} {units : List (List Nat)}
    (h : List.Forall₂ (PartDenotes source) parts units) :
    ∃ cooked, parts.mapM (cookPart source) = .ok cooked ∧
      Text.utf16 cooked.flatten = units.flatten ∧ Text.InUnicode cooked.flatten := by
  induction h with
  | nil => exact ⟨[], rfl, rfl, List.forall_mem_nil _⟩
  | cons hpart _ ih =>
    obtain ⟨points, hcook, hunits, hpoints⟩ := hpart.cooked
    obtain ⟨cooked, hrest, hmore, hall⟩ := ih
    refine ⟨points :: cooked, ?_, ?_, ?_⟩
    · rw [List.mapM_cons, hcook, hrest]
      rfl
    · rw [List.flatten_cons, List.flatten_cons, Text.utf16_append, hunits, hmore]
    · intro n hn
      rw [List.flatten_cons, List.mem_append] at hn
      exact hn.elim (hpoints n) (hall n)

/-- **A string literal has the value that ECMAScript gives it.** If its parts are fragments and
escape sequences, in any number and order, it has a value. The units of that value are those of the
parts, one after another, and no high surrogate stands right before a low one. No other text has
both properties. -/
theorem value?_denotes {source : List Char} {n : Node} {units : List (List Nat)}
    (hkind : n.kind = .string) (h : List.Forall₂ (PartDenotes source) n.namedChildren units) :
    ∃ points, value? source n = .ok (some points) ∧ Text.utf16 points = units.flatten ∧
      Text.Joined points ∧
      ∀ other, Text.InUnicode other → Text.Joined other → Text.utf16 other = units.flatten →
        other = points := by
  obtain ⟨cooked, hcook, hunits, hall⟩ := mapM_cookPart h
  have hvalue : Text.utf16 (Text.joinPairs cooked.flatten) = units.flatten := by
    rw [Text.utf16_joinPairs, hunits]
  have hjoined := Text.joined_joinPairs cooked.flatten
  refine ⟨Text.joinPairs cooked.flatten, ?_, hvalue, hjoined, ?_⟩
  · rw [value?, if_pos hkind, hcook]
    rfl
  · intro other hother hapart hsame
    exact hapart.eq_of_utf16 hjoined hother (Text.inUnicode_joinPairs hall)
      (hsame.trans hvalue.symm)

/-- A literal with a fragment, a pair that two escapes of different forms make up, and a line that
goes on. -/
def pairText : String := "'é\\ud83d\\u\x7bde00\x7d\\\n'"

def pairLiteral : Node :=
  .branch .string 0 20 [
    .token (.other "'") 0 1,
    .branch (.other "string_fragment") 1 3 [],
    .branch .escapeSequence 3 9 [],
    .branch .escapeSequence 9 17 [],
    .branch .escapeSequence 17 19 [],
    .token (.other "'") 19 20]

theorem value?_denotes_pair : ∃ units,
    List.Forall₂ (PartDenotes pairText.toList) pairLiteral.namedChildren units ∧
      units.flatten = [0xe9, 0xd83d, 0xde00] ∧
      value? pairText.toList pairLiteral = .ok (some [0xe9, 0x1f600]) := by
  have hd : Spells 16 ['d'] 0xd := @Spells.snoc 16 [] 0 13 'd' .nil (by decide) (by decide)
  have hd8 : Spells 16 ['d', '8'] 0xd8 := .snoc hd (v := 8) (by decide) (by decide)
  have hd83 : Spells 16 ['d', '8', '3'] 0xd83 := .snoc hd8 (v := 3) (by decide) (by decide)
  have hhigh : Spells 16 ['d', '8', '3', 'd'] 0xd83d := .snoc hd83 (v := 13) (by decide) (by decide)
  have hde : Spells 16 ['d', 'e'] 0xde := .snoc hd (v := 14) (by decide) (by decide)
  have hde0 : Spells 16 ['d', 'e', '0'] 0xde0 := .snoc hde (v := 0) (by decide) (by decide)
  have hlow : Spells 16 ['d', 'e', '0', '0'] 0xde00 := .snoc hde0 (v := 0) (by decide) (by decide)
  have hparts : List.Forall₂ (PartDenotes pairText.toList) pairLiteral.namedChildren
      [Text.utf16 (Text.codePoints ['é']), [0xd83d], Text.codeUnits 0xde00, []] :=
    .cons (.fragment (by decide) rfl) (.cons (.escape rfl rfl (.unit hhigh rfl))
      (.cons (.escape rfl rfl (.codePoint hlow (by decide) (by decide)))
        (.cons (.escape rfl rfl (.continuation (by decide))) .nil)))
  obtain ⟨points, hvalue, -, -, honly⟩ := value?_denotes rfl hparts
  refine ⟨_, hparts, by decide, ?_⟩
  rw [hvalue, honly [0xe9, 0x1f600] (by decide) (by decide) (by decide)]

end PropShear.Literal
