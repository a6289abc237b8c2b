import PropShear.Glob.Basic

/-! What globs match.

A pattern is a list of parts, and it matches a text if the parts do so one after another
(`Matches`). The matcher goes through the parts from the last to the first, and keeps a table that
tells of every end of the text whether the parts so far match it (`matchEnds_tabulates`); the first
entry is the answer (`isMatch_iff`). A part that is not `*` takes exactly one character, so a text
is at least as long as the pattern has such parts (`Matches.length_singles_le`). Plain text matches
itself only (`matches_of_plain`). -/
namespace PropShear.Glob

/-- The parts match the text, one after another. -/
inductive Matches : List Part → List Char → Prop
  | nil : Matches [] []
  | anyText {rest : List Part} {s : List Char} (taken : List Char) (h : Matches rest s) :
    Matches (.anyText :: rest) (taken ++ s)
  | one {part : Part} {rest : List Part} {c : Char} {s : List Char} (hpart : part ≠ .anyText)
      (hc : part.accepts c = true) (h : Matches rest s) : Matches (part :: rest) (c :: s)

variable {part : Part} {rest ps : List Part} {s t : List Char}

theorem matches_nil_iff : Matches [] s ↔ s = [] := by
  constructor
  · intro h
    cases h
    rfl
  · rintro rfl
    exact .nil

theorem matches_anyText_iff :
    Matches (.anyText :: rest) s ↔ ∃ t, t <:+ s ∧ Matches rest t := by
  constructor
  · intro h
    cases h with
    | anyText taken h => exact ⟨_, List.suffix_append taken _, h⟩
    | one hpart => exact absurd rfl hpart
  · rintro ⟨t, ⟨taken, rfl⟩, h⟩
    exact .anyText taken h

theorem matches_one_iff (hpart : part ≠ .anyText) :
    Matches (part :: rest) s ↔ ∃ c t, s = c :: t ∧ part.accepts c = true ∧ Matches rest t := by
  constructor
  · intro h
    cases h with
    | anyText => exact absurd rfl hpart
    | one _ hc h => exact ⟨_, _, rfl, hc, h⟩
  · rintro ⟨c, t, rfl, hc, h⟩
    exact .one hpart hc h

/-! ### The table of the matcher -/

/-- The table tells of every end of the text, from the whole to the empty one, whether it has a
property. -/
inductive Tabulates (P : List Char → Prop) : List Char → List Bool → Prop
  | last {b : Bool} (h : b = true ↔ P []) : Tabulates P [] [b]
  | cons {c : Char} {s : List Char} {b : Bool} {table : List Bool} (h : b = true ↔ P (c :: s))
      (hrest : Tabulates P s table) : Tabulates P (c :: s) (b :: table)

namespace Tabulates

variable {P : List Char → Prop} {table : List Bool}

theorem head (h : Tabulates P s table) : ∃ b more, table = b :: more ∧ (b = true ↔ P s) := by
  cases h with
  | last hb => exact ⟨_, _, rfl, hb⟩
  | cons hb _ => exact ⟨_, _, rfl, hb⟩

theorem congr {Q : List Char → Prop} (h : Tabulates P s table) (hPQ : ∀ t, P t ↔ Q t) :
    Tabulates Q s table := by
  induction h with
  | last hb => exact .last (hb.trans (hPQ []))
  | cons hb _ ih => exact .cons (hb.trans (hPQ _)) ih

theorem empty (s : List Char) : Tabulates (· = []) s (s.map (fun _ => false) ++ [true]) := by
  induction s with
  | nil => exact .last (by simp)
  | cons c rest ih => exact .cons (by simp) ih

/-- Some end of an end has the property. -/
theorem spreadLeft (h : Tabulates P s table) :
    Tabulates (fun t => ∃ u, u <:+ t ∧ P u) s (Glob.spreadLeft table) := by
  induction h with
  | last hb => exact .last (by simp [hb])
  | @cons c s b table hb _ ih =>
    obtain ⟨d, more, hspread, hd⟩ := ih.head
    have htable : Glob.spreadLeft (b :: table) = (b || d) :: d :: more := by
      rw [Glob.spreadLeft, hspread]
    rw [htable, ← hspread]
    refine .cons ?_ ih
    rw [Bool.or_eq_true, hb, hd]
    constructor
    · rintro (hwhole | ⟨u, hu, hP⟩)
      · exact ⟨_, List.suffix_rfl, hwhole⟩
      · exact ⟨u, hu.trans (List.suffix_cons c s), hP⟩
    · rintro ⟨u, hu, hP⟩
      rcases List.suffix_cons_iff.mp hu with rfl | hu
      · exact .inl hP
      · exact .inr ⟨u, hu, hP⟩

/-- The first character passes a test, and what follows it has the property. -/
theorem zipWith (h : Tabulates P s table) (ok : Char → Bool) :
    Tabulates (fun t => ∃ c u, t = c :: u ∧ ok c = true ∧ P u) s
      (List.zipWith (fun c b => ok c && b) s table.tail ++ [false]) := by
  induction h with
  | last => exact .last (by simp)
  | @cons c s b table _ hrest ih =>
    obtain ⟨d, more, rfl, hd⟩ := hrest.head
    refine .cons ?_ ih
    rw [Bool.and_eq_true, hd]
    constructor
    · rintro ⟨hc, hP⟩
      exact ⟨c, s, rfl, hc, hP⟩
    · rintro ⟨c', u, heq, hc, hP⟩
      cases heq
      exact ⟨hc, hP⟩

end Tabulates

theorem matchEnds_tabulates (s : List Char) (ps : List Part) :
    Tabulates (Matches ps) s (matchEnds s ps) := by
  induction ps with
  | nil => exact (Tabulates.empty s).congr fun t => matches_nil_iff.symm
  | cons part rest ih =>
    by_cases hpart : part = .anyText
    · subst hpart
      exact ih.spreadLeft.congr fun t => matches_anyText_iff.symm
    · have hstep : matchEnds s (part :: rest) = List.zipWith (fun c b => part.accepts c && b) s
          (matchEnds s rest).tail ++ [false] := by
        cases part with
        | anyText => exact absurd rfl hpart
        | oneOf negated ranges => rfl
        | only c => rfl
      rw [hstep]
      exact (ih.zipWith part.accepts).congr fun t => (matches_one_iff hpart).symm

/-- The matcher tells whether the parts of the pattern match the text. -/
theorem isMatch_iff {pattern : List Char} :
    isMatch pattern s = true ↔ Matches (parts pattern) s := by
  obtain ⟨b, more, htable, hb⟩ := (matchEnds_tabulates s (parts pattern)).head
  rw [isMatch, htable]
  exact hb

/-! ### Lengths -/

/-- The part takes exactly one character. -/
def Part.isSingle : Part → Bool
  | .anyText => false
  | _ => true

theorem Part.isSingle_of_ne (h : part ≠ .anyText) : part.isSingle = true := by
  cases part with
  | anyText => exact absurd rfl h
  | oneOf negated ranges => rfl
  | only c => rfl

/-- The parts without those that stand for any text. -/
def singles (ps : List Part) : List Part := ps.filter Part.isSingle

@[simp] theorem singles_anyText (ps : List Part) : singles (.anyText :: ps) = singles ps := rfl

theorem singles_one (h : part ≠ .anyText) (ps : List Part) :
    singles (part :: ps) = part :: singles ps :=
  List.filter_cons_of_pos (Part.isSingle_of_ne h)

@[simp] theorem singles_plain (s : List Char) (ps : List Part) :
    singles (s.map .only ++ ps) = s.map .only ++ singles ps := by
  rw [singles, List.filter_append, List.filter_eq_self.mpr]
  · rfl
  · intro part hpart
    obtain ⟨c, -, rfl⟩ := List.mem_map.mp hpart
    rfl

theorem Matches.length_singles_le (h : Matches ps s) : (singles ps).length ≤ s.length := by
  induction h with
  | nil => exact Nat.le_refl 0
  | anyText taken _ ih =>
    rw [singles_anyText, List.length_append]
    omega
  | one hpart _ _ ih =>
    rw [singles_one hpart]
    exact Nat.succ_le_succ ih

/-- In a text as short as can be, every `*` stands for nothing. -/
theorem Matches.of_length_eq (h : Matches ps s) (hlength : s.length = (singles ps).length) :
    Matches (singles ps) s := by
  induction h with
  | nil => exact .nil
  | anyText taken h ih =>
    have hle := h.length_singles_le
    rw [singles_anyText, List.length_append] at hlength
    have hnone : taken = [] := List.eq_nil_of_length_eq_zero (by omega)
    subst hnone
    exact ih (by simpa using hlength)
  | one hpart hc _ ih =>
    rw [singles_one hpart] at hlength ⊢
    exact .one hpart hc (ih (Nat.succ.inj hlength))

/-! ### Plain text -/

/-- Text without the characters that have a meaning in patterns. -/
def Plain (s : List Char) : Prop := ∀ c ∈ s, c ≠ '*' ∧ c ≠ '?' ∧ c ≠ '['

instance (s : List Char) : Decidable (Plain s) := List.decidableBAll _ s

theorem parts_plain {s : List Char} (h : Plain s) (pattern : List Char) :
    parts (s ++ pattern) = s.map .only ++ parts pattern := by
  induction s with
  | nil => rfl
  | cons c rest ih =>
    obtain ⟨hstar, hmark, hbracket⟩ := h c List.mem_cons_self
    have hrest := ih fun d hd => h d (List.mem_cons_of_mem c hd)
    unfold parts at hrest ⊢
    rw [List.cons_append, partsFrom, hrest]
    simp [hstar, hmark, hbracket]

theorem matches_plain_iff :
    Matches (s.map .only ++ ps) t ↔ ∃ u, t = s ++ u ∧ Matches ps u := by
  induction s generalizing t with
  | nil => simp
  | cons c rest ih =>
    rw [List.map_cons, List.cons_append, matches_one_iff (by simp)]
    constructor
    · rintro ⟨d, u, rfl, hd, h⟩
      obtain ⟨v, rfl, hv⟩ := ih.mp h
      have hcd : d = c := by simpa [Part.accepts] using hd
      exact ⟨v, by rw [hcd]; rfl, hv⟩
    · rintro ⟨u, rfl, hu⟩
      exact ⟨c, rest ++ u, rfl, by simp [Part.accepts], ih.mpr ⟨u, rfl, hu⟩⟩

theorem matches_only_iff : Matches (s.map .only) t ↔ t = s := by
  rw [← List.append_nil (s.map Part.only), matches_plain_iff]
  simp [matches_nil_iff]

theorem parts_of_plain (h : Plain s) : parts s = s.map .only := by
  have hs := parts_plain h []
  rwa [List.append_nil, show parts [] = [] from rfl, List.append_nil] at hs

/-- Plain text matches itself and nothing else. -/
theorem matches_of_plain (h : Plain s) : Matches (parts s) t ↔ t = s := by
  rw [parts_of_plain h, matches_only_iff]

theorem singles_of_plain (h : Plain s) : singles (parts s) = s.map .only := by
  have hs := singles_plain s []
  rw [parts_of_plain h]
  rwa [List.append_nil, show singles [] = [] from rfl, List.append_nil] at hs

end PropShear.Glob
