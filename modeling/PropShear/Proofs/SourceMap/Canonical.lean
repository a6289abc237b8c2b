import PropShear.Proofs.SourceMap.Vlq

/-! Which texts are written integers, among those that are read as integers.

Text falls into groups (`groups`), one up to each digit without the continuation bit. It is read
exactly if all its groups are whole, and then each of them is one integer (`decode_eq_ok_iff`).
Reading is more lenient than writing: a group may end in zeros that add nothing, and zero may carry
a sign. A group without these is what is written for its integer (`IsGroup.encode_value`), so the
texts that are written again as they were read are those made of such groups (`code_canonical`). -/
namespace PropShear.SourceMap.Vlq

/-- The character is a digit without the continuation bit. -/
def closes (c : Char) : Bool := (digit? c).any (· < 32)

/-- The character is a digit with the continuation bit. -/
def continues (c : Char) : Bool := (digit? c).any (32 ≤ ·)

/-- The text up to each digit without the continuation bit, and what is left after the last one. -/
def groups : List Char → List (List Char)
  | [] => []
  | c :: rest =>
    if closes c then [c] :: groups rest
    else match groups rest with
      | [] => [[c]]
      | g :: more => (c :: g) :: more

/-- The integer that a group holds. -/
def value (g : List Char) : Int := unzigzag (folded g)

/-- The last digit of the group is not a zero that could be left out. -/
def Minimal (g : List Char) : Prop := g.getLast? = some 'A' → g.length = 1

/-! ### Digits -/

theorem digit_eq_getElem {d : Nat} (h : d < alphabet.length) : digit d = alphabet[d] := by
  rw [digit, List.getD_eq_getElem?_getD, List.getElem?_eq_getElem h, Option.getD_some]

theorem eq_digit_of_digit? {c : Char} {d : Nat} (h : digit? c = some d) : c = digit d ∧ d < 64 := by
  obtain ⟨hlt, hc, -⟩ := List.findIdx?_eq_some_iff_getElem.mp h
  exact ⟨(eq_of_beq hc).symm.trans (digit_eq_getElem hlt).symm, hlt⟩

theorem exists_digit_of_mem {c : Char} (h : c ∈ alphabet) : ∃ d, d < 64 ∧ c = digit d := by
  obtain ⟨d, hd, rfl⟩ := List.getElem_of_mem h
  exact ⟨d, hd, (digit_eq_getElem hd).symm⟩

theorem closes_digit {d : Nat} (h : d < 64) : closes (digit d) = decide (d < 32) := by
  rw [closes, digit?_digit h]
  rfl

theorem continues_digit {d : Nat} (h : d < 64) : continues (digit d) = decide (32 ≤ d) := by
  rw [continues, digit?_digit h]
  rfl

/-! ### Cutting text into groups -/

theorem flatten_groups (s : List Char) : (groups s).flatten = s := by
  fun_induction groups s with
  | case1 => rfl
  | case2 c rest _ ih => rw [List.flatten_cons, ih]; rfl
  | case3 c rest _ hrest ih =>
    rw [hrest] at ih
    rw [← ih]
    rfl
  | case4 c rest _ g more hrest ih =>
    rw [hrest] at ih
    rw [← ih]
    rfl

theorem groups_append {g : List Char} (hg : IsGroup g) (rest : List Char) :
    groups (g ++ rest) = g :: groups rest := by
  induction hg with
  | last h =>
    rw [List.singleton_append, groups, closes_digit (by omega), if_pos (decide_eq_true h)]
  | @more d more h _ ih =>
    have hopen : ¬ decide (d + 32 < 32) = true := by simp
    rw [List.cons_append, groups, closes_digit (by omega), if_neg hopen, ih]

/-- Whole groups are found again in the text they make. -/
theorem groups_flatten {gs : List (List Char)} (h : ∀ g ∈ gs, IsGroup g) :
    groups gs.flatten = gs := by
  induction gs with
  | nil => rfl
  | cons g more ih =>
    rw [List.forall_mem_cons] at h
    rw [List.flatten_cons, groups_append h.1, ih h.2]

/-! ### Whole groups -/

theorem IsGroup.mem_alphabet {g : List Char} (hg : IsGroup g) {c : Char} (hc : c ∈ g) :
    c ∈ alphabet := by
  induction hg with
  | last _ =>
    rw [List.mem_singleton.mp hc]
    exact digit_mem_alphabet _
  | more _ _ ih =>
    rcases List.mem_cons.mp hc with rfl | hc
    · exact digit_mem_alphabet _
    · exact ih hc

theorem IsGroup.ne_nil {g : List Char} (hg : IsGroup g) : g ≠ [] := by
  cases hg <;> exact List.cons_ne_nil _ _

theorem IsGroup.continues_getLast {g : List Char} (hg : IsGroup g) :
    ∀ c ∈ g.getLast?, continues c = false := by
  induction hg with
  | @last d hd =>
    rintro c ⟨⟩
    show continues (digit d) = false
    rw [continues_digit (by omega)]
    exact decide_eq_false (by omega)
  | more _ hrest ih => rwa [List.getLast?_cons_of_ne_nil hrest.ne_nil]

/-- The groups of a text are whole if it holds digits only and its last one ends a group. -/
theorem groups_whole_iff {s : List Char} : (∀ g ∈ groups s, IsGroup g) ↔
    (∀ c ∈ s, c ∈ alphabet) ∧ ∀ c ∈ s.getLast?, continues c = false := by
  constructor
  · intro hwhole
    rw [← flatten_groups s]
    refine ⟨fun c hc => ?_, ?_⟩
    · obtain ⟨g, hg, hc⟩ := List.mem_flatten.mp hc
      exact (hwhole g hg).mem_alphabet hc
    · generalize groups s = gs at hwhole
      induction gs with
      | nil => exact fun c hc => by cases hc
      | cons g more ih =>
        rw [List.forall_mem_cons] at hwhole
        intro c hc
        rw [List.flatten_cons, List.getLast?_append, Option.mem_def, Option.or_eq_some_iff] at hc
        rcases hc with hc | ⟨-, hc⟩
        · exact ih hwhole.2 c hc
        · exact hwhole.1.continues_getLast c hc
  · rintro ⟨hdigits, hlast⟩
    induction s with
    | nil => exact List.forall_mem_nil _
    | cons c rest ih =>
      rw [List.forall_mem_cons] at hdigits
      obtain ⟨d, hd, rfl⟩ := exists_digit_of_mem hdigits.1
      have hrest : ∀ g ∈ groups rest, IsGroup g := by
        refine ih hdigits.2 fun c hc => hlast c ?_
        have hne : rest ≠ [] := by rintro rfl; cases hc
        rwa [List.getLast?_cons_of_ne_nil hne]
      rw [groups, closes_digit hd]
      rcases Nat.lt_or_ge d 32 with hcloses | hmore
      · rw [if_pos (decide_eq_true hcloses)]
        exact List.forall_mem_cons.mpr ⟨.last hcloses, hrest⟩
      · obtain ⟨low, rfl⟩ : ∃ low, d = low + 32 := ⟨d - 32, by omega⟩
        rw [if_neg (by simp)]
        cases hgroups : groups rest with
        | nil =>
          have hnil : rest = [] := by rw [← flatten_groups rest, hgroups]; rfl
          have hcontinues := hlast (digit (low + 32)) (by rw [hnil]; rfl)
          rw [continues_digit hd] at hcontinues
          exact absurd hmore (of_decide_eq_false hcontinues)
        | cons g more =>
          rw [hgroups, List.forall_mem_cons] at hrest
          exact List.forall_mem_cons.mpr ⟨.more (by omega) hrest.1, hrest.2⟩

/-! ### Text that is read -/

theorem decode_flatten {gs : List (List Char)} (h : ∀ g ∈ gs, IsGroup g) :
    decode gs.flatten = .ok (gs.map value) := by
  induction gs with
  | nil => rfl
  | cons g more ih =>
    rw [List.forall_mem_cons] at h
    rw [List.flatten_cons, h.1.decode_append, ih h.2]
    rfl

/-- A reader that is content at the end has read digits only, and the last of them ended a group. -/
theorem digits_of_decodeFrom {acc shift : Nat} {s : List Char} {values : List Int}
    (h : decodeFrom acc shift s = .ok values) :
    (∀ c ∈ s, c ∈ alphabet) ∧ ∀ c ∈ s.getLast?, continues c = false := by
  induction s generalizing acc shift values with
  | nil => exact ⟨List.forall_mem_nil _, fun c hc => by cases hc⟩
  | cons c rest ih =>
    cases hc : digit? c with
    | none =>
      rw [decodeFrom, hc] at h
      cases h
    | some d =>
      obtain ⟨rfl, hd⟩ := eq_digit_of_digit? hc
      rcases Nat.lt_or_ge d 32 with hlast | hmore
      · rw [decodeFrom_last acc shift hlast] at h
        cases hread : decode rest with
        | error e =>
          rw [hread] at h
          cases h
        | ok more =>
          have hrest := ih hread
          refine ⟨List.forall_mem_cons.mpr ⟨digit_mem_alphabet d, hrest.1⟩, ?_⟩
          by_cases hnil : rest = []
          · rw [hnil]
            exact (IsGroup.last hlast).continues_getLast
          · rw [List.getLast?_cons_of_ne_nil hnil]
            exact hrest.2
      · obtain ⟨low, rfl⟩ : ∃ low, d = low + 32 := ⟨d - 32, by omega⟩
        rw [decodeFrom_continued acc shift (by omega)] at h
        have hrest := ih h
        refine ⟨List.forall_mem_cons.mpr ⟨digit_mem_alphabet _, hrest.1⟩, ?_⟩
        -- the reader refuses a text that ends here
        have hne : rest ≠ [] := by
          rintro rfl
          rw [decodeFrom, if_neg (by omega)] at h
          cases h
        rw [List.getLast?_cons_of_ne_nil hne]
        exact hrest.2

/-- Text is read if all its groups are whole, each as one integer. -/
theorem decode_eq_ok_iff {s : List Char} {values : List Int} :
    decode s = .ok values ↔ (∀ g ∈ groups s, IsGroup g) ∧ values = (groups s).map value := by
  have hread : (∀ g ∈ groups s, IsGroup g) → decode s = .ok ((groups s).map value) := by
    intro hwhole
    have h := decode_flatten hwhole
    rwa [flatten_groups] at h
  constructor
  · intro h
    have hwhole := groups_whole_iff.mpr (digits_of_decodeFrom h)
    rw [hread hwhole] at h
    cases h
    exact ⟨hwhole, rfl⟩
  · rintro ⟨hwhole, rfl⟩
    exact hread hwhole

/-! ### Groups as they are written -/

theorem zigzag_unzigzag {n : Nat} (h : n ≠ 1) : zigzag (unzigzag n) = n := by
  unfold zigzag unzigzag
  split <;> split <;> omega

/-- A group whose last digit adds something is no zero. -/
theorem IsGroup.folded_pos {g : List Char} (hg : IsGroup g) (h : g.getLast? ≠ some 'A') :
    0 < folded g := by
  induction hg with
  | @last d hd =>
    rw [folded_last hd]
    refine Nat.pos_of_ne_zero fun hzero => h ?_
    rw [hzero]
    rfl
  | @more d rest hd hrest ih =>
    have hlast : rest.getLast? ≠ some 'A' := by
      rwa [List.getLast?_cons_of_ne_nil hrest.ne_nil] at h
    have := ih hlast
    rw [folded_more hd]
    omega

/-- The digits written for the number of a group are the group, unless it ends in a zero that could
be left out. -/
theorem IsGroup.digits_folded {g : List Char} (hg : IsGroup g) :
    digits (folded g) = g ↔ Minimal g := by
  induction hg with
  | @last d hd =>
    rw [folded_last hd, digits, if_pos hd]
    exact ⟨fun _ _ => rfl, fun _ => rfl⟩
  | @more d rest hd hrest ih =>
    have hlength : (digit (d + 32) :: rest).length ≠ 1 := by
      simpa using hrest.ne_nil
    have hlast : (digit (d + 32) :: rest).getLast? = rest.getLast? :=
      List.getLast?_cons_of_ne_nil hrest.ne_nil
    have hsplit : (d + 32 * folded rest) % 32 = d ∧ (d + 32 * folded rest) / 32 = folded rest := by
      omega
    rw [folded_more hd, digits, hsplit.1, hsplit.2, Minimal, hlast]
    constructor
    · intro h hA
      split at h
      · -- one digit is too short
        exact absurd (congrArg List.length h) (Ne.symm hlength)
      · next hbig =>
        have hone := ih.mp (List.cons.inj h).2 hA
        obtain ⟨c, rfl⟩ := List.length_eq_one_iff.mp hone
        cases hA
        exact absurd (show d + 32 * folded ['A'] < 32 from hd) hbig
    · intro h
      have hpos := hrest.folded_pos fun hA => hlength (h hA)
      rw [if_neg (by omega), ih.mpr fun hA => absurd (h hA) hlength]

/-- A group is what is written for its integer if it is minimal and not a zero with a sign. -/
theorem IsGroup.encode_value {g : List Char} (hg : IsGroup g) :
    encode (value g) = g ↔ Minimal g ∧ g ≠ ['B'] := by
  unfold encode value
  by_cases hone : folded g = 1
  · -- a signed zero is written without its sign
    rw [hone]
    have hzero : digits (zigzag (unzigzag 1)) = ['A'] := by rw [digits]; rfl
    have hsigned : digits 1 = ['B'] := by rw [digits]; rfl
    have hminimal := hg.digits_folded
    rw [hone, hsigned] at hminimal
    rw [hzero]
    constructor
    · rintro rfl
      cases hone
    · rintro ⟨h, hne⟩
      exact absurd (hminimal.mpr h).symm hne
  · rw [zigzag_unzigzag hone, hg.digits_folded]
    refine ⟨fun h => ⟨h, ?_⟩, And.left⟩
    rintro rfl
    exact hone rfl

/-- Integers written one after another are read back. A text that is read as integers falls into
whole groups, and it is written again as it was exactly if none of them ends in a zero that could be
left out and none is a zero with a sign. -/
theorem code_canonical (values : List Int) (s : List Char) :
    decode (values.flatMap encode) = .ok values ∧
      ∀ read, decode s = .ok read →
        (groups s).flatten = s ∧ (∀ g ∈ groups s, IsGroup g) ∧
          (read.flatMap encode = s ↔ ∀ g ∈ groups s, Minimal g ∧ g ≠ ['B']) := by
  have hwritten : ∀ vs : List Int, ∀ g ∈ vs.map encode, IsGroup g := fun vs g hg => by
    obtain ⟨v, -, rfl⟩ := List.mem_map.mp hg
    exact isGroup_digits _
  constructor
  · rw [List.flatMap_def, decode_flatten (hwritten values), List.map_map]
    congr 1
    refine (List.map_congr_left fun v _ => ?_).trans (List.map_id _)
    show unzigzag (folded (digits (zigzag v))) = v
    rw [folded_digits, unzigzag_zigzag]
  · intro read h
    obtain ⟨hwhole, rfl⟩ := decode_eq_ok_iff.mp h
    refine ⟨flatten_groups s, hwhole, ?_⟩
    calc ((groups s).map value).flatMap encode = s
        ↔ ((groups s).map value).map encode = groups s := by
          rw [List.flatMap_def]
          constructor
          · intro heq
            have hcut := groups_flatten (hwritten ((groups s).map value))
            rw [heq] at hcut
            exact hcut.symm
          · intro heq
            rw [heq, flatten_groups]
      _ ↔ ∀ g ∈ groups s, encode (value g) = g := by
          rw [List.map_map]
          exact ⟨fun heq => List.map_inj_left.mp (heq.trans (List.map_id _).symm),
            fun heq => (List.map_congr_left heq).trans (List.map_id _)⟩
      _ ↔ ∀ g ∈ groups s, Minimal g ∧ g ≠ ['B'] :=
          forall_congr' fun g => forall_congr' fun hg => (hwhole g hg).encode_value

end PropShear.SourceMap.Vlq
