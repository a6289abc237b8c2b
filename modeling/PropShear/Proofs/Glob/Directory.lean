import PropShear.Filter
import PropShear.Proofs.Glob.Matching

/-! Which directories `**/` may stand for.

If every `**/` of a pattern may stand for no directory, each choice of those that do gives a shorter
pattern, and a path is to match one of these (`MatchesVariant`). The matcher tries three of them:
the pattern as it is, without a leading `**/`, and without any `**/` after a slash. So whatever it
accepts matches a variant, and with a single `**/` nothing is lost. With two of them the matcher
always misses something: they stand for no directory both or not at all, or, if one is leading, not
both. -/
namespace PropShear.Glob

/-! ### Variants -/

/-- Some of the `**/` after a slash are dropped. -/
inductive Shortens : List Char → List Char → Prop
  | nil : Shortens [] []
  | keep {p q : List Char} (c : Char) (h : Shortens p q) : Shortens (c :: p) (c :: q)
  | drop {p q : List Char} (h : Shortens ('/' :: p) q) : Shortens ('/' :: '*' :: '*' :: '/' :: p) q

/-- Some of the `**/` after a slash are dropped, and a leading one is kept or dropped too. -/
def Variant (pattern v : List Char) : Prop :=
  ∃ q, Shortens pattern q ∧ (v = q ∨ q = '*' :: '*' :: '/' :: v)

def MatchesVariant (pattern path : List Char) : Prop :=
  ∃ v, Variant pattern v ∧ Matches (parts v) path

/-- The pattern starts with `/**/`. -/
def startsPlace (pattern : List Char) : Bool := ['/', '*', '*', '/'].isPrefixOf pattern

/-- The pattern starts with `**/`. -/
def startsAnywhere (pattern : List Char) : Bool := ['*', '*', '/'].isPrefixOf pattern

/-- How many `**/` follow a slash. -/
def innerPlaces : List Char → Nat
  | [] => 0
  | c :: rest => (if startsPlace (c :: rest) then 1 else 0) + innerPlaces rest

/-- How many `**/` may stand for no directory. -/
def places (pattern : List Char) : Nat :=
  (if startsAnywhere pattern then 1 else 0) + innerPlaces pattern

variable {a b c p q s v : List Char} {x y : Char}

theorem startsPlace_iff : startsPlace p = true ↔ ∃ rest, p = '/' :: '*' :: '*' :: '/' :: rest := by
  rw [startsPlace, List.isPrefixOf_iff_prefix]
  exact ⟨fun ⟨rest, h⟩ => ⟨rest, h.symm⟩, fun ⟨rest, h⟩ => ⟨rest, h.symm⟩⟩

theorem startsAnywhere_iff : startsAnywhere p = true ↔ ∃ rest, p = '*' :: '*' :: '/' :: rest := by
  rw [startsAnywhere, List.isPrefixOf_iff_prefix]
  exact ⟨fun ⟨rest, h⟩ => ⟨rest, h.symm⟩, fun ⟨rest, h⟩ => ⟨rest, h.symm⟩⟩

namespace Shortens

theorem refl (p : List Char) : Shortens p p := by
  induction p with
  | nil => exact .nil
  | cons c rest ih => exact .keep c ih

theorem append_left (s : List Char) (h : Shortens p q) : Shortens (s ++ p) (s ++ q) := by
  induction s with
  | nil => exact h
  | cons c rest ih => exact .keep c ih

theorem head?_eq (h : Shortens p q) : q.head? = p.head? := by
  induction h with
  | nil => rfl
  | keep => rfl
  | drop _ ih => exact ih

theorem of_cons (h : Shortens p (x :: q)) (hx : x ≠ '/') :
    ∃ rest, p = x :: rest ∧ Shortens rest q := by
  cases h with
  | keep _ h => exact ⟨_, rfl, h⟩
  | drop h => exact absurd (Option.some.inj h.head?_eq) hx

/-- No leading `**/` comes into being. -/
theorem startsAnywhere (h : Shortens p ('*' :: '*' :: '/' :: v)) :
    Glob.startsAnywhere p = true := by
  obtain ⟨rest, rfl, hrest⟩ := h.of_cons (by decide)
  obtain ⟨more, rfl, hmore⟩ := hrest.of_cons (by decide)
  have hslash : more.head? = some '/' := hmore.head?_eq.symm
  obtain ⟨last, rfl⟩ := List.head?_eq_some_iff.mp hslash
  exact startsAnywhere_iff.mpr ⟨last, rfl⟩

theorem eq_of_no_place (h : Shortens p q) (hnone : innerPlaces p = 0) : q = p := by
  induction h with
  | nil => rfl
  | keep c _ ih =>
    rw [innerPlaces, Nat.add_eq_zero_iff] at hnone
    rw [ih hnone.2]
  | drop => simp [innerPlaces, startsPlace] at hnone

end Shortens

/-! ### Dropping all of them -/

theorem dropDirectories_place (p : List Char) :
    dropDirectories 0 ('/' :: '*' :: '*' :: '/' :: p) = '/' :: dropDirectories 0 p := rfl

theorem dropDirectories_keep (h : startsPlace (x :: p) = false) :
    dropDirectories 0 (x :: p) = x :: dropDirectories 0 p := by
  unfold startsPlace at h
  rw [dropDirectories, h]
  rfl

theorem shortens_dropDirectories (p : List Char) : Shortens p (dropDirectories 0 p) := by
  -- A place is four characters long, so the induction is on the length.
  induction hlength : p.length using Nat.strongRecOn generalizing p with
  | ind n ih =>
    subst hlength
    cases p with
    | nil => exact .nil
    | cons x rest =>
      cases hplace : startsPlace (x :: rest) with
      | false =>
        rw [dropDirectories_keep hplace]
        exact .keep x (ih _ (Nat.lt_succ_self _) rest rfl)
      | true =>
        obtain ⟨more, hmore⟩ := startsPlace_iff.mp hplace
        rw [hmore, dropDirectories_place]
        exact .drop (.keep '/' (ih more.length (by simp [hmore]; omega) more rfl))

/-- A pattern with one `/**/` is left as it is or loses it. -/
theorem Shortens.eq_of_one_place (h : Shortens p q) (hone : innerPlaces p ≤ 1) :
    q = p ∨ q = dropDirectories 0 p := by
  induction h with
  | nil => exact .inl rfl
  | @keep p q x h ih =>
    rw [innerPlaces] at hone
    cases hplace : startsPlace (x :: p) with
    | true =>
      rw [hplace, if_pos rfl] at hone
      rw [h.eq_of_no_place (by omega)]
      exact .inl rfl
    | false =>
      rw [dropDirectories_keep hplace]
      rcases ih (by omega) with rfl | rfl
      · exact .inl rfl
      · exact .inr rfl
  | @drop p q h _ =>
    have hplaces : innerPlaces ('/' :: '*' :: '*' :: '/' :: p) = 1 + innerPlaces ('/' :: p) := by
      simp [innerPlaces, startsPlace]
    have hnone : innerPlaces ('/' :: p) = 0 := by omega
    have hrest : innerPlaces p = 0 := by
      rw [innerPlaces] at hnone
      omega
    rw [dropDirectories_place, h.eq_of_no_place hnone,
      (shortens_dropDirectories p).eq_of_no_place hrest]
    exact .inr rfl

/-! ### The three that are tried -/

theorem isPathMatch_iff {pattern path : List Char} :
    isPathMatch pattern path = true ↔
      Matches (parts pattern) path ∨
        (∃ rest, pattern = '*' :: '*' :: '/' :: rest ∧ Matches (parts rest) path) ∨
        Matches (parts (dropDirectories 0 pattern)) path := by
  have hlead : (['*', '*', '/'].isPrefixOf pattern = true ∧ isMatch (pattern.drop 3) path = true) ↔
      ∃ rest, pattern = '*' :: '*' :: '/' :: rest ∧ Matches (parts rest) path := by
    constructor
    · rintro ⟨hstart, h⟩
      obtain ⟨rest, rfl⟩ := startsAnywhere_iff.mp hstart
      exact ⟨rest, rfl, isMatch_iff.mp h⟩
    · rintro ⟨rest, rfl, h⟩
      exact ⟨startsAnywhere_iff.mpr ⟨rest, rfl⟩, isMatch_iff.mpr h⟩
  rw [isPathMatch, Bool.or_eq_true, Bool.or_eq_true, Bool.and_eq_true, hlead, isMatch_iff,
    isMatch_iff, or_assoc]

/-- Whatever is matched matches a variant. -/
theorem matchesVariant_of_isPathMatch {pattern path : List Char}
    (h : isPathMatch pattern path = true) : MatchesVariant pattern path := by
  rcases isPathMatch_iff.mp h with hwhole | ⟨rest, rfl, hrest⟩ | hdropped
  · exact ⟨pattern, ⟨pattern, .refl _, .inl rfl⟩, hwhole⟩
  · exact ⟨rest, ⟨_, .refl _, .inr rfl⟩, hrest⟩
  · exact ⟨_, ⟨_, shortens_dropDirectories pattern, .inl rfl⟩, hdropped⟩

/-- A pattern with at most one `**/` matches what its variants match. -/
theorem isPathMatch_of_matchesVariant {pattern path : List Char} (hone : places pattern ≤ 1)
    (h : MatchesVariant pattern path) : isPathMatch pattern path = true := by
  obtain ⟨v, ⟨q, hq, hv⟩, h⟩ := h
  unfold places at hone
  apply isPathMatch_iff.mpr
  rcases hv with rfl | rfl
  · rcases hq.eq_of_one_place (by omega) with rfl | rfl
    · exact .inl h
    · exact .inr (.inr h)
  · rw [hq.startsAnywhere, if_pos rfl] at hone
    cases hq.eq_of_no_place (by omega)
    exact .inr (.inl ⟨v, rfl, h⟩)

/-! ### Two of them between plain names -/

/-- The path or pattern `a/b`. -/
def slash (a b : List Char) : List Char := a ++ '/' :: b

/-- The pattern `a/**/b`. -/
def below (a b : List Char) : List Char := a ++ '/' :: '*' :: '*' :: '/' :: b

/-- Two `**/` stand between plain names, or the first of them leads. -/
def TwoPlaces (pattern : List Char) : Prop :=
  ∃ a b c, Plain a ∧ Plain b ∧ Plain c ∧
    (pattern = below a (below b c) ∨ pattern = '*' :: '*' :: '/' :: below b c)

/-- The path is not matched, though a variant of the pattern matches it. -/
def Misses (pattern path : List Char) : Prop :=
  MatchesVariant pattern path ∧ isPathMatch pattern path = false

@[simp] theorem length_slash (a b : List Char) : (slash a b).length = a.length + b.length + 1 := by
  simp [slash]
  omega

theorem dropDirectories_plain (h : Plain s) (hp : p.head? ≠ some '*') :
    dropDirectories 0 (s ++ p) = s ++ dropDirectories 0 p := by
  induction s with
  | nil => rfl
  | cons x rest ih =>
    have hrest : Plain rest := fun y hy => h y (List.mem_cons_of_mem x hy)
    have hstar : (rest ++ p).head? ≠ some '*' := by
      cases rest with
      | nil => exact hp
      | cons y more => simpa using (hrest y List.mem_cons_self).1
    have hkeep : startsPlace (x :: (rest ++ p)) = false := by
      apply Bool.eq_false_iff.mpr
      intro hplace
      obtain ⟨more, hmore⟩ := startsPlace_iff.mp hplace
      rw [(List.cons.inj hmore).2] at hstar
      exact hstar rfl
    rw [List.cons_append, dropDirectories_keep hkeep, ih hrest, List.cons_append]

theorem dropDirectories_below (h : Plain a) (p : List Char) :
    dropDirectories 0 (below a p) = slash a (dropDirectories 0 p) := by
  rw [below, dropDirectories_plain h (by simp)]
  rfl

theorem dropDirectories_of_plain (h : Plain s) : dropDirectories 0 s = s := by
  have hs := dropDirectories_plain (p := []) h (by simp)
  rwa [List.append_nil, dropDirectories, List.append_nil] at hs

theorem shortens_below (a : List Char) (h : Shortens p q) : Shortens (below a p) (slash a q) :=
  Shortens.append_left a (.drop (.keep '/' h))

theorem Plain.slash (ha : Plain a) (hb : Plain b) : Plain (Glob.slash a b) := by
  intro y hy
  rcases List.mem_append.mp hy with hy | hy
  · exact ha y hy
  · rcases List.mem_cons.mp hy with rfl | hy
    · decide
    · exact hb y hy

theorem parts_below (h : Plain a) (p : List Char) :
    parts (below a p) =
      a.map .only ++ .only '/' :: .anyText :: .anyText :: .only '/' :: parts p := by
  rw [below, parts_plain h]
  rfl

theorem below_ne_anywhere (h : Plain a) (p rest : List Char) : below a p ≠ '*' :: rest := by
  intro heq
  cases a with
  | nil => exact absurd (List.cons.inj heq).1 (by decide)
  | cons y more => exact (h y List.mem_cons_self).1 (List.cons.inj heq).1

theorem matches_slash (h : Plain a) (hp : Matches (parts p) s) :
    Matches (parts (slash a p)) (slash a s) := by
  have hparts : parts (slash a p) = a.map .only ++ .only '/' :: parts p := by
    rw [slash, parts_plain h]
    rfl
  rw [hparts]
  exact matches_plain_iff.mpr ⟨_, rfl, .one (by simp) rfl hp⟩

theorem matches_below (h : Plain a) (hp : Matches (parts p) s) (taken : List Char) :
    Matches (parts (below a p)) (slash a (slash taken s)) := by
  rw [parts_below h]
  exact matches_plain_iff.mpr
    ⟨_, rfl, .one (by simp) rfl (.anyText taken (.anyText [] (.one (by simp) rfl hp)))⟩

theorem singles_below (h : Plain a) (p : List Char) :
    singles (parts (below a p)) = (a ++ ['/', '/']).map .only ++ singles (parts p) := by
  have hslash : ∀ ps, singles (.only '/' :: ps) = .only '/' :: singles ps :=
    singles_one (by simp)
  rw [parts_below h, singles_plain, hslash, singles_anyText, singles_anyText, hslash]
  simp

/-- The first `**/` has to stand for no directory and the second one for a directory. -/
theorem misses_below_below (ha : Plain a) (hb : Plain b) (hc : Plain c) (hx : x ≠ '/') :
    Misses (below a (below b c)) (slash a (slash b (slash [x] c))) := by
  have hvariant : Shortens (below a (below b c)) (slash a (below b c)) := shortens_below a (.refl _)
  refine ⟨⟨_, ⟨_, hvariant, .inl rfl⟩,
    matches_slash ha (matches_below hb ((matches_of_plain hc).mpr rfl) [x])⟩, ?_⟩
  apply Bool.eq_false_iff.mpr
  intro hmatch
  rcases isPathMatch_iff.mp hmatch with hwhole | ⟨rest, hrest, -⟩ | hdropped
  · -- The path is as short as can be, so it would be `a//b//c`.
    have hsingles : singles (parts (below a (below b c))) =
        (a ++ ['/', '/'] ++ (b ++ ['/', '/'] ++ c)).map .only := by
      simp [singles_below ha, singles_below hb, singles_of_plain hc]
    have hexact := hwhole.of_length_eq (by rw [hsingles]; simp; omega)
    rw [hsingles, matches_only_iff] at hexact
    have hmiddle : (b ++ ['/'] ++ [x]) ++ '/' :: c = ('/' :: b ++ ['/']) ++ '/' :: c := by
      simpa [slash] using hexact
    have hlast := (List.append_inj' (List.append_cancel_right hmiddle) rfl).2
    exact hx (List.cons.inj hlast).1
  · exact below_ne_anywhere ha _ _ hrest
  · rw [dropDirectories_below ha, dropDirectories_below hb, dropDirectories_of_plain hc,
      matches_of_plain (ha.slash (hb.slash hc))] at hdropped
    have hlength := congrArg List.length hdropped
    simp only [length_slash, List.length_singleton] at hlength
    omega

/-- Both have to stand for no directory. -/
theorem misses_anywhere_below (hb : Plain b) (hc : Plain c) :
    Misses ('*' :: '*' :: '/' :: below b c) (slash b c) := by
  have hvariant : Shortens ('*' :: '*' :: '/' :: below b c) ('*' :: '*' :: '/' :: slash b c) :=
    .append_left ['*', '*', '/'] (shortens_below b (.refl _))
  refine ⟨⟨_, ⟨_, hvariant, .inr rfl⟩, (matches_of_plain (hb.slash hc)).mpr rfl⟩, ?_⟩
  apply Bool.eq_false_iff.mpr
  intro hmatch
  -- None of the three patterns fits into so short a path.
  have hsingles : (singles (parts (below b c))).length = b.length + c.length + 2 := by
    simp [singles_below hb, singles_of_plain hc]
    omega
  rcases isPathMatch_iff.mp hmatch with hwhole | ⟨rest, hrest, hmatch⟩ | hdropped
  · have hlength := hwhole.length_singles_le
    have hparts : singles (parts ('*' :: '*' :: '/' :: below b c)) =
        .only '/' :: singles (parts (below b c)) := rfl
    rw [hparts, List.length_cons, hsingles, length_slash] at hlength
    omega
  · obtain rfl : below b c = rest := by simpa using hrest
    have hlength := hmatch.length_singles_le
    rw [hsingles, length_slash] at hlength
    omega
  · have hplain : Plain ('/' :: b) := Plain.slash (a := []) (by simp [Plain]) hb
    have hdrop : dropDirectories 0 ('*' :: '*' :: '/' :: below b c) =
        '*' :: '*' :: slash ('/' :: b) c := by
      rw [dropDirectories_keep rfl, dropDirectories_keep rfl]
      have hbelow := dropDirectories_below hplain c
      rw [dropDirectories_of_plain hc] at hbelow
      exact congrArg (['*', '*'] ++ ·) hbelow
    have hlength := (hdrop ▸ hdropped).length_singles_le
    have hparts : singles (parts ('*' :: '*' :: slash ('/' :: b) c)) =
        singles (parts (slash ('/' :: b) c)) := rfl
    rw [hparts, singles_of_plain (hplain.slash hc)] at hlength
    simp only [List.length_map, length_slash, List.length_cons] at hlength
    omega

/-! ### What the matcher finds -/

/-- Whatever is matched matches a variant; with at most one `**/` the converse holds too; with two
of them between plain names it fails of some path, whatever the names are. -/
theorem isPathMatch_variants (pattern : List Char) :
    (∀ path, isPathMatch pattern path = true → MatchesVariant pattern path) ∧
      (places pattern ≤ 1 → ∀ path,
        (isPathMatch pattern path = true ↔ MatchesVariant pattern path)) ∧
      (TwoPlaces pattern → ∃ path, Misses pattern path) := by
  refine ⟨fun path => matchesVariant_of_isPathMatch, fun hone path => ?_, ?_⟩
  · exact ⟨matchesVariant_of_isPathMatch, isPathMatch_of_matchesVariant hone⟩
  · rintro ⟨a, b, c, ha, hb, hc, rfl | rfl⟩
    · exact ⟨_, misses_below_below ha hb hc (x := 'x') (by decide)⟩
    · exact ⟨_, misses_anywhere_below hb hc⟩

theorem isPathMatch_variants_src :
    places "/src/**/*.jsx".toList ≤ 1 ∧
      isPathMatch "/src/**/*.jsx".toList "/src/a.jsx".toList = true ∧
      TwoPlaces "/src/**/ui/**/a.jsx".toList ∧ ∃ path, Misses "/src/**/ui/**/a.jsx".toList path := by
  have hone : places "/src/**/*.jsx".toList ≤ 1 := by decide
  have hvariant : MatchesVariant "/src/**/*.jsx".toList "/src/a.jsx".toList :=
    ⟨"/src/*.jsx".toList, ⟨_, shortens_below "/src".toList (.refl "*.jsx".toList), .inl rfl⟩,
      isMatch_iff.mp (by decide)⟩
  have htwo : TwoPlaces "/src/**/ui/**/a.jsx".toList :=
    ⟨"/src".toList, "ui".toList, "a.jsx".toList, by decide, by decide, by decide, .inl rfl⟩
  exact ⟨hone, ((isPathMatch_variants _).2.1 hone _).mpr hvariant, htwo,
    (isPathMatch_variants _).2.2 htwo⟩

/-- A file one directory deep in the first place and none in the second. -/
theorem isPathMatch_misses_components :
    let pattern := "/src/**/components/**/*.jsx".toList
    let path := "/src/x/components/y.jsx".toList
    Filter.pathOf path = path ∧
      ¬ (isPathMatch pattern path = true ↔ MatchesVariant pattern path) := by
  refine ⟨by decide +kernel, fun h => ?_⟩
  have hvariant : MatchesVariant "/src/**/components/**/*.jsx".toList
      "/src/x/components/y.jsx".toList :=
    ⟨"/src/**/components/*.jsx".toList,
      ⟨_, .append_left "/src/**".toList
        (shortens_below "/components".toList (.refl "*.jsx".toList)), .inl rfl⟩,
      isMatch_iff.mp (by decide +kernel)⟩
  exact absurd (h.mpr hvariant) (by decide +kernel)

end PropShear.Glob
