import PropShear.Proofs.Options.Configuration

/-! Blank options and absent ones.

Without the blank entries, a key that had a blank value is absent (`lookup_given`). For the modules
and for most values this makes no difference. It does in two places: an empty text is a pattern of
its own before it is blank (`patterns_of_blank`), and a blank value of the first spelling of
`sourceMap` stands in the way of the second one unless it is none (`HidesAlias`). -/
namespace PropShear

/-! ### The entries that are given -/

namespace Value

/-- The entries whose value is not blank. -/
def given (entries : List (Value × Value)) : List (Value × Value) :=
  entries.filter fun entry => !entry.2.isBlank

/-- Every key is a text, and no key is there twice. -/
structure HasTextKeys (entries : List (Value × Value)) : Prop where
  isText : ∀ entry ∈ entries, ∃ t, entry.1 = .text t
  distinct : (entries.map (·.1)).Nodup

/-- The value, or none in place of a blank one. -/
def orNone (v : Value) : Value := if v.isBlank then none else v

variable {entries : List (Value × Value)} {key : String} {v : Value}

theorem HasTextKeys.given (h : HasTextKeys entries) : HasTextKeys (given entries) where
  isText := fun entry hentry => h.isText entry (List.mem_filter.mp hentry).1
  distinct := h.distinct.sublist (List.filter_sublist.map _)

theorem HasTextKeys.comparable (h : HasTextKeys entries) : Comparable (entries.map (·.1)) := by
  refine List.pairwise_of_forall_mem_list fun a ha b hb => ?_
  obtain ⟨entry, hentry, rfl⟩ := List.mem_map.mp ha
  obtain ⟨other, hother, rfl⟩ := List.mem_map.mp hb
  obtain ⟨t, ht⟩ := h.isText entry hentry
  obtain ⟨u, hu⟩ := h.isText other hother
  exact .inl ⟨t, u, ht, hu⟩

theorem items?_of_blank (h : v.isBlank = true) : v.items?.getD [] = [] := by
  cases v with
  | list items => exact List.isEmpty_iff.mp h
  | tuple items => exact List.isEmpty_iff.mp h
  | _ => rfl

theorem isBlank_orNone (v : Value) : v.orNone.isBlank = v.isBlank := by
  unfold orNone
  split
  · next hblank => rw [hblank]; rfl
  · rfl

theorem orNone_eq_none : v.orNone = none ↔ v.isBlank = true := by
  unfold orNone
  constructor
  · intro h
    apply Decidable.byContradiction
    intro hblank
    rw [if_neg hblank] at h
    exact hblank (h ▸ rfl)
  · exact fun hblank => if_pos hblank

theorem lookup_eq_none (h : text key ∉ entries.map (·.1)) : lookup entries key = Option.none := by
  induction entries with
  | nil => rfl
  | cons entry rest ih =>
    rw [List.map_cons, List.mem_cons, not_or] at h
    obtain ⟨k, v⟩ := entry
    rw [lookup_cons_ne v rest (Ne.symm h.1), ih h.2]

theorem given_cons_blank (h : v.isBlank = true) (k : Value) (rest : List (Value × Value)) :
    given ((k, v) :: rest) = given rest := List.filter_cons_of_neg (by simp [h])

theorem given_cons (h : v.isBlank = false) (k : Value) (rest : List (Value × Value)) :
    given ((k, v) :: rest) = (k, v) :: given rest := List.filter_cons_of_pos (by simp [h])

/-- A key with a blank value is absent afterwards, and all others are there as before. -/
theorem lookup_given (h : (entries.map (·.1)).Nodup) :
    lookup (given entries) key = (lookup entries key).filter fun v => !v.isBlank := by
  induction entries with
  | nil => rfl
  | cons entry rest ih =>
    obtain ⟨k, v⟩ := entry
    obtain ⟨hother, hrest⟩ := List.nodup_cons.mp h
    by_cases hk : k = text key
    · subst hk
      rw [lookup_cons_self, Option.filter]
      cases hblank : v.isBlank with
      | true => rw [given_cons_blank hblank, ih hrest, lookup_eq_none hother]; rfl
      | false => rw [given_cons hblank, lookup_cons_self]; rfl
    · rw [lookup_cons_ne v rest hk, ← ih hrest]
      cases hblank : v.isBlank with
      | true => rw [given_cons_blank hblank]
      | false => rw [given_cons hblank, lookup_cons_ne v _ hk]

end Value

theorem Options.violations_given {entries : List (Value × Value)}
    (h : violations (.map entries) = []) : violations (.map (Value.given entries)) = [] := by
  have hnone := List.filterMap_eq_nil_iff.mp h
  exact List.filterMap_eq_nil_iff.mpr fun entry hentry => hnone entry (List.mem_filter.mp hentry).1

/-! ### Settings -/

namespace Settings

open Options

/-- The value of an option, none if it is absent. -/
def option (entries : List (Value × Value)) (key : String) : Value :=
  (Value.lookup entries key).getD .none

/-- The modules that are asked for. -/
def extraModules (v : Value) : List Specifier :=
  (v.items?.getD []).filterMap fun
    | .text s => some (Specifier.ofText s)
    | _ => none

/-- The settings that valid options stand for. -/
def chosen (entries : List (Value × Value)) : Settings where
  included := (patterns (option entries "include") defaultInclude).filterMap pattern?
  excluded := (patterns (option entries "exclude") defaultExclude).filterMap pattern?
  modules := (defaultModules ++ extraModules (option entries "imports")).eraseDups
  sourceMap := wantsMap entries

variable {entries : List (Value × Value)} {key : String} {v : Value}

theorem ofOptions_eq (h : violations (.map entries) = []) (name : String) :
    ofOptions (.map entries) name =
      (unknownKeys name entries).map fun warnings => (chosen entries, warnings) := by
  unfold ofOptions
  dsimp only
  rw [h]
  cases unknownKeys name entries with
  | error e => rfl
  | ok warnings => rfl

theorem ofOptions_chosen (hkeys : Value.HasTextKeys entries) (h : violations (.map entries) = [])
    (name : String) : (ofOptions (.map entries) name).map Prod.fst = .ok (chosen entries) := by
  obtain ⟨made, hmade⟩ := ofOptions_valid (comparable_unknown hkeys.comparable) h name
  rw [ofOptions_eq h] at hmade ⊢
  cases hwarnings : unknownKeys name entries with
  | error e =>
    rw [hwarnings] at hmade
    cases hmade
  | ok warnings => rfl

theorem option_given (h : (entries.map (·.1)).Nodup) (key : String) :
    option (Value.given entries) key = (option entries key).orNone := by
  unfold option
  rw [Value.lookup_given h]
  cases Value.lookup entries key with
  | none => rfl
  | some v =>
    rw [Option.filter, Option.getD_some, Value.orNone]
    cases v.isBlank with
    | true => rfl
    | false => rfl

theorem eq_of_blank_pattern (h : v.isBlank = true) (hpattern : isPattern v = true) :
    v = .text "" := by
  cases v with
  | text s => exact congrArg Value.text (String.isEmpty_iff.mp h)
  | regex r => cases h
  | _ => cases hpattern

/-- A blank value has no patterns, but an empty text is one. -/
theorem patterns_of_blank (h : v.isBlank = true) (hne : v ≠ .text "") (fallback : List Value) :
    patterns v fallback = fallback := by
  have hitems := Value.items?_of_blank h
  rw [patterns, if_neg fun hpattern => hne (eq_of_blank_pattern h hpattern)]
  cases hfound : v.items? with
  | none => rfl
  | some items =>
    rw [hfound, Option.getD_some] at hitems
    rw [hitems]

theorem patternsOf_given {fallback : List Value}
    (hfallback : fallback.filterMap pattern? ≠ [.glob ""]) (v : Value) :
    (patterns v fallback).filterMap pattern? = (patterns v.orNone fallback).filterMap pattern? ↔
      v ≠ .text "" := by
  by_cases hblank : v.isBlank = true
  · rw [Value.orNone, if_pos hblank]
    by_cases hempty : v = .text ""
    · rw [hempty]
      exact iff_of_false (fun heq => hfallback heq.symm) fun hne => hne rfl
    · rw [patterns_of_blank hblank hempty]
      exact iff_of_true rfl hempty
  · rw [Value.orNone, if_neg hblank]
    refine iff_of_true rfl ?_
    rintro rfl
    exact hblank rfl

theorem extraModules_of_blank (h : v.isBlank = true) : extraModules v = [] := by
  rw [extraModules, Value.items?_of_blank h]
  rfl

theorem extraModules_orNone (v : Value) : extraModules v.orNone = extraModules v := by
  unfold Value.orNone
  split
  · next hblank => rw [extraModules_of_blank hblank]; rfl
  · rfl

/-- The second spelling counts if the first is absent or none. -/
theorem wantsMap_of_none (h : option entries "sourceMap" = .none) :
    wantsMap entries = !(option entries "source_map").isBlank := by
  unfold option at h
  unfold wantsMap
  cases hfound : Value.lookup entries "sourceMap" with
  | none => rfl
  | some v =>
    rw [hfound, Option.getD_some] at h
    rw [h]
    rfl

theorem wantsMap_of_ne (h : option entries "sourceMap" ≠ .none) :
    wantsMap entries = !(option entries "sourceMap").isBlank := by
  unfold option at h ⊢
  unfold wantsMap
  cases hfound : Value.lookup entries "sourceMap" with
  | none =>
    rw [hfound] at h
    exact absurd rfl h
  | some v =>
    rw [hfound] at h
    cases v with
    | none => exact absurd rfl h
    | _ => rfl

/-- Without blank entries, either spelling counts. -/
theorem wantsMap_given (h : (entries.map (·.1)).Nodup) : wantsMap (Value.given entries) =
    (!(option entries "sourceMap").isBlank || !(option entries "source_map").isBlank) := by
  have hgiven := option_given h
  cases hblank : (option entries "sourceMap").isBlank with
  | true =>
    have hnone : option (Value.given entries) "sourceMap" = .none := by
      rw [hgiven, Value.orNone_eq_none, hblank]
    rw [wantsMap_of_none hnone, hgiven, Value.isBlank_orNone]
    rfl
  | false =>
    have hne : option (Value.given entries) "sourceMap" ≠ .none := by
      rw [hgiven, Ne, Value.orNone_eq_none, hblank]
      exact Bool.false_ne_true
    rw [wantsMap_of_ne hne, hgiven, Value.isBlank_orNone, hblank]
    rfl

/-- A blank value of the first spelling, other than none, and source maps asked for by the second.
-/
def HidesAlias (entries : List (Value × Value)) : Prop :=
  (option entries "sourceMap").isBlank = true ∧ option entries "sourceMap" ≠ .none ∧
    (option entries "source_map").isBlank = false

theorem HidesAlias.wantsMap_eq (h : HidesAlias entries) : wantsMap entries = false := by
  rw [wantsMap_of_ne h.2.1, h.1]
  rfl

theorem wantsMap_cleared_iff : wantsMap entries =
      (!(option entries "sourceMap").isBlank || !(option entries "source_map").isBlank) ↔
    ¬ HidesAlias entries := by
  by_cases hnone : option entries "sourceMap" = .none
  · rw [wantsMap_of_none hnone, hnone]
    exact iff_of_true rfl fun hides => hides.2.1 hnone
  · rw [wantsMap_of_ne hnone]
    cases hfirst : (option entries "sourceMap").isBlank with
    | false => exact iff_of_true rfl fun hides => absurd hides.1 (by rw [hfirst]; decide)
    | true =>
      cases hsecond : (option entries "source_map").isBlank with
      | false => exact iff_of_false (by decide) fun hnot => hnot ⟨hfirst, hnone, hsecond⟩
      | true => exact iff_of_true rfl fun hides => absurd hides.2.2 (by rw [hsecond]; decide)

/-- Every option that is blank or absent has its default. -/
structure Defaulted (entries : List (Value × Value)) (s : Settings) : Prop where
  included : (option entries "include").isBlank = true →
    s.included = defaultInclude.filterMap pattern?
  excluded : (option entries "exclude").isBlank = true →
    s.excluded = defaultExclude.filterMap pattern?
  modules : (option entries "imports").isBlank = true → s.modules = defaultModules
  sourceMap : (option entries "sourceMap").isBlank = true →
    (option entries "source_map").isBlank = true → s.sourceMap = false

/-- The settings without the blank entries, in terms of all entries. -/
def cleared (entries : List (Value × Value)) : Settings where
  included := (patterns (option entries "include").orNone defaultInclude).filterMap pattern?
  excluded := (patterns (option entries "exclude").orNone defaultExclude).filterMap pattern?
  modules := (defaultModules ++ extraModules (option entries "imports")).eraseDups
  sourceMap := !(option entries "sourceMap").isBlank || !(option entries "source_map").isBlank

theorem chosen_given (h : (entries.map (·.1)).Nodup) :
    chosen (Value.given entries) = cleared entries := by
  unfold chosen cleared
  rw [option_given h, option_given h, option_given h, extraModules_orNone, wantsMap_given h]

theorem defaulted_cleared (entries : List (Value × Value)) :
    Defaulted entries (cleared entries) where
  included := by
    intro hblank
    unfold cleared
    rw [Value.orNone_eq_none.mpr hblank]
    rfl
  excluded := by
    intro hblank
    unfold cleared
    rw [Value.orNone_eq_none.mpr hblank]
    rfl
  modules := by
    intro hblank
    unfold cleared
    rw [extraModules_of_blank hblank]
    rfl
  sourceMap := by
    intro hfirst hsecond
    unfold cleared
    rw [hfirst, hsecond]
    rfl

/-- Without the blank entries, valid options give every default that is due. With them the settings
are the same, but for two things: an empty text is taken for a pattern, and a blank value of
`sourceMap` other than none hides the other spelling. -/
theorem ofOptions_given (entries : List (Value × Value)) (name : String)
    (hkeys : Value.HasTextKeys entries) (hvalid : violations (.map entries) = []) :
    ∃ settings kept, (ofOptions (.map entries) name).map Prod.fst = .ok settings ∧
      (ofOptions (.map (Value.given entries)) name).map Prod.fst = .ok kept ∧
      Defaulted entries kept ∧
      settings.modules = kept.modules ∧
      (settings.included = kept.included ↔ option entries "include" ≠ .text "") ∧
      (settings.excluded = kept.excluded ↔ option entries "exclude" ≠ .text "") ∧
      (settings.sourceMap = kept.sourceMap ↔ ¬ HidesAlias entries) ∧
      (option entries "include" = .text "" → settings.included = [.glob ""]) ∧
      (option entries "exclude" = .text "" → settings.excluded = [.glob ""]) ∧
      (HidesAlias entries → settings.sourceMap = false) := by
  have hinclude : defaultInclude.filterMap pattern? ≠ [.glob ""] := by
    simp [defaultInclude, pattern?]
  have hexclude : defaultExclude.filterMap pattern? ≠ [.glob ""] := by
    simp [defaultExclude, pattern?]
  have hkept := ofOptions_chosen hkeys.given (violations_given hvalid) name
  rw [chosen_given hkeys.distinct] at hkept
  refine ⟨chosen entries, cleared entries, ofOptions_chosen hkeys hvalid name, hkept,
    defaulted_cleared entries, rfl, patternsOf_given hinclude _, patternsOf_given hexclude _,
    wantsMap_cleared_iff, fun hempty => ?_, fun hempty => ?_, HidesAlias.wantsMap_eq⟩
  · unfold chosen
    rw [hempty]
    rfl
  · unfold chosen
    rw [hempty]
    rfl

theorem ofOptions_given_alias :
    let entries : List (Value × Value) :=
      [(.text "include", .list []), (.text "sourceMap", .bool false), (.text "source_map", .bool true)]
    Value.HasTextKeys entries ∧ violations (.map entries) = [] ∧ HidesAlias entries ∧
      ∃ settings kept, (ofOptions (.map entries) "strip").map Prod.fst = .ok settings ∧
        (ofOptions (.map (Value.given entries)) "strip").map Prod.fst = .ok kept ∧
        settings.included = kept.included ∧ settings.sourceMap ≠ kept.sourceMap := by
  intro entries
  have hkeys : Value.HasTextKeys entries := ⟨by simp [entries], by simp [entries]⟩
  have hvalid : violations (.map entries) = [] := by decide +kernel
  have hhides : HidesAlias entries := by
    refine ⟨by decide +kernel, ?_, by decide +kernel⟩
    show Value.bool false ≠ .none
    intro heq
    cases heq
  have hinclude : option entries "include" ≠ .text "" := by
    show Value.list [] ≠ .text ""
    intro heq
    cases heq
  obtain ⟨settings, kept, hsettings, hkept, -, -, hincluded, -, hmap, -⟩ :=
    ofOptions_given entries "strip" hkeys hvalid
  exact ⟨hkeys, hvalid, hhides, settings, kept, hsettings, hkept, hincluded.mpr hinclude,
    fun heq => hmap.mp heq hhides⟩

/-- An empty text for the patterns to include is blank, but does not give the default. -/
theorem ofOptions_emptyText :
    ¬ ∀ (entries : List (Value × Value)) (name : String), Value.HasTextKeys entries →
      violations (.map entries) = [] →
      (ofOptions (.map entries) name).map Prod.fst =
        (ofOptions (.map (Value.given entries)) name).map Prod.fst := by
  intro h
  have hkeys : Value.HasTextKeys [(.text "include", .text "")] := ⟨by simp, by simp⟩
  have hvalid : violations (.map [(.text "include", .text "")]) = [] := by decide +kernel
  have hsame := h _ "strip" hkeys hvalid
  rw [ofOptions_chosen hkeys hvalid,
    ofOptions_chosen hkeys.given (violations_given hvalid)] at hsame
  have hincluded : [Pattern.glob ""] = [.glob "**/*.jsx", .glob "**/*.tsx"] :=
    congrArg Settings.included (Except.ok.inj hsame)
  exact absurd (congrArg List.length hincluded) (by decide)

end Settings
end PropShear
