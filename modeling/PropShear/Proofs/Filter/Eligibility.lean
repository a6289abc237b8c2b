import PropShear.Filter
import PropShear.Proofs.Path.Collapse

/-! What the answer of a filter depends on.

Ids that hold the null character name no file and are never eligible. Of all others only the
collapsed path counts (`accepts_congr`). It is its own collapsed path (`pathOf_pathOf`), and it does
not change if text is put between two segments of the id that leads back to where it starts
(`pathOf_insert`): nothing, which doubles the slash, a dot, or a name that is left again. -/
namespace PropShear.Filter

variable {hits : List Char → Pattern → Bool} {f : Filter}
  {s t id a b middle name : List Char} {sep : Char}

/-! ### The path of an id -/

/-- A separator of segments. -/
def isSlash (c : Char) : Bool := c = '/' || c = '\\'

theorem forward_cut (h : isSlash sep = true) (a b : List Char) :
    Path.forward (a ++ sep :: b) = Path.forward a ++ '/' :: Path.forward b := by
  have hsep : (if sep = '\\' then '/' else sep) = '/' := by
    by_cases hback : sep = '\\'
    · exact if_pos hback
    · rw [if_neg hback]
      simpa [isSlash, hback] using h
  rw [Path.forward, List.map_append, List.map_cons, hsep]
  rfl

theorem forward_of_not_mem (h : '\\' ∉ s) : Path.forward s = s := by
  have hsame : ∀ c ∈ s, (if c = '\\' then '/' else c) = c := by
    intro c hc
    exact if_neg (fun heq : c = '\\' => h (heq ▸ hc))
  exact (List.map_congr_left hsame).trans (List.map_id' s)

theorem mem_forward {c : Char} (h : c ∈ Path.forward s) : c ≠ '\\' ∧ (c = '/' ∨ c ∈ s) := by
  obtain ⟨d, hd, rfl⟩ := List.mem_map.mp h
  by_cases hback : d = '\\'
  · rw [if_pos hback]
    exact ⟨by decide, .inl rfl⟩
  · rw [if_neg hback]
    exact ⟨hback, .inr hd⟩

/-- The path holds no characters that the id does not hold, slashes and dots apart, and no
backslash. -/
theorem mem_pathOf {c : Char} (h : c ∈ pathOf id) : c ≠ '\\' ∧ (c = '/' ∨ c = '.' ∨ c ∈ id) := by
  rcases Path.mem_collapseText h with rfl | rfl | hforward
  · exact ⟨by decide, .inl rfl⟩
  · exact ⟨by decide, .inr (.inl rfl)⟩
  · obtain ⟨hback, rfl | hmem⟩ := mem_forward hforward
    · exact ⟨hback, .inl rfl⟩
    · exact ⟨hback, .inr (.inr hmem)⟩

theorem pathOf_pathOf (id : List Char) : pathOf (pathOf id) = pathOf id := by
  have hforward : Path.forward (pathOf id) = pathOf id :=
    forward_of_not_mem fun hmem => (mem_pathOf hmem).1 rfl
  calc pathOf (pathOf id) = Path.collapseText (pathOf id) := by rw [pathOf, hforward]
    _ = pathOf id := Path.collapseText_collapseText _

theorem pathOf_eq_nil : pathOf id = [] ↔ id = [] := by
  constructor
  · intro hnil
    apply Decidable.byContradiction
    intro hid
    have hforward : Path.forward id ≠ [] := fun h => hid (List.map_eq_nil_iff.mp h)
    exact Path.collapseText_ne_nil hforward hnil
  · rintro rfl
    rfl

/-! ### Other spellings -/

/-- A name that is neither blank nor made of dots that have a meaning. -/
structure Ordinary (name : List Char) : Prop where
  isName : Path.isName name = true
  ne_up : name ≠ ['.', '.']
  plain : ∀ c ∈ name, isSlash c = false ∧ c ≠ Char.ofNat 0

/-- Text that leads back to where it starts: nothing, a dot, or a name that is left again. -/
inductive Idle : List Char → Prop
  | nothing : Idle []
  | dot : Idle ['.']
  | detour {name : List Char} {sep : Char} (hname : Ordinary name) (hsep : isSlash sep = true) :
    Idle (name ++ sep :: ['.', '.'])

/-- The second id has idle text, and a slash after it, behind a slash of the first one that is not
leading. -/
inductive Inserts : List Char → List Char → Prop
  | after {a middle : List Char} {sep sep' : Char} (b : List Char)
      (ha : ∃ c ∈ a, isSlash c = false) (hsep : isSlash sep = true) (hsep' : isSlash sep' = true)
      (hidle : Idle middle) : Inserts (a ++ sep :: b) (a ++ sep :: (middle ++ sep' :: b))

/-- An id after any number of insertions. -/
inductive Respelled (id : List Char) : List Char → Prop
  | refl : Respelled id id
  | insert {s t : List Char} (h : Respelled id s) (hinserts : Inserts s t) : Respelled id t

theorem Ordinary.names (h : Ordinary name) : (Path.ofText (Path.forward name)).names = [name] := by
  have hplain : ∀ c ∈ name, c ≠ '/' ∧ c ≠ '\\' := by
    intro c hc
    simpa [isSlash] using (h.plain c hc).1
  rw [forward_of_not_mem fun hmem => (hplain _ hmem).2 rfl, Path.ofText,
    Text.pieces_of_not_mem fun hmem => (hplain _ hmem).1 rfl]
  exact List.filter_cons_of_pos h.isName

theorem Idle.foldl (h : Idle middle) (rooted : Bool) (front : List (List Char)) :
    (Path.ofText (Path.forward middle)).names.foldl (Path.addName rooted) front = front := by
  cases h with
  | nothing => rfl
  | dot => rfl
  | @detour name sep hname hsep =>
    rw [forward_cut hsep, Path.names_cut, hname.names]
    show Path.addName rooted (Path.addName rooted front name) ['.', '.'] = front
    rw [Path.addName_step hname.ne_up, Path.addName_back hname.ne_up]

theorem pathOf_insert (h : Inserts s t) : pathOf t = pathOf s := by
  obtain ⟨b, ha, hsep, hsep', hidle⟩ := h
  have hfront : ∀ {a : List Char}, (∃ c ∈ a, isSlash c = false) →
      ∃ c ∈ Path.forward a, c ≠ '/' := by
    rintro a ⟨c, hc, hslash⟩
    have hplain : c ≠ '/' ∧ c ≠ '\\' := by simpa [isSlash] using hslash
    exact ⟨c, List.mem_map.mpr ⟨c, hc, if_neg hplain.2⟩, hplain.1⟩
  unfold pathOf
  rw [forward_cut hsep, forward_cut hsep', forward_cut hsep]
  exact Path.collapseText_between (hfront ha) _ hidle.foldl

theorem isSlash_null : isSlash (Char.ofNat 0) = false := by decide

theorem Idle.null_not_mem (h : Idle middle) : Char.ofNat 0 ∉ middle := by
  cases h with
  | nothing => exact List.not_mem_nil
  | dot => decide
  | @detour name sep hname hsep =>
    intro hmem
    rcases List.mem_append.mp hmem with hmem | hmem
    · exact (hname.plain _ hmem).2 rfl
    · rcases List.mem_cons.mp hmem with rfl | hmem
      · rw [isSlash_null] at hsep
        cases hsep
      · exact absurd hmem (by decide)

theorem null_mem_insert (h : Inserts s t) : Char.ofNat 0 ∈ t ↔ Char.ofNat 0 ∈ s := by
  obtain ⟨b, ha, hsep, hsep', hidle⟩ := h
  have hslash : ∀ {c : Char}, isSlash c = true → Char.ofNat 0 ≠ c := by
    rintro c hc rfl
    rw [isSlash_null] at hc
    cases hc
  simp only [List.mem_append, List.mem_cons, hslash hsep, hslash hsep', hidle.null_not_mem,
    false_or]

/-! ### Eligibility -/

/-- Two ids with one path get one answer, if both hold the null character or neither does. -/
theorem accepts_congr (hpath : pathOf s = pathOf t)
    (hnull : Char.ofNat 0 ∈ s ↔ Char.ofNat 0 ∈ t) : f.accepts hits s = f.accepts hits t := by
  have hempty : s.isEmpty = t.isEmpty := by
    rw [Bool.eq_iff_iff, List.isEmpty_iff, List.isEmpty_iff, ← pathOf_eq_nil, hpath, pathOf_eq_nil]
  have hcontains : s.contains (Char.ofNat 0) = t.contains (Char.ofNat 0) := by
    rw [Bool.eq_iff_iff, List.contains_iff_mem, List.contains_iff_mem, hnull]
  unfold accepts
  rw [hempty, hcontains, hpath]

theorem accepts_of_null (h : Char.ofNat 0 ∈ id) : f.accepts hits id = false := by
  unfold accepts
  rw [if_pos]
  rw [List.contains_iff_mem.mpr h, Bool.or_true]

theorem accepts_of_respelled (h : Respelled id s) : f.accepts hits s = f.accepts hits id := by
  induction h with
  | refl => rfl
  | insert _ hinserts ih =>
    exact (accepts_congr (pathOf_insert hinserts) (null_mem_insert hinserts)).trans ih

/-- However patterns are matched, an id without the null character is accepted exactly if its
collapsed path is, which is its own collapsed path; an id that holds it never is. Idle text makes no
difference. -/
theorem accepts_collapsed (hits : List Char → Pattern → Bool) (f : Filter) (id : List Char) :
    pathOf (pathOf id) = pathOf id ∧
      f.accepts hits id = (!id.contains (Char.ofNat 0) && f.accepts hits (pathOf id)) ∧
      ∀ spelled, Respelled id spelled → f.accepts hits spelled = f.accepts hits id := by
  refine ⟨pathOf_pathOf id, ?_, fun spelled => accepts_of_respelled⟩
  by_cases hnull : Char.ofNat 0 ∈ id
  · rw [accepts_of_null hnull, List.contains_iff_mem.mpr hnull]
    rfl
  · have hpath : Char.ofNat 0 ∉ pathOf id := by
      intro hmem
      rcases (mem_pathOf hmem).2 with hslash | hdot | hmem
      · exact absurd hslash (by decide)
      · exact absurd hdot (by decide)
      · exact hnull hmem
    have hcontains : id.contains (Char.ofNat 0) = false :=
      Bool.eq_false_iff.mpr fun h => hnull (List.contains_iff_mem.mp h)
    rw [hcontains, accepts_congr (pathOf_pathOf id).symm (iff_of_false hnull hpath)]
    rfl

theorem accepts_collapsed_detour :
    Respelled "src/a.jsx".toList "src//lib\\.././a.jsx".toList ∧
      isEligible ⟨[.glob "src/*.jsx"], []⟩ "src//lib\\.././a.jsx".toList =
        isEligible ⟨[.glob "src/*.jsx"], []⟩ "src/a.jsx".toList ∧
      isEligible ⟨[.glob "src/*.jsx"], []⟩ "src/a.jsx".toList = true := by
  have hfront : ∃ c ∈ "src".toList, isSlash c = false := ⟨'s', by decide, rfl⟩
  have hordinary : Ordinary "lib".toList := ⟨by decide, by decide, by simp [isSlash]⟩
  have hdot : Inserts "src/a.jsx".toList "src/./a.jsx".toList :=
    @Inserts.after "src".toList ['.'] '/' '/' "a.jsx".toList hfront rfl rfl .dot
  have hdetour : Inserts "src/./a.jsx".toList "src/lib\\.././a.jsx".toList :=
    @Inserts.after "src".toList _ '/' '/' "./a.jsx".toList hfront rfl rfl
      (@Idle.detour "lib".toList '\\' hordinary rfl)
  have hdouble : Inserts "src/lib\\.././a.jsx".toList "src//lib\\.././a.jsx".toList :=
    @Inserts.after "src".toList [] '/' '/' "lib\\.././a.jsx".toList hfront rfl rfl .nothing
  have hspelled := ((Respelled.refl.insert hdot).insert hdetour).insert hdouble
  exact ⟨hspelled, (accepts_collapsed matchesPath _ _).2.2 _ hspelled, by decide +kernel⟩

/-- Collapsing takes the null character out of the id of no file, and leaves a path that is
eligible. -/
theorem isEligible_changes :
    ¬ ∀ (f : Filter) (id : List Char), f.isEligible id = f.isEligible (pathOf id) := by
  intro h
  have hsame := h ⟨[.glob "*.jsx"], []⟩ (Char.ofNat 0 :: "/../a.jsx".toList)
  exact absurd hsame (by decide +kernel)

end PropShear.Filter
