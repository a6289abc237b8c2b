import PropShear.Command.Basic
import PropShear.Proofs.Except

/-! Asking for source maps on the command line.

The command line sets one key on top of all other options (`merge_overrides`). Setting a key to a
value of the right type hides nothing else: other keys are looked up as before, options that were
valid stay so, and the same keys are unknown. So the settings differ in the source map only
(`ofOptions_setMap`). -/
namespace PropShear

/-! ### Setting a key -/

namespace Value

/-- Only a text is the same as a text. -/
theorem same_text {k : Value} {t : String} : same k (text t) = true ↔ k = text t := by
  cases k with
  | text s => rw [same, beq_iff_eq, text.injEq]
  | _ => simp [same, number?]

variable {t : String} {k : Value} (v w : Value) (entries : List (Value × Value))

theorem setEntry_cons_self :
    setEntry (text t) v ((text t, w) :: entries) = (text t, v) :: entries := by
  rw [setEntry, if_pos (same_text.mpr rfl)]

theorem setEntry_cons_ne (h : k ≠ text t) :
    setEntry (text t) v ((k, w) :: entries) = (k, w) :: setEntry (text t) v entries := by
  rw [setEntry, if_neg (fun hsame => h (same_text.mp hsame))]

theorem lookup_eq :
    lookup entries t = (entries.find? fun entry => same entry.1 (text t)).map (·.2) := rfl

theorem lookup_cons_self : lookup ((text t, w) :: entries) t = some w := by
  rw [lookup_eq, List.find?_cons_of_pos]
  · rfl
  · exact same_text.mpr rfl

theorem lookup_cons_ne (h : k ≠ text t) : lookup ((k, w) :: entries) t = lookup entries t := by
  rw [lookup_eq, List.find?_cons_of_neg, lookup_eq]
  exact fun hsame => h (same_text.mp hsame)

theorem lookup_setEntry_self : lookup (setEntry (text t) v entries) t = some v := by
  induction entries with
  | nil => exact lookup_cons_self v []
  | cons entry rest ih =>
    obtain ⟨k, w⟩ := entry
    by_cases hk : k = text t
    · rw [hk, setEntry_cons_self, lookup_cons_self]
    · rw [setEntry_cons_ne v w rest hk, lookup_cons_ne w _ hk, ih]

theorem lookup_setEntry_ne {name : String} (h : name ≠ t) :
    lookup (setEntry (text t) v entries) name = lookup entries name := by
  have hname : text t ≠ text name := by
    intro heq
    cases heq
    exact h rfl
  induction entries with
  | nil => exact lookup_cons_ne v [] hname
  | cons entry rest ih =>
    obtain ⟨k, w⟩ := entry
    by_cases hk : k = text t
    · rw [hk, setEntry_cons_self, lookup_cons_ne v rest hname, lookup_cons_ne w rest hname]
    · rw [setEntry_cons_ne v w rest hk]
      by_cases hkn : k = text name
      · rw [hkn, lookup_cons_self, lookup_cons_self]
      · rw [lookup_cons_ne w _ hkn, lookup_cons_ne w _ hkn, ih]

/-- Keys that fail a test which the new key passes are the same as before. -/
theorem keys_setEntry {isKnown : Value → Bool} (h : isKnown (text t) = true) :
    ((setEntry (text t) v entries).map (·.1)).filter (!isKnown ·) =
      (entries.map (·.1)).filter (!isKnown ·) := by
  induction entries with
  | nil =>
    show [text t].filter (!isKnown ·) = []
    rw [List.filter_cons, h]
    rfl
  | cons entry rest ih =>
    obtain ⟨k, w⟩ := entry
    by_cases hk : k = text t
    · rw [hk, setEntry_cons_self]
      rfl
    · rw [setEntry_cons_ne v w rest hk, List.map_cons, List.map_cons, List.filter_cons,
        List.filter_cons, ih]

end Value

/-! ### Checked options -/

theorem Options.violations_setEntry {t : String} {v : Value} {entries : List (Value × Value)}
    (hv : violation? (.text t, v) = none) (h : violations (.map entries) = []) :
    violations (.map (Value.setEntry (.text t) v entries)) = [] := by
  show (Value.setEntry (.text t) v entries).filterMap violation? = []
  change entries.filterMap violation? = [] at h
  induction entries with
  | nil =>
    rw [Value.setEntry, List.filterMap_cons, hv]
    rfl
  | cons entry rest ih =>
    obtain ⟨k, w⟩ := entry
    rw [List.filterMap_eq_nil_iff, List.forall_mem_cons] at h
    have hrest := List.filterMap_eq_nil_iff.mpr h.2
    by_cases hk : k = .text t
    · rw [hk, Value.setEntry_cons_self, List.filterMap_cons, hv, hrest]
    · rw [Value.setEntry_cons_ne v w rest hk, List.filterMap_cons, h.1, ih hrest]

/-- Settings with source maps. -/
def Settings.withMap (s : Settings) : Settings := { s with sourceMap := true }

theorem Settings.ofOptions_setMap {entries : List (Value × Value)} (name : String)
    (h : Options.violations (.map entries) = []) :
    ofOptions (.map (Value.setEntry (.text "sourceMap") (.bool true) entries)) name =
      (ofOptions (.map entries) name).map fun made => (made.1.withMap, made.2) := by
  have hset := Options.violations_setEntry (t := "sourceMap") (v := .bool true) rfl h
  have hkeys : unknownKeys name (Value.setEntry (.text "sourceMap") (.bool true) entries) =
      unknownKeys name entries := by
    unfold unknownKeys
    dsimp only
    rw [Value.keys_setEntry (.bool true) entries (by decide)]
  have hmap : wantsMap (Value.setEntry (.text "sourceMap") (.bool true) entries) = true := by
    unfold wantsMap
    rw [Value.lookup_setEntry_self]
    rfl
  have hother := fun key (hkey : key ≠ "sourceMap") =>
    Value.lookup_setEntry_ne (.bool true) entries hkey
  unfold ofOptions
  dsimp only
  rw [hset, h, hkeys, hmap, hother "imports" (by decide), hother "include" (by decide),
    hother "exclude" (by decide)]
  cases unknownKeys name entries with
  | error e => rfl
  | ok warnings => rfl

/-- Valid options only fail to become settings if unknown keys cannot be listed. -/
theorem Settings.ofOptions_error {entries : List (Value × Value)} {name : String}
    {e : Options.Error} (hvalid : Options.violations (.map entries) = [])
    (h : ofOptions (.map entries) name = .error e) : e = .unsortableKeys := by
  unfold ofOptions at h
  dsimp only at h
  rw [hvalid] at h
  cases hkeys : unknownKeys name entries with
  | ok warnings =>
    rw [hkeys] at h
    cases h
  | error e' =>
    rw [hkeys] at h
    cases h
    unfold unknownKeys at hkeys
    dsimp only at hkeys
    split at hkeys
    · cases hkeys
      rfl
    · cases hkeys

/-- A command line that asks for source maps sets one more key. -/
theorem Command.merge_overrides (files : Selection) (entries : List (Value × Value)) :
    Options.merge entries (overrides files true) =
      Value.setEntry (.text "sourceMap") (.bool true)
        (Options.merge entries (overrides files false)) := by
  obtain ⟨front, hmap, hnone⟩ : ∃ front,
      overrides files true = front ++ [(.text "sourceMap", .bool true)] ∧
      overrides files false = front ++ [(.text "sourceMap", .none)] := ⟨[_, _, _], rfl, rfl⟩
  unfold Options.merge
  dsimp only
  rw [hmap, hnone, List.filter_append, List.filter_append, List.foldl_append, List.foldl_append]
  rfl

/-! ### Strippers of the command line -/

/-- Patterns can always be anchored at a directory. -/
theorem Filter.make_directory (path : List Char) (included excluded : List Pattern) :
    ∃ filter, make (.directory path) included excluded = .ok filter := by
  have hanchor : ∀ p, Succeeds (anchorPattern (.directory path) p) := by
    intro p
    cases p with
    | regex r => exact ⟨_, rfl⟩
    | glob text =>
      unfold anchorPattern anchor
      dsimp only
      split
      · exact ⟨_, rfl⟩
      · exact ⟨_, rfl⟩
  obtain ⟨first, hfirst, -⟩ := mapM_succeeds fun p (_ : p ∈ included) => hanchor p
  obtain ⟨second, hsecond, -⟩ := mapM_succeeds fun p (_ : p ∈ excluded) => hanchor p
  refine ⟨⟨first, second⟩, ?_⟩
  rw [make, hfirst]
  show (excluded.mapM (anchorPattern (.directory path)) >>= _) = _
  rw [hsecond]
  rfl

namespace Stripper

/-- The stripper with source maps. -/
def withMap (s : Stripper) : Stripper := { s with settings := s.settings.withMap }

variable {entries : List (Value × Value)} {path : List Char}

/-- With the version of the program and a base directory, settings are all that a stripper needs. -/
theorem make_eq (path : List Char) (settings : Settings) : ∃ filter, ∀ {options warnings},
    ∀ sourceMap, Settings.ofOptions options defaultName =
      .ok ({ settings with sourceMap := sourceMap }, warnings) →
    make options (.text Command.hostVersion) defaultName (.directory path) =
      .ok (⟨defaultName, { settings with sourceMap := sourceMap }, filter⟩,
        warnings ++ [configured defaultName { settings with sourceMap := sourceMap }]) := by
  obtain ⟨filter, hfilter⟩ := Filter.make_directory path settings.included settings.excluded
  obtain ⟨version, hversion⟩ : ∃ version,
      Version.check (.text Command.hostVersion) defaultName Version.minimum = .ok version := ⟨_, rfl⟩
  refine ⟨filter, fun {options warnings} sourceMap hsettings => ?_⟩
  rw [make, hversion, hsettings]
  show (orElse SetupError.base (Filter.make (.directory path) settings.included
    settings.excluded) >>= _) = _
  rw [hfilter]
  rfl

theorem make_error {e : SetupError} (hvalid : Options.violations (.map entries) = [])
    (h : make (.map entries) (.text Command.hostVersion) defaultName (.directory path) =
      .error e) : e = .options .unsortableKeys := by
  cases hsettings : Settings.ofOptions (.map entries) defaultName with
  | ok made =>
    obtain ⟨settings, warnings⟩ := made
    obtain ⟨filter, hmake⟩ := make_eq path settings
    rw [hmake settings.sourceMap hsettings] at h
    cases h
  | error e' =>
    cases Settings.ofOptions_error hvalid hsettings
    rw [make, hsettings] at h
    cases h
    rfl

/-- Setting the key for source maps changes the stripper that is made in just that, and what is said
about it at the lowest level. -/
theorem make_setMap {s : Stripper} {notes : List Log.Record}
    (hvalid : Options.violations (.map entries) = [])
    (h : make (.map entries) (.text Command.hostVersion) defaultName (.directory path) =
      .ok (s, notes)) :
    ∃ notes', make (.map (Value.setEntry (.text "sourceMap") (.bool true) entries))
      (.text Command.hostVersion) defaultName (.directory path) = .ok (s.withMap, notes') := by
  cases hsettings : Settings.ofOptions (.map entries) defaultName with
  | error e =>
    rw [make, hsettings] at h
    cases h
  | ok made =>
    obtain ⟨settings, warnings⟩ := made
    obtain ⟨filter, hmake⟩ := make_eq path settings
    have hset := Settings.ofOptions_setMap defaultName hvalid
    rw [hsettings] at hset
    rw [hmake settings.sourceMap hsettings] at h
    cases h
    exact ⟨_, hmake true hset⟩

end Stripper

end PropShear
