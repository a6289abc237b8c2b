import PropShear.Proofs.Disk.Outline
import PropShear.Proofs.Except

/-! What the search of a directory finds.

In a tree of files every entry lies in a directory (`IsTree`), so the directories on the way to a
file are there. The search therefore finds every source file that no skipped or closed directory
hides (`mem_sourcesBelow`), and it finds them in an order that is told by their names
(`pairwise_sourcesBelow`): files before subdirectories, both sorted. The order is strict, so the
list is determined by what is in it (`IsListing.eq`). -/
namespace PropShear.Disk

/-! ### Trees -/

/-- Every entry has a location of its own, lies in a directory, and is neither called `..` nor by a
name that is too long. -/
structure IsTree (d : Disk) : Prop where
  distinct : (d.entries.map Prod.fst).Nodup
  housed : ∀ entry ∈ d.entries, entry.1 ≠ [] ∧ d.get? entry.1.dropLast = some .directory
  named : ∀ entry ∈ d.entries, ∀ name ∈ entry.1,
    name ≠ ['.', '.'] ∧ Text.byteLength name ≤ 255

instance (d : Disk) : Decidable d.IsTree :=
  decidable_of_iff ((d.entries.map Prod.fst).Nodup ∧
      (∀ entry ∈ d.entries, entry.1 ≠ [] ∧ d.get? entry.1.dropLast = some .directory) ∧
      ∀ entry ∈ d.entries, ∀ name ∈ entry.1, name ≠ ['.', '.'] ∧ Text.byteLength name ≤ 255)
    ⟨fun ⟨distinct, housed, named⟩ => ⟨distinct, housed, named⟩,
      fun ⟨distinct, housed, named⟩ => ⟨distinct, housed, named⟩⟩

/-- No directory is closed that the names lead through from a location. -/
def OpenAlong (d : Disk) (l : Location) (names : List (List Char)) : Prop :=
  ∀ front rest, names = front ++ rest → rest ≠ [] → d.isClosed (l ++ front) = false

theorem openAlong_cons {d : Disk} {l : Location} {name : List Char} {rest : List (List Char)} :
    d.OpenAlong l (name :: rest) ↔ d.isClosed l = false ∧ d.OpenAlong (l ++ [name]) rest := by
  constructor
  · intro h
    constructor
    · rw [← List.append_nil l]
      exact h [] (name :: rest) rfl (List.cons_ne_nil name rest)
    · rintro front more rfl hmore
      rw [← List.append_cons]
      exact h (name :: front) more rfl hmore
  · rintro ⟨hl, hrest⟩ front more heq hmore
    cases front with
    | nil => rwa [List.append_nil]
    | cons first others =>
      cases heq
      rw [List.append_cons]
      exact hrest others more rfl hmore

theorem mem_of_lookup {entries : List (Location × Entry)} {k : Location} {e : Entry}
    (h : entries.lookup k = some e) : (k, e) ∈ entries := by
  induction entries with
  | nil => cases h
  | cons entry rest ih =>
    rw [lookup_cons_eq] at h
    by_cases hk : k = entry.1
    · rw [if_pos hk] at h
      cases h
      exact hk ▸ List.mem_cons_self
    · rw [if_neg hk] at h
      exact List.mem_cons_of_mem _ (ih h)

theorem lookup_of_mem {entries : List (Location × Entry)} {k : Location} {e : Entry}
    (hdistinct : (entries.map Prod.fst).Nodup) (h : (k, e) ∈ entries) :
    entries.lookup k = some e := by
  induction entries with
  | nil => cases h
  | cons entry rest ih =>
    rw [List.map_cons, List.nodup_cons] at hdistinct
    rw [lookup_cons_eq]
    rcases List.mem_cons.mp h with rfl | hmem
    · rw [if_pos rfl]
    · have hk : k ≠ entry.1 := by
        intro heq
        exact hdistinct.1 (heq ▸ List.mem_map_of_mem hmem)
      rw [if_neg hk, ih hdistinct.2 hmem]

namespace IsTree
variable {d : Disk} (ht : d.IsTree)
include ht

theorem mem_entries_iff {k : Location} {e : Entry} :
    (k, e) ∈ d.entries ↔ k ≠ [] ∧ d.get? k = some e := by
  unfold get?
  constructor
  · intro h
    have hne := (ht.housed _ h).1
    rw [if_neg (by simpa using hne)]
    exact ⟨hne, lookup_of_mem ht.distinct h⟩
  · rintro ⟨hne, h⟩
    rw [if_neg (by simpa using hne)] at h
    exact mem_of_lookup h

/-- What has an entry below it is a directory. -/
theorem directory_above {l rest : Location} {e : Entry} (hrest : rest ≠ [])
    (h : d.get? (l ++ rest) = some e) : d.get? l = some .directory := by
  have hstep : ∀ {l : Location} {name : List Char} {e : Entry}, d.get? (l ++ [name]) = some e →
      d.get? l = some .directory := by
    intro l name e h
    have hmem := ht.mem_entries_iff.mpr ⟨by simp, h⟩
    have hparent := (ht.housed _ hmem).2
    rwa [List.dropLast_concat] at hparent
  induction rest generalizing l with
  | nil => exact absurd rfl hrest
  | cons name more ih =>
    by_cases hmore : more = []
    · subst hmore
      exact hstep h
    · rw [List.append_cons] at h
      exact hstep (ih hmore h)

/-- The names below a location lead from it to an entry, if the directories on the way are open. -/
theorem follow_below {l names : Location} {e : Entry} (hopen : d.OpenAlong l names)
    (h : d.get? (l ++ names) = some e) : d.follow l names = .ok (l ++ names) := by
  induction names generalizing l with
  | nil => rw [follow, List.append_nil]
  | cons name rest ih =>
    have hmem := ht.mem_entries_iff.mpr ⟨by simp, h⟩
    obtain ⟨hup, hlength⟩ := ht.named _ hmem name (by simp)
    have hl := ht.directory_above (List.cons_ne_nil name rest) h
    rw [openAlong_cons] at hopen
    rw [List.append_cons] at h ⊢
    refine follow_cons_eq_ok.mpr ⟨obstacle?_eq_none.mpr ⟨hl, hopen.1, hlength⟩, ?_⟩
    rw [step, if_neg hup]
    exact ih hopen.2 h

end IsTree

/-! ### Names in a directory -/

theorem mem_filesIn {d : Disk} {l : Location} {name : List Char} :
    name ∈ d.filesIn l ↔
      d.isClosed l = false ∧ ∃ bytes, (l ++ [name], .file bytes) ∈ d.entries := by
  rw [filesIn, List.mem_filterMap]
  constructor
  · rintro ⟨⟨k, e⟩, hmem, hname⟩
    rw [mem_listed] at hmem
    cases e with
    | file bytes => exact ⟨hmem.1, bytes, nameIn?_eq_some.mp hname ▸ hmem.2⟩
    | directory => cases hname
  · rintro ⟨hopen, bytes, hmem⟩
    exact ⟨_, mem_listed.mpr ⟨hopen, hmem⟩, nameIn?_eq_some.mpr rfl⟩

/-- Names that belong to different locations in one directory differ. -/
theorem nodup_filterMap {entries : List (Location × Entry)} {l : Location}
    {f : Location × Entry → Option (List Char)} (hdistinct : (entries.map Prod.fst).Nodup)
    (hf : ∀ entry name, f entry = some name → entry.1 = l ++ [name]) :
    (entries.filterMap f).Nodup := by
  rw [List.nodup_iff_pairwise_ne, List.pairwise_map] at hdistinct
  rw [List.nodup_iff_pairwise_ne, List.pairwise_filterMap]
  apply hdistinct.imp
  intro a b hne name hname other hother heq
  apply hne
  rw [hf a name hname, hf b other hother, heq]

theorem IsTree.distinct_listed {d : Disk} (ht : d.IsTree) (l : Location) :
    ((d.listed l).map Prod.fst).Nodup := by
  unfold listed
  cases d.isClosed l with
  | true => exact List.nodup_nil
  | false => exact ht.distinct

theorem IsTree.nodup_filesIn {d : Disk} (ht : d.IsTree) (l : Location) : (d.filesIn l).Nodup := by
  apply nodup_filterMap (ht.distinct_listed l)
  rintro ⟨k, e⟩ name hname
  cases e with
  | file bytes => exact nameIn?_eq_some.mp hname
  | directory => cases hname

theorem IsTree.nodup_directoriesIn {d : Disk} (ht : d.IsTree) (l : Location) :
    (d.directoriesIn l).Nodup := by
  apply nodup_filterMap (ht.distinct_listed l)
  rintro ⟨k, e⟩ name hname
  cases e with
  | file bytes => cases hname
  | directory => exact nameIn?_eq_some.mp hname

theorem pairwise_inOrder {names : List (List Char)} (h : names.Nodup) :
    (inOrder names).Pairwise (List.Lex (· < ·)) := by
  have hnodup : (inOrder names).Nodup := (List.mergeSort_perm names _).nodup_iff.mpr h
  have hsorted : (inOrder names).Pairwise fun a b => (!b.lex a) = true := by
    apply List.pairwise_mergeSort
    · intro a b c
      simp only [Bool.not_eq_true', List.lex_eq_false_iff_ge]
      exact List.le_trans
    · intro a b
      simp only [Bool.or_eq_true, Bool.not_eq_true', List.lex_eq_false_iff_ge]
      exact List.le_total a b
  apply (hsorted.and hnodup).imp
  rintro a b ⟨hle, hne⟩
  rw [Bool.not_eq_true', List.lex_eq_false_iff_ge] at hle
  exact Classical.byContradiction fun hnot => hne (List.le_antisymm hle (List.not_lt.mp hnot))

/-- There is one way to put names in order. -/
theorem inOrder_eq {names sorted : List (List Char)} (hperm : names.Perm sorted)
    (hsorted : sorted.Pairwise (List.Lex (· < ·))) : inOrder names = sorted := by
  have hdistinct : sorted.Nodup := by
    apply hsorted.imp
    intro a b hab heq
    subst heq
    exact List.lt_irrefl a hab
  apply List.Perm.eq_of_pairwise _ (pairwise_inOrder (hperm.nodup_iff.mpr hdistinct)) hsorted
  · exact (List.mergeSort_perm names _).trans hperm
  · intro a b _ _ hab hba
    exact absurd hba (List.lt_asymm hab)

/-! ### What is found -/

/-- The names lead from a location to a file with a name of a source file, through no directory that
is closed or has a name that is skipped. -/
structure FindsSource (d : Disk) (l : Location) (names : List (List Char)) : Prop where
  file : ∃ bytes, d.get? (l ++ names) = some (.file bytes)
  ending : ∃ name ending, names.getLast? = some name ∧ ending ∈ sourceEndings ∧
    ending.toList <:+ name
  entered : ∀ name ∈ names.dropLast, String.ofList name ∉ skippedNames
  unlocked : d.OpenAlong l names

theorem isSourceName_iff {name : List Char} :
    isSourceName name = true ↔ ∃ ending ∈ sourceEndings, ending.toList <:+ name := by
  simp only [isSourceName, List.any_eq_true, List.isSuffixOf_iff_suffix]

theorem isSkippedName_eq_false {name : List Char} :
    isSkippedName name = false ↔ String.ofList name ∉ skippedNames := by
  rw [isSkippedName, ← Bool.not_eq_true, List.contains_iff_mem]

theorem findsSource_singleton {d : Disk} {l : Location} {name : List Char} :
    d.FindsSource l [name] ↔
      (d.isClosed l = false ∧ ∃ bytes, d.get? (l ++ [name]) = some (.file bytes)) ∧
        isSourceName name = true := by
  rw [isSourceName_iff]
  constructor
  · rintro ⟨hfile, ⟨last, ending, hlast, hending⟩, -, hopen⟩
    cases hlast
    exact ⟨⟨(openAlong_cons.mp hopen).1, hfile⟩, ending, hending⟩
  · rintro ⟨⟨hopen, hfile⟩, ending, hending⟩
    refine ⟨hfile, ⟨name, ending, rfl, hending⟩, nofun, openAlong_cons.mpr ⟨hopen, ?_⟩⟩
    intro front rest hnil hrest
    exact absurd (List.append_eq_nil_iff.mp hnil.symm).2 hrest

theorem findsSource_cons {d : Disk} {l : Location} {name : List Char} {rest : List (List Char)}
    (hrest : rest ≠ []) : d.FindsSource l (name :: rest) ↔
      d.isClosed l = false ∧ isSkippedName name = false ∧ d.FindsSource (l ++ [name]) rest := by
  have hlast : (name :: rest).getLast? = rest.getLast? := by
    obtain ⟨second, more, rfl⟩ := List.exists_cons_of_ne_nil hrest
    rw [List.getLast?_cons_cons]
  rw [isSkippedName_eq_false]
  constructor
  · rintro ⟨hfile, hending, hentered, hopen⟩
    rw [List.dropLast_cons_of_ne_nil hrest, List.forall_mem_cons] at hentered
    rw [hlast] at hending
    rw [List.append_cons] at hfile
    rw [openAlong_cons] at hopen
    exact ⟨hopen.1, hentered.1, hfile, hending, hentered.2, hopen.2⟩
  · rintro ⟨hl, hname, hfile, hending, hentered, hopen⟩
    rw [← List.append_cons] at hfile
    refine ⟨hfile, hlast ▸ hending, ?_, openAlong_cons.mpr ⟨hl, hopen⟩⟩
    rw [List.dropLast_cons_of_ne_nil hrest, List.forall_mem_cons]
    exact ⟨hname, hentered⟩

theorem nil_not_mem_sourcesBelow (d : Disk) (l : Location) : [] ∉ d.sourcesBelow l := by
  rw [sourcesBelow_eq]
  simp

/-- A search takes the first of the names and goes on with the others. -/
theorem cons_mem_sourcesBelow {d : Disk} {l : Location} {name : List Char}
    {rest : List (List Char)} : name :: rest ∈ d.sourcesBelow l ↔
      (rest = [] ∧ name ∈ d.filesIn l ∧ isSourceName name = true) ∨
        (name ∈ d.enteredIn l ∧ rest ∈ d.sourcesBelow (l ++ [name])) := by
  rw [sourcesBelow_eq, List.mem_append, List.mem_map, List.mem_flatMap]
  constructor
  · rintro (⟨file, hfile, heq⟩ | ⟨directory, hdirectory, hmem⟩)
    · cases heq
      rw [List.mem_filter, inOrder, List.mem_mergeSort] at hfile
      exact .inl ⟨rfl, hfile⟩
    · obtain ⟨found, hfound, heq⟩ := List.mem_map.mp hmem
      cases heq
      exact .inr ⟨hdirectory, hfound⟩
  · rintro (⟨rfl, hfile⟩ | ⟨hdirectory, hfound⟩)
    · refine .inl ⟨name, ?_, rfl⟩
      rwa [List.mem_filter, inOrder, List.mem_mergeSort]
    · exact .inr ⟨name, hdirectory, List.mem_map_of_mem hfound⟩

/-- All source files are found that are not hidden by a directory that is skipped or closed, and no
others. -/
theorem IsTree.mem_sourcesBelow {d : Disk} (ht : d.IsTree) {l : Location}
    {names : List (List Char)} : names ∈ d.sourcesBelow l ↔ d.FindsSource l names := by
  induction names generalizing l with
  | nil =>
    constructor
    · exact fun h => absurd h (nil_not_mem_sourcesBelow d l)
    · rintro ⟨-, ⟨name, ending, hlast, -⟩, -⟩
      cases hlast
  | cons name rest ih =>
    rw [cons_mem_sourcesBelow, ih, mem_filesIn, mem_enteredIn]
    by_cases hrest : rest = []
    · subst hrest
      have hnil : ¬ d.FindsSource (l ++ [name]) [] := by
        rw [← ih]
        exact nil_not_mem_sourcesBelow d _
      have hne : l ++ [name] ≠ [] := by simp
      simp only [findsSource_singleton, ht.mem_entries_iff, hnil, hne, ne_eq, not_false_eq_true,
        true_and, and_false, or_false]
    · rw [findsSource_cons hrest]
      constructor
      · rintro (⟨hnil, -⟩ | ⟨⟨⟨hl, -⟩, hname⟩, hfound⟩)
        · exact absurd hnil hrest
        · exact ⟨hl, hname, hfound⟩
      · rintro ⟨hl, hname, hfound⟩
        -- the first name is that of a directory, since the file lies below it
        obtain ⟨bytes, hfile⟩ := hfound.file
        have hdirectory := ht.directory_above hrest hfile
        exact .inr ⟨⟨⟨hl, ht.mem_entries_iff.mpr ⟨by simp, hdirectory⟩⟩, hname⟩, hfound⟩

/-! ### The order of what is found -/

/-- The order of the files below a directory. Its own files come first, sorted by name; then those
below its subdirectories, sorted by the name of the subdirectory and in the same order again. -/
inductive ComesBefore : List (List Char) → List (List Char) → Prop
  | files {a b : List Char} (h : List.Lex (· < ·) a b) : ComesBefore [a] [b]
  | deeper {a b : List Char} {rest : List (List Char)} (hrest : rest ≠ []) :
    ComesBefore [a] (b :: rest)
  | directories {a b : List Char} {rest more : List (List Char)} (h : List.Lex (· < ·) a b)
      (hrest : rest ≠ []) (hmore : more ≠ []) : ComesBefore (a :: rest) (b :: more)
  | inside {a : List Char} {rest more : List (List Char)} (h : ComesBefore rest more) :
    ComesBefore (a :: rest) (a :: more)

theorem ComesBefore.ne_nil {a b : List (List Char)} (h : ComesBefore a b) : a ≠ [] ∧ b ≠ [] := by
  cases h <;> exact ⟨List.cons_ne_nil _ _, List.cons_ne_nil _ _⟩

theorem ComesBefore.asymm {a b : List (List Char)} (h : ComesBefore a b) : ¬ ComesBefore b a := by
  induction h with
  | files hab =>
    intro hba
    cases hba with
    | files hba => exact List.lt_asymm hab hba
    | deeper hrest => exact hrest rfl
    | directories _ hrest _ => exact hrest rfl
    | inside hba => exact hba.ne_nil.1 rfl
  | deeper hrest =>
    intro hba
    cases hba with
    | files _ => exact hrest rfl
    | deeper hmore => exact hmore rfl
    | directories _ _ hmore => exact hmore rfl
    | inside hba => exact hba.ne_nil.2 rfl
  | directories hab hrest hmore =>
    intro hba
    cases hba with
    | files _ => exact hrest rfl
    | deeper _ => exact hmore rfl
    | directories hba _ _ => exact List.lt_asymm hab hba
    | inside _ => exact List.lt_irrefl _ hab
  | inside h ih =>
    intro hba
    cases hba with
    | files hba => exact List.lt_irrefl _ hba
    | deeper _ => exact h.ne_nil.2 rfl
    | directories hba _ _ => exact List.lt_irrefl _ hba
    | inside hba => exact ih hba

theorem ComesBefore.nodup {found : List (List (List Char))} (h : found.Pairwise ComesBefore) :
    found.Nodup := by
  rw [List.nodup_iff_pairwise_ne]
  apply h.imp
  intro a b hab heq
  subst heq
  exact hab.asymm hab

theorem IsTree.pairwise_sourcesBelow {d : Disk} (ht : d.IsTree) (l : Location) :
    (d.sourcesBelow l).Pairwise ComesBefore := by
  have hne {k : Location} {rest : List (List Char)} (h : rest ∈ d.sourcesBelow k) : rest ≠ [] := by
    intro hnil
    exact nil_not_mem_sourcesBelow d k (hnil ▸ h)
  rw [sourcesBelow_eq, List.pairwise_append, List.pairwise_map, List.pairwise_flatMap]
  refine ⟨?_, ⟨?_, ?_⟩, ?_⟩
  · exact ((pairwise_inOrder (ht.nodup_filesIn l)).filter _).imp .files
  · intro name hname
    rw [List.pairwise_map]
    exact (IsTree.pairwise_sourcesBelow ht (l ++ [name])).imp .inside
  · apply (pairwise_inOrder ((ht.nodup_directoriesIn l).filter _)).imp
    intro a b hab x hx y hy
    obtain ⟨rest, hrest, rfl⟩ := List.mem_map.mp hx
    obtain ⟨more, hmore, rfl⟩ := List.mem_map.mp hy
    exact .directories hab (hne hrest) (hne hmore)
  · intro x hx y hy
    obtain ⟨name, -, rfl⟩ := List.mem_map.mp hx
    obtain ⟨directory, -, hmem⟩ := List.mem_flatMap.mp hy
    obtain ⟨rest, hrest, rfl⟩ := List.mem_map.mp hmem
    exact .deeper (hne hrest)
termination_by d.depth - l.length
decreasing_by exact depth_sub_lt hname

/-! ### Listings -/

/-- The files that are found below a location, each once and in order. -/
structure IsListing (d : Disk) (l : Location) (found : List (List (List Char))) : Prop where
  mem_iff : ∀ names, names ∈ found ↔ d.FindsSource l names
  once : found.Nodup
  ordered : found.Pairwise ComesBefore

theorem IsListing.eq {d : Disk} {l : Location} {found found' : List (List (List Char))}
    (h : d.IsListing l found) (h' : d.IsListing l found') : found = found' := by
  apply List.Perm.eq_of_pairwise _ h.ordered h'.ordered
  · rw [List.perm_ext_iff_of_nodup h.once h'.once]
    intro names
    rw [h.mem_iff, h'.mem_iff]
  · intro a b _ _ hab hba
    exact absurd hba hab.asymm

theorem IsTree.isListing {d : Disk} (ht : d.IsTree) (l : Location) :
    d.IsListing l (d.sourcesBelow l) where
  mem_iff _ := ht.mem_sourcesBelow
  once := ComesBefore.nodup (ht.pairwise_sourcesBelow l)
  ordered := ht.pairwise_sourcesBelow l

theorem isDirectory_iff {d : Disk} {p : Path} :
    d.isDirectory p = true ↔ ∃ l, d.locate p = .ok l ∧ d.get? l = some .directory := by
  rw [isDirectory, decide_eq_true_iff, entryAt?]
  cases d.locate p with
  | error e => simp [Except.toOption]
  | ok l => simp [Except.toOption]

theorem sources_of_directory {d : Disk} {p : Path} {l : Location} (hl : d.locate p = .ok l)
    (hdirectory : d.get? l = some .directory) : d.sources p =
      ((d.sourcesBelow l).filter (isInReach p)).map fun names => p.join ⟨0, names⟩ := by
  rw [sources, hl]
  exact if_pos hdirectory

theorem sources_of_not_directory {d : Disk} {p : Path} (h : d.isDirectory p = false) :
    d.sources p = [p] := by
  rw [← Bool.not_eq_true, isDirectory_iff] at h
  rw [sources]
  cases hl : d.locate p with
  | error e => rfl
  | ok l => exact if_neg fun hdirectory => h ⟨l, hl, hdirectory⟩

/-- The files that paths stand for, one path after another: what is found below a directory and in
reach, and any other path as it is. -/
inductive Lists (d : Disk) : List Path → List Path → Prop
  | nil : Lists d [] []
  | other {p : Path} {paths found : List Path} (h : d.isDirectory p = false)
      (hrest : Lists d paths found) : Lists d (p :: paths) (p :: found)
  | directory {p : Path} {l : Location} {names : List (List (List Char))} {paths found : List Path}
      (hl : d.locate p = .ok l) (hdirectory : d.get? l = some .directory)
      (hnames : d.IsListing l names) (hrest : Lists d paths found) :
    Lists d (p :: paths) ((names.filter (isInReach p)).map (fun n => p.join ⟨0, n⟩) ++ found)

theorem IsTree.lists_iff {d : Disk} (ht : d.IsTree) {paths found : List Path} :
    d.Lists paths found ↔ found = paths.flatMap d.sources := by
  constructor
  · intro h
    induction h with
    | nil => rfl
    | other hp _ ih => rw [List.flatMap_cons, sources_of_not_directory hp, ih]; rfl
    | directory hl hdirectory hnames _ ih =>
      rw [List.flatMap_cons, sources_of_directory hl hdirectory, hnames.eq (ht.isListing _), ih]
  · rintro rfl
    induction paths with
    | nil => exact .nil
    | cons p rest ih =>
      rw [List.flatMap_cons]
      by_cases hp : d.isDirectory p = true
      · obtain ⟨l, hl, hdirectory⟩ := isDirectory_iff.mp hp
        rw [sources_of_directory hl hdirectory]
        exact .directory hl hdirectory (ht.isListing l) ih
      · rw [Bool.not_eq_true] at hp
        rw [sources_of_not_directory hp]
        exact .other hp ih

/-- A path that is found leads to the file that was found, unless its text is refused. -/
theorem IsTree.locate_found {d : Disk} (ht : d.IsTree) {p : Path} {l : Location}
    {names : List (List Char)} (hl : d.locate p = .ok l) (hfound : d.FindsSource l names)
    (hrefusal : refusal? (p.join ⟨0, names⟩).toText = none) :
    d.locate (p.join ⟨0, names⟩) = .ok (l ++ names) := by
  obtain ⟨bytes, hfile⟩ := hfound.file
  refine locate_eq_ok.mpr ⟨hrefusal, ?_⟩
  exact follow_append_eq_ok.mpr
    ⟨l, (locate_eq_ok.mp hl).2, ht.follow_below hfound.unlocked hfile⟩

theorem search_eq_ok {d : Disk} {p : Path} {found : List Path} :
    d.search p = .ok found ↔ Succeeds (d.probe p) ∧ found = d.sources p := by
  unfold search
  cases d.probe p with
  | error e => exact ⟨nofun, fun h => nomatch h.1⟩
  | ok entry =>
    constructor
    · intro h
      cases h
      exact ⟨⟨entry, rfl⟩, rfl⟩
    · rintro ⟨-, rfl⟩
      rfl

/-- Every path is looked up, and all lookups have to get an answer. -/
theorem findSources_eq_ok {d : Disk} {paths found : List Path} :
    d.findSources paths = .ok found ↔
      (∀ p ∈ paths, Succeeds (d.probe p)) ∧ found = paths.flatMap d.sources := by
  unfold findSources
  rw [List.flatMap_def]
  constructor
  · intro h
    cases hlists : paths.mapM d.search with
    | error e =>
      rw [hlists] at h
      cases h
    | ok lists =>
      rw [hlists] at h
      cases h
      obtain ⟨hprobes, rfl⟩ := (mapM_eq_ok search_eq_ok).mp hlists
      exact ⟨hprobes, rfl⟩
  · rintro ⟨hprobes, rfl⟩
    rw [(mapM_eq_ok search_eq_ok).mpr ⟨hprobes, rfl⟩]
    rfl

/-- A project with sources at two levels, and some in a directory that is skipped. -/
def project : Disk :=
  ⟨[], [(["src".toList], .directory), (["notes.md".toList], .file []),
    (["src".toList, "b.js".toList], .file []), (["src".toList, "a.tsx".toList], .file []),
    (["src".toList, "a.md".toList], .file []), (["src".toList, "dist".toList], .directory),
    (["src".toList, "dist".toList, "d.js".toList], .file []),
    (["src".toList, "lib".toList], .directory),
    (["src".toList, "lib".toList, "a.js".toList], .file [])], []⟩

end PropShear.Disk
