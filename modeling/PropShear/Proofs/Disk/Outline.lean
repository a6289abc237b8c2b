import PropShear.Disk.Discovery

/-! A tree of files without what is in them.

The outline of a tree keeps its directories, the names of its files, and what is closed. Where a
path leads (`locate_outline`) and which files it stands for (`findSources_outline`) is decided by
the outline, so the text of a file can only be changed through the file itself (`readText_congr`).
-/
namespace PropShear

/-- The entry without what is in it. -/
def Entry.blank : Entry → Entry
  | file _ => file []
  | directory => directory

theorem Entry.blank_eq_directory {e : Entry} : e.blank = .directory ↔ e = .directory := by
  cases e with
  | file bytes => exact ⟨nofun, nofun⟩
  | directory => exact Iff.rfl

namespace Disk

/-- The tree without what is in its files. -/
def outline (d : Disk) : Disk := { d with entries := d.entries.map fun (l, e) => (l, e.blank) }

/-- A tree with files of given names and texts at its root. -/
def flat (files : List (String × String)) : Disk where
  cwd := []
  entries := files.map fun (name, text) => ([name.toList], .file (Text.Utf8.encode text.toList))

@[simp] theorem cwd_outline (d : Disk) : d.outline.cwd = d.cwd := rfl

@[simp] theorem isClosed_outline (d : Disk) (l : Location) :
    d.outline.isClosed l = d.isClosed l := rfl

theorem lookup_cons_eq (k l : Location) (e : Entry) (rest : List (Location × Entry)) :
    List.lookup k ((l, e) :: rest) = if k = l then some e else rest.lookup k := by
  by_cases h : k = l
  · rw [h, List.lookup_cons_self, if_pos rfl]
  · rw [List.lookup_cons, beq_eq_false_iff_ne.mpr h, if_neg h]

theorem lookup_blank (entries : List (Location × Entry)) (l : Location) :
    (entries.map fun (l, e) => (l, Entry.blank e)).lookup l =
      (entries.lookup l).map Entry.blank := by
  induction entries with
  | nil => rfl
  | cons entry rest ih =>
    rw [List.map_cons, lookup_cons_eq, lookup_cons_eq, ih, apply_ite (Option.map Entry.blank)]
    rfl

@[simp] theorem get?_outline (d : Disk) (l : Location) :
    d.outline.get? l = (d.get? l).map Entry.blank := by
  unfold get?
  cases l.isEmpty with
  | true => rfl
  | false => exact lookup_blank d.entries l

theorem directory_outline {d : Disk} {l : Location} :
    d.outline.get? l = some .directory ↔ d.get? l = some .directory := by
  rw [get?_outline, Option.map_eq_some_iff]
  simp only [Entry.blank_eq_directory, exists_eq_right]

/-! ### Paths -/

/-- A name can be followed from an open directory, if it is not too long. -/
theorem obstacle?_eq_none {d : Disk} {l : Location} {name : List Char} :
    d.obstacle? l name = none ↔ d.get? l = some .directory ∧ d.isClosed l = false ∧
      Text.byteLength name ≤ 255 := by
  unfold obstacle?
  rcases d.get? l with _ | bytes | _
  · simp
  · simp
  · cases d.isClosed l with
    | true => simp
    | false => simp

theorem obstacle?_outline (d : Disk) (l : Location) (name : List Char) :
    d.outline.obstacle? l name = d.obstacle? l name := by
  unfold obstacle?
  rw [get?_outline]
  rcases d.get? l with _ | bytes | _
  · rfl
  · rfl
  · rfl

theorem follow_cons_eq_ok {d : Disk} {l k : Location} {name : List Char}
    {rest : List (List Char)} :
    d.follow l (name :: rest) = .ok k ↔
      d.obstacle? l name = none ∧ d.follow (step l name) rest = .ok k := by
  rw [follow]
  cases d.obstacle? l name with
  | some t => simp
  | none => simp

theorem follow_append_eq_ok {d : Disk} {l k : Location} {front rest : List (List Char)} :
    d.follow l (front ++ rest) = .ok k ↔
      ∃ m, d.follow l front = .ok m ∧ d.follow m rest = .ok k := by
  induction front generalizing l with
  | nil =>
    constructor
    · intro h
      exact ⟨l, rfl, h⟩
    · rintro ⟨m, hm, h⟩
      cases hm
      exact h
  | cons name more ih =>
    simp only [List.cons_append, follow_cons_eq_ok, ih, and_assoc, exists_and_left]

theorem locate_eq_ok {d : Disk} {p : Path} {k : Location} : d.locate p = .ok k ↔
    refusal? p.toText = none ∧ d.follow (d.origin p) p.names = .ok k := by
  rw [locate]
  cases refusal? p.toText with
  | some t => simp
  | none =>
    cases d.follow (d.origin p) p.names with
    | error t => simp
    | ok l => simp

theorem follow_outline (d : Disk) (l : Location) (names : List (List Char)) :
    d.outline.follow l names = d.follow l names := by
  induction names generalizing l with
  | nil => rfl
  | cons name rest ih =>
    rw [follow, follow, obstacle?_outline]
    cases d.obstacle? l name with
    | some t => rfl
    | none => exact ih _

theorem locate_outline (d : Disk) (p : Path) : d.outline.locate p = d.locate p := by
  rw [locate, locate, follow_outline, origin, origin, cwd_outline]

theorem listed_outline (d : Disk) (l : Location) :
    d.outline.listed l = (d.listed l).map fun (k, e) => (k, Entry.blank e) := by
  unfold listed
  rw [isClosed_outline]
  cases d.isClosed l with
  | true => rfl
  | false => rfl

theorem filesIn_outline (d : Disk) (l : Location) : d.outline.filesIn l = d.filesIn l := by
  have hblank : fileIn? l ∘ (fun (k, e) => (k, Entry.blank e)) = fileIn? l := by
    funext ⟨k, e⟩
    cases e with
    | file bytes => rfl
    | directory => rfl
  rw [filesIn, filesIn, listed_outline, List.filterMap_map, hblank]

theorem enteredIn_outline (d : Disk) (l : Location) : d.outline.enteredIn l = d.enteredIn l := by
  have hblank : directoryIn? l ∘ (fun (k, e) => (k, Entry.blank e)) = directoryIn? l := by
    funext ⟨k, e⟩
    cases e with
    | file bytes => rfl
    | directory => rfl
  rw [enteredIn, enteredIn, directoriesIn, directoriesIn, listed_outline, List.filterMap_map,
    hblank]

theorem sourcesBelow_outline (d : Disk) (l : Location) :
    d.outline.sourcesBelow l = d.sourcesBelow l := by
  rw [sourcesBelow_eq, sourcesBelow_eq d, filesIn_outline, enteredIn_outline, List.flatMap_def,
    List.flatMap_def]
  congr 2
  refine List.map_congr_left fun name hname => ?_
  rw [sourcesBelow_outline d (l ++ [name])]
termination_by d.depth - l.length
decreasing_by exact depth_sub_lt hname

theorem sources_outline (d : Disk) (p : Path) : d.outline.sources p = d.sources p := by
  rw [sources, sources, locate_outline]
  cases d.locate p with
  | error e => rfl
  | ok l => simp only [directory_outline, sourcesBelow_outline]

/-- Whether a lookup is refused depends on the outline. -/
theorem probe_outline (d : Disk) (p : Path) :
    d.outline.probe p = (d.probe p).map (·.map Entry.blank) := by
  rw [probe, probe, locate_outline]
  cases d.locate p with
  | ok l => exact congrArg Except.ok (get?_outline d l)
  | error e =>
    dsimp only
    split
    · rfl
    · rfl

theorem probeFile_outline (d : Disk) (p : Path) : d.outline.probeFile p = d.probeFile p := by
  rw [probeFile, probeFile, probe_outline]
  rcases d.probe p with e | _ | bytes | _
  · rfl
  · rfl
  · rfl
  · rfl

theorem findSources_outline (d : Disk) (paths : List Path) :
    d.outline.findSources paths = d.findSources paths := by
  have hsearch : d.outline.search = d.search := by
    funext p
    rw [search, search, probe_outline, sources_outline]
    cases d.probe p with
    | error e => rfl
    | ok found => rfl
  rw [findSources, findSources, hsearch]

/-- A path is not resolved, or to the place that its names tell. -/
theorem resolve?_cases (d : Disk) (p : Path) :
    (∃ e, d.resolve? p = .error e) ∨ d.resolve? p = .ok (d.resolve p) := by
  unfold resolve?
  split
  · exact .inl ⟨_, rfl⟩
  · split
    · exact .inr rfl
    · cases d.directory? with
      | error e => exact .inl ⟨e, rfl⟩
      | ok cwd => exact .inr rfl

theorem directory?_outline (d : Disk) : d.outline.directory? = d.directory? := by
  unfold directory?
  simp only [cwd_outline, directory_outline]

/-! ### Texts -/

section Same

variable {d d' : Disk} (h : d'.outline = d.outline)
include h

theorem resolve_congr (p : Path) : d'.resolve p = d.resolve p := by
  have hcwd : d'.outline.cwd = d.outline.cwd := congrArg cwd h
  exact congrArg p.resolve hcwd

theorem directory?_congr : d'.directory? = d.directory? := by
  rw [← directory?_outline, h, directory?_outline]

theorem resolve?_congr (p : Path) : d'.resolve? p = d.resolve? p := by
  rw [resolve?, resolve?, resolve_congr h, directory?_congr h]

theorem probeFile_congr (p : Path) : d'.probeFile p = d.probeFile p := by
  rw [← probeFile_outline, h, probeFile_outline]

theorem isClosed_congr (l : Location) : d'.isClosed l = d.isClosed l := by
  rw [← isClosed_outline, h, isClosed_outline]

theorem locate_congr (p : Path) : d'.locate p = d.locate p := by
  rw [← locate_outline, h, locate_outline]

theorem findSources_congr (paths : List Path) : d'.findSources paths = d.findSources paths := by
  rw [← findSources_outline, h, findSources_outline]

/-- Trees with one outline and one entry at a path give the same bytes there. -/
theorem read_congr {p : Path} (hget : ∀ l, d.locate p = .ok l → d'.get? l = d.get? l) :
    d'.read p = d.read p := by
  rw [read, read, locate_congr h]
  cases hl : d.locate p with
  | error e => rfl
  | ok l => simp only [hget l hl, isClosed_congr h, bind, Except.bind]

theorem readText_congr {p : Path} (hentry : d'.entryAt? p = d.entryAt? p) :
    d'.readText p = d.readText p := by
  have hread : d'.read p = d.read p := by
    refine read_congr h fun l hl => ?_
    rw [entryAt?, entryAt?, locate_congr h, hl] at hentry
    exact hentry
  rw [readText, readText, hread]

end Same

end Disk
end PropShear
