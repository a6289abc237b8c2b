import PropShear.Disk.Basic

/-! The source files below a directory.

A directory is searched from the top: its own files come first, in order of their names, then its
subdirectories, in order of theirs, each searched in the same way. Some directories hold no sources
of the project itself and are not entered; one that cannot be listed is passed over. -/
namespace PropShear.Disk

def sourceEndings : List String := [".js", ".jsx", ".mjs", ".cjs", ".ts", ".tsx", ".mts", ".cts"]

/-- The names of directories that are not entered. -/
def skippedNames : List String := [".git", "node_modules", "dist", "build", ".venv"]

def isSourceName (name : List Char) : Bool :=
  sourceEndings.any fun ending => ending.toList.isSuffixOf name

def isSkippedName (name : List Char) : Bool := skippedNames.contains (String.ofList name)

/-! ### Directories -/

/-- The name that leads from one location to another right below it. -/
def nameIn? (l k : Location) : Option (List Char) := if k.dropLast = l then k.getLast? else none

def fileIn? (l : Location) : Location × Entry → Option (List Char)
  | (k, .file _) => nameIn? l k
  | (_, .directory) => none

def directoryIn? (l : Location) : Location × Entry → Option (List Char)
  | (k, .directory) => nameIn? l k
  | (_, .file _) => none

/-- The entries among which those in a directory are; none if it is closed. -/
def listed (d : Disk) (l : Location) : List (Location × Entry) :=
  if d.isClosed l then [] else d.entries

/-- The names of the files in a directory. -/
def filesIn (d : Disk) (l : Location) : List (List Char) := (d.listed l).filterMap (fileIn? l)

/-- The names of the directories in a directory. -/
def directoriesIn (d : Disk) (l : Location) : List (List Char) :=
  (d.listed l).filterMap (directoryIn? l)

/-- Names in order, compared character by character. -/
def inOrder (names : List (List Char)) : List (List Char) := names.mergeSort fun a b => !b.lex a

/-! ### Searching -/

/-- The greatest number of names that lead to an entry. -/
def depth (d : Disk) : Nat := d.entries.foldr (fun (k, _) n => Nat.max k.length n) 0

theorem length_le_depth {d : Disk} {k : Location} {e : Entry} (h : (k, e) ∈ d.entries) :
    k.length ≤ d.depth := by
  unfold depth
  revert h
  induction d.entries with
  | nil => exact nofun
  | cons entry rest ih =>
    intro h
    rcases List.mem_cons.mp h with rfl | h
    · exact Nat.le_max_left _ _
    · exact Nat.le_trans (ih h) (Nat.le_max_right _ _)

theorem nameIn?_eq_some {l k : Location} {name : List Char} :
    nameIn? l k = some name ↔ k = l ++ [name] := by
  unfold nameIn?
  constructor
  · intro h
    split at h
    · next hparent =>
      obtain ⟨front, rfl⟩ := List.getLast?_eq_some_iff.mp h
      rw [← hparent, List.dropLast_concat]
    · cases h
  · rintro rfl
    rw [List.dropLast_concat, if_pos rfl, List.getLast?_concat]

theorem mem_listed {d : Disk} {l : Location} {entry : Location × Entry} :
    entry ∈ d.listed l ↔ d.isClosed l = false ∧ entry ∈ d.entries := by
  unfold listed
  cases d.isClosed l with
  | true => simp
  | false => simp

theorem mem_directoriesIn {d : Disk} {l : Location} {name : List Char} :
    name ∈ d.directoriesIn l ↔
      d.isClosed l = false ∧ (l ++ [name], .directory) ∈ d.entries := by
  rw [directoriesIn, List.mem_filterMap, ← mem_listed]
  constructor
  · rintro ⟨⟨k, e⟩, hmem, hname⟩
    cases e with
    | file bytes => cases hname
    | directory => rwa [nameIn?_eq_some.mp hname] at hmem
  · intro hmem
    exact ⟨_, hmem, nameIn?_eq_some.mpr rfl⟩

/-- The names of the directories in a directory that are entered, in order. -/
def enteredIn (d : Disk) (l : Location) : List (List Char) :=
  inOrder ((d.directoriesIn l).filter fun name => !isSkippedName name)

theorem mem_enteredIn {d : Disk} {l : Location} {name : List Char} :
    name ∈ d.enteredIn l ↔ (d.isClosed l = false ∧ (l ++ [name], .directory) ∈ d.entries) ∧
      isSkippedName name = false := by
  rw [enteredIn, inOrder, List.mem_mergeSort, List.mem_filter, mem_directoriesIn,
    Bool.not_eq_true']

/-- A subdirectory is a step closer to the deepest entries. -/
theorem depth_sub_lt {d : Disk} {l : Location} {name : List Char} (h : name ∈ d.enteredIn l) :
    d.depth - (l ++ [name]).length < d.depth - l.length := by
  have hle := length_le_depth (mem_enteredIn.mp h).1.2
  rw [List.length_append, List.length_singleton] at hle ⊢
  omega

/-- The names that lead from a location to the source files below it. -/
def sourcesBelow (d : Disk) (l : Location) : List (List (List Char)) :=
  ((inOrder (d.filesIn l)).filter isSourceName).map (fun name => [name]) ++
    (d.enteredIn l).attach.flatMap fun name =>
      (sourcesBelow d (l ++ [name.val])).map (name.val :: ·)
termination_by d.depth - l.length
decreasing_by exact depth_sub_lt name.property

theorem sourcesBelow_eq (d : Disk) (l : Location) : d.sourcesBelow l =
    ((inOrder (d.filesIn l)).filter isSourceName).map (fun name => [name]) ++
      (d.enteredIn l).flatMap fun name => (d.sourcesBelow (l ++ [name])).map (name :: ·) := by
  rw [sourcesBelow, List.flatMap_def, List.flatMap_def]
  rw [List.attach_map_val (f := fun name => (d.sourcesBelow (l ++ [name])).map (name :: ·))]

/-- The text under which a search opens the directory that names lead to from a path. -/
def searchText (p : Path) (names : List (List Char)) : List Char :=
  if names.isEmpty then p.toText else Path.joinText p.toText (Text.joined ['/'] names)

/-- Whether a search from a path comes to the directory of a file: the text of its path may be too
long. -/
def isInReach (p : Path) (names : List (List Char)) : Bool :=
  (refusal? (searchText p names.dropLast)).isNone

/-- The files that a path stands for: the sources below a directory, or else the path itself. -/
def sources (d : Disk) (p : Path) : List Path :=
  match d.locate p with
  | .ok l =>
    if d.get? l = some .directory then
      ((d.sourcesBelow l).filter (isInReach p)).map fun names => p.join ⟨0, names⟩
    else [p]
  | .error _ => [p]

/-- Asks for the files that a path stands for; it is looked up before its files are listed. -/
def search (d : Disk) (p : Path) : Except Error (List Path) := (d.probe p).map fun _ => d.sources p

/-- Asks for the files that paths stand for. -/
def findSources (d : Disk) (paths : List Path) : Except Error (List Path) :=
  (paths.mapM d.search).map List.flatten

end PropShear.Disk
