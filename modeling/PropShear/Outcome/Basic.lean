import PropShear.Disk.Discovery
import PropShear.Log.Recorder
import PropShear.Stripper

/-! What becomes of files when strippers run over them.

Every file gets an outcome of its own. A file that cannot be read or is no program fails, which
changes nothing for the others. What is logged of one file may change the next, if that is the
log. -/
namespace PropShear

inductive Status where
  | unchanged
  | stripped
  /-- No stripper found the file eligible. -/
  | skipped
  | failed
deriving DecidableEq, Repr

def Status.name : Status → String
  | unchanged => "unchanged"
  | stripped => "stripped"
  | skipped => "skipped"
  | failed => "failed"

structure Outcome where
  path : Path
  status : Status
  /-- The text of the file. -/
  source : String
  /-- The text after stripping. -/
  code : String
  map : Option SourceMap
  /-- How many spans were taken away. -/
  removed : Nat
  error : Option String

/-- An error that no outcome reports: it ends the run. -/
inductive Crash where
  /-- A path cannot be looked up. -/
  | path (e : Disk.Error)
  | fault (f : Fault)
  | edit (e : Editor.Error)

namespace Outcome

def isStripped (o : Outcome) : Bool := o.status = .stripped

def isFailed (o : Outcome) : Bool := o.status = .failed

def record (level : Int) (message : String) : Log.Record := ⟨level, "propstrip.pipeline", message⟩

/-! ### Several strippers -/

/-- A file on its way through the strippers. -/
structure Progress where
  code : String
  map : Option SourceMap
  removed : Nat
  /-- Whether a stripper found the file eligible. -/
  touched : Bool
  log : List Log.Record

/-- The progress after a stripper has changed the file. Source maps are not combined: the last one
counts. -/
def Progress.add (p : Progress) (path : Path) (id : String) (s : Stripped) : Progress :=
  let warnings :=
    if s.map.isSome && p.map.isSome then
      [record Log.warning
        (path.shown ++ ": several plugins produced source maps, keeping the last")]
    else []
  { code := s.code
    map := s.map <|> p.map
    removed := p.removed + s.removed.length
    touched := true
    log := p.log ++ Stripper.notes s p.code id ++ warnings }

/-- Runs strippers one after another, each on what the one before left. -/
def runStrippers (parse : Parser) (path : Path) (id : String) :
    List Stripper → Progress → Progress × Option Stripper.Error
  | [], p => (p, none)
  | s :: rest, p =>
    match s.stripWith parse p.code id with
    | .error e => (p, some e)
    | .ok none => runStrippers parse path id rest p
    | .ok (some result) => runStrippers parse path id rest (p.add path id result)

/-! ### One file -/

def failure (path : Path) (source error : String) : Outcome :=
  ⟨path, .failed, source, "", none, 0, some error⟩

def summary (o : Outcome) : Log.Record :=
  record Log.info (o.status.name ++ " " ++ o.path.shown ++ " (" ++ toString o.removed ++
    (if o.removed = 1 then " removal)" else " removals)"))

/-- The outcome of a file that every stripper accepted. -/
def finish (path : Path) (source : String) (p : Progress) : Outcome :=
  let status : Status :=
    if !p.touched then .skipped else if p.code ≠ source then .stripped else .unchanged
  ⟨path, status, source, p.code, p.map, p.removed, none⟩

/-- The outcome of a file that was read, with its log. -/
def ofText (parse : Parser) (strippers : List Stripper) (path : Path) (id source : String) :
    Except Crash Outcome × List Log.Record :=
  match runStrippers parse path id strippers ⟨source, none, 0, false, []⟩ with
  | (p, none) =>
    let outcome := finish path source p
    (.ok outcome, p.log ++ [outcome.summary])
  | (p, some (.syntaxError e)) =>
    (.ok (failure path source e.message), p.log ++
      [record Log.error ("Failed to transform " ++ path.shown ++ ": " ++ e.message)])
  | (p, some (.fault f)) => (.error (.fault f), p.log)
  | (p, some (.edit e)) => (.error (.edit e), p.log)

/-- The outcome of a file, with its log. -/
def ofFile (parse : Parser) (strippers : List Stripper) (d : Disk) (path : Path) :
    Except Crash Outcome × List Log.Record :=
  match d.resolve? path with
  | .error e => (.error (.path e), [])
  | .ok id =>
    match d.readText path with
    | .error e =>
      (.ok (failure path "" ("read_error: " ++ e.message)),
        [record Log.error ("Cannot read " ++ path.shown ++ ": " ++ e.message)])
    | .ok source => ofText parse strippers path id.shown source

/-! ### Many files -/

/-- Steps of a run; what was logged before a crash stays. -/
abbrev Steps (σ : Type) := ExceptT Crash (StateM σ)

section Run

variable {σ : Type} (r : Log.Recorder σ) (parse : Parser) (strippers : List Stripper)

/-- Makes the outcome of a file and logs it. -/
def take (path : Path) : Steps σ Outcome := do
  let (made, records) := ofFile parse strippers (r.disk (← get)) path
  modify (r.logAll · records)
  ExceptT.mk (pure made)

/-- The outcomes of files, one after another. -/
def ofFiles (files : List Path) : Steps σ (List Outcome) := files.mapM (take r parse strippers)

/-- The outcomes of all files that paths stand for; the files are listed before the first of them is
read. -/
def ofPaths (paths : List Path) : Steps σ (List Outcome) := do
  match (r.disk (← get)).findSources paths with
  | .error e => throw (.path e)
  | .ok files => ofFiles r parse strippers files

end Run

/-- How many outcomes have a status. -/
def count (status : Status) (outcomes : List Outcome) : Nat :=
  outcomes.countP fun o => o.status = status

/-- Whether no file failed. -/
def allSucceed (outcomes : List Outcome) : Bool := !outcomes.any isFailed

end Outcome
end PropShear
