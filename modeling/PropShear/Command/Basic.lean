import PropShear.Command.Invocation
import PropShear.Command.Session
import PropShear.Options.File
import PropShear.Outcome.Output

/-! The commands of the program. -/
namespace PropShear.Command

def versionText : String := "1.0.0"

/-- The version that the program has as a host of strippers. -/
def hostVersion : String := "1.0.0"

/-! ### Outcomes -/

/-- The options of a command line. -/
def overrides (files : Selection) (sourceMap : Bool) : List (Value × Value) :=
  let texts (xs : List String) : Value := .list (xs.map .text)
  [(.text "include", texts files.included), (.text "exclude", texts files.excluded),
    (.text "imports", texts files.modules),
    (.text "sourceMap", if sourceMap then .bool true else .none)]

section Readers

variable (readers : Readers)

/-- The options of the configuration file. -/
def fileOptions (config : Option String) : Run (List (Value × Value)) := do
  let s ← get
  let asked := (config.filter (!·.isEmpty)).map fun name => Path.ofText name.toList
  match s.disk.directory? with
  | .error e => Run.abort (.disk e)
  | .ok directory =>
    match Options.load readers.load s.environment s.disk directory asked with
    | .ok (entries, notes) =>
      Run.log notes
      return entries
    | .error (.refused e) => Run.abort (.disk e)
    | .error (.badEncoding e) => Run.abort (.encoding e)
    | .error .unsortableKeys => Run.abort .unsortableKeys
    | .error e => throw (.report (e.message?.getD ""))

/-- The stripper for the files of a selection. -/
def makeStripper (files : Selection) (sourceMap : Bool) : Run Stripper := do
  let options := Options.merge (← fileOptions readers files.config) (overrides files sourceMap)
  let base := Base.directory (Path.mk 1 (← get).disk.cwd).toText
  match Stripper.make (.map options) (.text hostVersion) Stripper.defaultName base with
  | .ok (stripper, notes) =>
    Run.log notes
    return stripper
  | .error (.options (.invalid message _)) => throw (.report message)
  | .error (.options .unsortableKeys) => Run.abort .unsortableKeys
  | .error (.version (.incompatible e)) => throw (.report e.message)
  | .error e => Run.abort (.setup e)

/-- The outcomes of the files of a selection. -/
def outcomes (files : Selection) (sourceMap : Bool) : Run (List Outcome) := do
  let stripper ← makeStripper readers files sourceMap
  let paths := files.paths.map fun s => Path.ofText s.toList
  (Outcome.ofPaths Session.recorder readers.parse [stripper] paths).adapt fun crash =>
    .abort (.file crash)

end Readers

/-! ### Lines -/

def failLine (o : Outcome) : String := "[FAIL] " ++ o.path.shown ++ " (" ++ o.error.getD "" ++ ")"

def skipLine (o : Outcome) : String := "[SKIP] " ++ o.path.shown ++ " (filtered out)"

def keepLine (o : Outcome) : String := "[NO-OP] " ++ o.path.shown ++ " (no change needed)"

def dryRunLine (o : Outcome) : String :=
  "[DRYRUN] Would strip " ++ toString o.removed ++ " statement(s): " ++ o.path.shown

def stripLine (o : Outcome) (target : Path) : String :=
  "[STRIP] " ++ target.shown ++ " (" ++ toString o.removed ++ " removed)"

def wouldStripLine (o : Outcome) : String :=
  "[WOULD-STRIP] " ++ o.path.shown ++ " (" ++ toString o.removed ++ " removable)"

/-! ### Commands -/

/-- Writes the output of an outcome. -/
def writeOutcome (o : Outcome) (outDir : Option Path) : Run (Option Path) := do
  let s ← get
  match o.write s.disk outDir (some ⟨1, s.disk.cwd⟩) with
  | (disk, .ok target) =>
    set { s with disk }
    return target
  | (disk, .error e) =>
    set { s with disk }
    Run.abort (.disk e)

/-- Reports an outcome and writes its output. -/
def stripOutcome (dryRun : Bool) (outDir : Option Path) (o : Outcome) : Run Unit :=
  match o.status with
  | .failed => Run.print (failLine o)
  | .skipped => Run.print (skipLine o)
  | .unchanged => Run.print (keepLine o)
  | .stripped =>
    if dryRun then Run.print (dryRunLine o)
    else do
      let target ← writeOutcome o outDir
      Run.print (stripLine o (target.getD o.path))

section Readers

variable (readers : Readers)

/-- Strips files: all outcomes are known before the first output is written. -/
def strip (files : Selection) (sourceMap : Bool) (outDir : Option String) (dryRun : Bool) :
    Run Nat := do
  let asked := (← get).environment.get? "PROPSTRIP_DRYRUN"
  let dryRun := dryRun || Options.switchSpellings.read false asked
  let outDir := (outDir.filter (!·.isEmpty)).map fun s => Path.ofText s.toList
  let all ← outcomes readers files sourceMap
  for o in all do stripOutcome dryRun outDir o
  return if Outcome.allSucceed all then 0 else 2

/-- Reports the files that would be stripped. -/
def check (files : Selection) : Run Nat := do
  let all ← outcomes readers files false
  for o in all.filter Outcome.isFailed do Run.print (failLine o)
  for o in all.filter Outcome.isStripped do Run.print (wouldStripLine o)
  return if !Outcome.allSucceed all then 2 else if all.any Outcome.isStripped then 1 else 0

def Action.run : Action → Run Nat
  | .strip files sourceMap outDir dryRun => Command.strip readers files sourceMap outDir dryRun
  | .check files => Command.check readers files

/-! ### The program -/

/-- Runs an action and reports an error of the user. -/
def perform (a : Action) (s : Session) : Except Abort Nat × Session :=
  match (a.run readers).run s with
  | (.ok code, s) => (.ok code, s)
  | (.error (.report message), s) => (.ok 2, s.print ("[cli] error: " ++ message))
  | (.error (.abort e), s) => (.error e, s)

/-- Follows a command line that was understood. -/
def invoke (i : Invocation) (s : Session) : Except Abort Nat × Session :=
  if i.version then (.ok 0, s.print versionText)
  else
    let s := s.setupLog i.logLevel
    match i.action with
    | none => (.ok 1, { s with stdout := s.stdout ++ Topic.main.help })
    | some a => perform readers a s

/-- Runs the program on a command line: its exit code, and the state it leaves. -/
def run (words : List String) (s : Session) : Except Abort Nat × Session :=
  match Invocation.parse words with
  | .ok i => invoke readers i s
  | .error ⟨topic, .help⟩ => (.ok 0, { s with stdout := s.stdout ++ topic.help })
  | .error ⟨topic, .wrong e⟩ =>
    (.ok 2, { s with stderr := s.stderr ++ topic.complaint e.message })

end Readers

/-- A run that has not begun. -/
def Session.start (e : Environment) (c : Log.Clock) (d : Disk) : Session :=
  ⟨e, c, d, .fresh, "", ""⟩

end PropShear.Command
