import PropShear.Proofs.Command.Steps
import PropShear.Proofs.Log.Setup
import PropShear.Proofs.Outcome.Landing

/-! Which files a run of the program changes.

A command first makes outcomes and thereby only logs. What comes after prints lines, unless files
are to be stripped in earnest: then the outputs of stripped files are written, and nothing else
(`outputs_strip`). So apart from the log file a run only changes files where an output lands, and
none at all if it only reports or gives up early (`run_changes`). -/
namespace PropShear.Command

open Session Run

/-! ### Before a command -/

/-- Setting up the log opens the log file that the environment names. -/
structure Session.Started (s t : Session) : Prop where
  environment : t.environment = s.environment
  stdout : t.stdout = s.stdout
  opened : t.Opened
  grows : Disk.Grows (Log.IsLogFile s.environment s.disk) s.disk t.disk
  elsewhere : ∀ {l}, ¬ Log.IsLogFile s.environment s.disk l → t.disk.get? l = s.disk.get? l
  logFile : ∀ {l}, t.LogsAt l → Log.IsLogFile s.environment s.disk l

theorem Session.Started.near {s t u : Session} (h : s.Started t) (hnear : Near t.LogsAt t u) :
    s.Started u where
  environment := hnear.environment.trans h.environment
  stdout := hnear.stdout.trans h.stdout
  opened := hnear.opened h.opened
  grows := h.grows.trans (hnear.disk.grows.mono fun _ hl => h.logFile hl)
  elsewhere hl := (hnear.disk.get? fun hlog => hl (h.logFile hlog)).trans (h.elsewhere hl)
  logFile hl := h.logFile (hnear.logsAt ▸ hl)

/-- The log is set up in the same way at any time, up to what is written to it. -/
theorem setupLog_near (s : Session) (level : Option String) : ∃ base, s.Started base ∧
    ∀ clock, Near base.LogsAt base ({ s with clock }.setupLog level) := by
  obtain ⟨ready, opened, hready, hsetup⟩ :=
    s.logger.setup_ready s.environment s.disk level (.text "WARNING")
  let base : Session := { s with logger := ready, disk := opened }
  have hopened : base.Opened := by
    intro handler hhandler p hfile
    obtain ⟨k, bytes, -, hread, -⟩ := hready.files handler hhandler p hfile
    exact ⟨bytes, hread⟩
  have hlogFile : ∀ {l}, base.LogsAt l → Log.IsLogFile s.environment s.disk l := by
    rintro l ⟨handler, hhandler, p, hfile, hl⟩
    obtain ⟨k, bytes, hk, -, hlog⟩ := hready.files handler hhandler p hfile
    cases hl.symm.trans hk
    exact hlog
  refine ⟨base, ⟨rfl, rfl, hopened, hready.grows, hready.elsewhere, hlogFile⟩, fun clock => ?_⟩
  obtain ⟨deliveries, hmade, hsinks⟩ := hsetup clock
  have hlater : { s with clock }.setupLog level =
      { base with clock := clock.later 2 }.deliver deliveries := by
    unfold setupLog
    dsimp only
    rw [hmade]
  rw [hlater]
  exact ⟨rfl, rfl, rfl, (deliver_near hopened deliveries hsinks).disk⟩

theorem setupLog_started (s : Session) (level : Option String) : s.Started (s.setupLog level) := by
  obtain ⟨base, hbase, hnear⟩ := setupLog_near s level
  exact hbase.near (hnear s.clock)

/-- Sessions that begin at different times differ in the log. -/
theorem setupLog_twin (s : Session) (clock : Log.Clock) (level : Option String) :
    Near (s.setupLog level).LogsAt (s.setupLog level) ({ s with clock }.setupLog level) := by
  obtain ⟨base, -, hnear⟩ := setupLog_near s level
  have hlogs : (s.setupLog level).LogsAt = base.LogsAt := (hnear s.clock).logsAt
  rw [hlogs]
  exact (hnear s.clock).symm.trans (hnear clock)

/-! ### Reporting -/

/-- Only lines were printed. -/
def Session.Prints (s t : Session) : Prop := ∃ text, t = { s with stdout := s.stdout ++ text }

theorem isPath_prints : IsPath Prints where
  refl s := ⟨"", by rw [String.append_empty]⟩
  trans h h' := by
    obtain ⟨text, rfl⟩ := h
    obtain ⟨more, rfl⟩ := h'
    exact ⟨text ++ more, by rw [String.append_assoc]⟩

theorem print_moves (line : String) : Moves Prints (Run.print line) := by
  intro s
  refine ⟨line ++ "\n", ?_⟩
  show s.print line = _
  rw [Session.print, String.append_assoc]

/-- A dry run prints a line for each outcome. -/
theorem dryRun_moves (directory : Option Path) (o : Outcome) :
    Moves Prints (stripOutcome true directory o) := by
  unfold stripOutcome
  split
  · exact print_moves _
  · exact print_moves _
  · exact print_moves _
  · exact print_moves _

theorem check_prints (all : List Outcome) : Moves Prints (do
    for o in all.filter Outcome.isFailed do Run.print (failLine o)
    for o in all.filter Outcome.isStripped do Run.print (wouldStripLine o)
    return if !Outcome.allSucceed all then 2 else if all.any Outcome.isStripped then 1 else 0 :
      Run Nat) := by
  refine .bind isPath_prints (.forIn isPath_prints fun o _ => print_moves _) fun _ => ?_
  refine .bind isPath_prints (.forIn isPath_prints fun o _ => print_moves _) fun _ => ?_
  exact .pure isPath_prints _

/-! ### Writing -/

/-- Whether a run that strips only reports what it would do. -/
def reportsOnly (e : Environment) (dryRun : Bool) : Bool :=
  dryRun || Options.switchSpellings.read false (e.get? "PROPSTRIP_DRYRUN")

theorem writeOutcome_run (o : Outcome) (directory : Option Path) (s : Session) :
    (writeOutcome o directory).run s =
      ((o.write s.disk directory (some ⟨1, s.disk.cwd⟩)).2.mapError fun e => .abort (.disk e),
        { s with disk := (o.write s.disk directory (some ⟨1, s.disk.cwd⟩)).1 }) := by
  unfold writeOutcome
  rw [run_get_bind]
  rcases o.write s.disk directory (some ⟨1, s.disk.cwd⟩) with ⟨disk, written⟩
  cases written with
  | ok target => rfl
  | error e => rfl

/-- Only lines were printed and outputs of given outcomes were written. -/
structure Session.Outputs (all : List Outcome) (directory : Option Path) (s t : Session) :
    Prop where
  grows : Disk.Grows
    (fun l => ∃ o ∈ all, o.LandsAt t.disk directory (some ⟨1, t.disk.cwd⟩) l) s.disk t.disk

theorem isPath_outputs (all : List Outcome) (directory : Option Path) :
    IsPath (Outputs all directory) where
  refl s := ⟨.refl _ _⟩
  trans {s t u} h h' := by
    refine ⟨(h.grows.mono fun l hl => ?_).trans h'.grows⟩
    obtain ⟨o, ho, hlands⟩ := hl
    refine ⟨o, ho, ?_⟩
    rw [h'.grows.cwd]
    exact hlands.grow h'.grows

theorem Session.Prints.outputs {s t : Session} (h : s.Prints t) (all : List Outcome)
    (directory : Option Path) : s.Outputs all directory t := by
  obtain ⟨text, rfl⟩ := h
  exact ⟨.refl _ _⟩

theorem stripOutcome_moves {all : List Outcome} {o : Outcome} (ho : o ∈ all)
    (directory : Option Path) : Moves (Outputs all directory) (stripOutcome false directory o) := by
  have hprint : ∀ line, Moves (Outputs all directory) (Run.print line) :=
    fun line s => (print_moves line s).outputs all directory
  have hwrite : Moves (Outputs all directory) (writeOutcome o directory) := by
    intro s
    rw [writeOutcome_run]
    have hgrows := o.write_grows s.disk directory (some ⟨1, s.disk.cwd⟩)
    refine ⟨hgrows.mono fun l hl => ⟨o, ho, ?_⟩⟩
    rw [hgrows.cwd]
    exact hl
  unfold stripOutcome
  split
  · exact hprint _
  · exact hprint _
  · exact hprint _
  · exact .bind (isPath_outputs all directory) hwrite fun target => hprint _

/-! ### Commands -/

section Strip

variable {readers : Readers} {files : Selection} {sourceMap : Bool} {outDir : Option String}
  {dryRun : Bool} {s t : Session}

theorem strip_error {e : Failure} (h : (outcomes readers files sourceMap).run s = (.error e, t)) :
    (strip readers files sourceMap outDir dryRun).run s = (.error e, t) := by
  unfold strip
  rw [run_get_bind]
  exact run_bind_error h

/-- Once outcomes are made they are gone through one after another. -/
theorem strip_ok {all : List Outcome}
    (h : (outcomes readers files sourceMap).run s = (.ok all, t)) :
    (strip readers files sourceMap outDir dryRun).run s = (do
      for o in all do
        stripOutcome (reportsOnly s.environment dryRun) (givenPath outDir) o
      return if Outcome.allSucceed all then 0 else 2 : Run Nat).run t := by
  unfold strip
  rw [run_get_bind]
  exact run_bind_ok h

theorem check_error {e : Failure} (h : (outcomes readers files false).run s = (.error e, t)) :
    (check readers files).run s = (.error e, t) := run_bind_error h

/-- Checking leaves the tree as it is after outcomes are made. -/
theorem disk_check (readers : Readers) (files : Selection) (s : Session) :
    ((check readers files).run s).2.disk = ((outcomes readers files false).run s).2.disk := by
  rcases h : (outcomes readers files false).run s with ⟨made, t⟩
  cases made with
  | error e => rw [check_error h]
  | ok all =>
    have hrest : (check readers files).run s = _ := run_bind_ok h
    rw [hrest]
    obtain ⟨text, htext⟩ := check_prints all t
    rw [htext]

/-- So does a dry run. -/
theorem disk_dryRun (hdry : reportsOnly s.environment dryRun = true) :
    ((strip readers files sourceMap outDir dryRun).run s).2.disk =
      ((outcomes readers files sourceMap).run s).2.disk := by
  rcases h : (outcomes readers files sourceMap).run s with ⟨made, t⟩
  cases made with
  | error e => rw [strip_error h]
  | ok all =>
    rw [strip_ok h, hdry]
    have hmoves := Moves.bind isPath_prints
      (.forIn isPath_prints fun (o : Outcome) (_ : o ∈ all) => dryRun_moves (givenPath outDir) o)
      (fun _ => .pure isPath_prints (if Outcome.allSucceed all then 0 else 2)) t
    obtain ⟨text, htext⟩ := hmoves
    rw [htext]

/-- Stripping in earnest writes outputs of the outcomes and nothing else. -/
theorem outputs_strip (outDir : Option String) {all : List Outcome}
    (hlive : reportsOnly s.environment dryRun = false)
    (h : (outcomes readers files sourceMap).run s = (.ok all, t)) :
    t.Outputs all (givenPath outDir) ((strip readers files sourceMap outDir dryRun).run s).2 := by
  rw [strip_ok h, hlive]
  have hpath := isPath_outputs all (givenPath outDir)
  exact Moves.bind hpath (.forIn hpath fun o ho => stripOutcome_moves ho _)
    (fun _ => .pure hpath _) t

end Strip

/-! ### The program -/

theorem disk_perform (readers : Readers) (a : Action) (s : Session) :
    (perform readers a s).2.disk = ((a.run readers).run s).2.disk := by
  unfold perform
  rcases (a.run readers).run s with ⟨ended, t⟩
  cases ended with
  | ok code => rfl
  | error failure =>
    cases failure with
    | report message => rfl
    | abort e => rfl

/-- A command line asks for files to be stripped in earnest. -/
def Strips (words : List String) (e : Environment) (level : Option String) (files : Selection)
    (sourceMap : Bool) (outDir : Option String) : Prop :=
  Invocation.parse words = .ok ⟨false, level, some (.strip files sourceMap outDir false)⟩ ∧
    reportsOnly e false = false

/-- Only the log file may have changed, or come into being. -/
def OnlyLog (e : Environment) (d d' : Disk) : Prop :=
  ∀ l, ¬ Log.IsLogFile e d l → d'.get? l = d.get? l

theorem Session.Started.onlyLog {s t u : Session} (h : s.Started t) (hlogs : t.Logs u) :
    OnlyLog s.environment s.disk u.disk := by
  intro l hl
  have hnear := hlogs h.opened
  rw [hnear.disk.get? fun hlog => hl (h.logFile hlog), h.elsewhere hl]

/-- An action that does not strip in earnest leaves the tree as it is after outcomes are made. -/
theorem disk_run_of_reports (readers : Readers) {a : Action} {s : Session}
    (h : ∀ files sourceMap outDir, a = .strip files sourceMap outDir false →
      reportsOnly s.environment false = true) :
    ∃ files sourceMap, ((a.run readers).run s).2.disk =
      ((outcomes readers files sourceMap).run s).2.disk := by
  cases a with
  | check files => exact ⟨files, false, disk_check readers files s⟩
  | strip files sourceMap outDir dryRun =>
    refine ⟨files, sourceMap, disk_dryRun ?_⟩
    cases dryRun with
    | true => rfl
    | false => exact h files sourceMap outDir rfl

section Run

variable {readers : Readers} {words : List String} {e : Environment} {level : Option String}
  {files : Selection} {sourceMap : Bool} {outDir : Option String}

/-- A command line that does not ask for files to be stripped in earnest changes no file. -/
theorem run_onlyLog (readers : Readers) (clock : Log.Clock) (d : Disk)
    (h : ∀ level files sourceMap outDir, ¬ Strips words e level files sourceMap outDir) :
    OnlyLog e d (run readers words (.start e clock d)).2.disk := by
  unfold run
  split
  · next i hparse =>
    unfold invoke
    split
    · exact fun l _ => rfl
    · next hversion =>
      have hstarted := setupLog_started (.start e clock d) i.logLevel
      dsimp only
      split
      · exact fun l hl => hstarted.elsewhere hl
      · next a haction =>
        have hreports : ∀ files sourceMap outDir, a = .strip files sourceMap outDir false →
            reportsOnly ((Session.start e clock d).setupLog i.logLevel).environment false =
              true := by
          intro files sourceMap outDir ha
          rw [hstarted.environment, ← Bool.not_eq_false]
          intro hlive
          refine h i.logLevel files sourceMap outDir ⟨?_, hlive⟩
          rw [hparse, ← ha, ← haction, ← eq_false_of_ne_true hversion]
        obtain ⟨files, sourceMap, hdisk⟩ := disk_run_of_reports readers hreports
        rw [disk_perform, hdisk]
        exact hstarted.onlyLog (outcomes_logs readers files sourceMap _)
  · exact fun l _ => rfl
  · exact fun l _ => rfl

theorem disk_run_of_strips (h : Strips words e level files sourceMap outDir) (s : Session) :
    (run readers words s).2.disk =
      ((strip readers files sourceMap outDir false).run (s.setupLog level)).2.disk := by
  unfold run
  rw [h.1]
  exact disk_perform readers _ _

/-- A run that strips in earnest adds to its log, and then writes outputs. -/
theorem run_grows {clock : Log.Clock} {d : Disk} {all : List Outcome} {t : Session}
    (h : Strips words e level files sourceMap outDir)
    (hmade : (outcomes readers files sourceMap).run ((Session.start e clock d).setupLog level) =
      (.ok all, t)) :
    let last := (run readers words (.start e clock d)).2.disk
    Disk.Grows (fun l => Log.IsLogFile e d l ∨
      ∃ o ∈ all, o.LandsAt last (givenPath outDir) (some ⟨1, d.cwd⟩) l) d last := by
  intro last
  have hstarted := setupLog_started (.start e clock d) level
  have hlogs := outcomes_logs readers files sourceMap ((Session.start e clock d).setupLog level)
  rw [hmade] at hlogs
  have hlog : Disk.Grows (Log.IsLogFile e d) d t.disk :=
    hstarted.grows.trans ((hlogs hstarted.opened).disk.grows.mono fun l hl => hstarted.logFile hl)
  have hlive : reportsOnly ((Session.start e clock d).setupLog level).environment false =
      false := by
    rw [hstarted.environment]
    exact h.2
  have hout := (outputs_strip outDir hlive hmade).grows
  rw [← disk_run_of_strips h] at hout
  have hcwd : last.cwd = d.cwd := hout.cwd.trans hlog.cwd
  rw [hcwd] at hout
  exact (hlog.mono fun l hl => .inl hl).trans (hout.mono fun l hl => .inr hl)

theorem onlyLog_of_error {clock : Log.Clock} {d : Disk} {failure : Failure} {t : Session}
    (h : Strips words e level files sourceMap outDir)
    (hmade : (outcomes readers files sourceMap).run ((Session.start e clock d).setupLog level) =
      (.error failure, t)) : OnlyLog e d (run readers words (.start e clock d)).2.disk := by
  have hlogs := outcomes_logs readers files sourceMap ((Session.start e clock d).setupLog level)
  rw [hmade] at hlogs
  rw [disk_run_of_strips h, strip_error hmade]
  exact (setupLog_started (.start e clock d) level).onlyLog hlogs

/-- **A run changes no file but its log file and the outputs of stripped files.** Nothing at all is
written unless files are stripped in earnest, nor if a run gives up before all outcomes are made. If
all are made, a file can only change where the output or the source map of a stripped file lands. So
a file that is not stripped itself keeps its bytes, unless the output of another lands on it.

Trees have no links, so every file has one location; access to a place is all or nothing; and nobody
else changes the tree meanwhile. -/
theorem run_changes (readers : Readers) (words : List String) (e : Environment)
    (clock : Log.Clock) (d : Disk) :
    let last := (run readers words (.start e clock d)).2.disk
    ((∀ level files sourceMap outDir, ¬ Strips words e level files sourceMap outDir) →
      OnlyLog e d last) ∧
    ∀ level files sourceMap outDir, Strips words e level files sourceMap outDir →
      let made :=
        ((outcomes readers files sourceMap).run ((Session.start e clock d).setupLog level)).1
      (∀ failure, made = .error failure → OnlyLog e d last) ∧
      ∀ all, made = .ok all →
        let landed l := ∃ o ∈ all, o.LandsAt last (givenPath outDir) (some ⟨1, d.cwd⟩) l
        (∀ l, ¬ Log.IsLogFile e d l → ¬ landed l → d.SameFile last l) ∧
        ∀ o ∈ all, o.status ≠ .stripped → ∀ l bytes, d.locate o.path = .ok l →
          d.read o.path = .ok bytes → ¬ Log.IsLogFile e d l →
          (∀ other ∈ all, other ≠ o →
            ¬ other.LandsAt last (givenPath outDir) (some ⟨1, d.cwd⟩) l) →
          last.read o.path = .ok bytes := by
  intro last
  refine ⟨run_onlyLog readers clock d, ?_⟩
  intro level files sourceMap outDir hstrips made
  refine ⟨?_, ?_⟩
  · intro failure hfailure
    exact onlyLog_of_error hstrips (Prod.ext hfailure rfl)
  · intro all hall landed
    have hgrown := run_grows hstrips (Prod.ext hall rfl)
    refine ⟨fun l hl hlanded => hgrown.same fun hor => hor.elim hl hlanded, ?_⟩
    intro o ho hstatus l bytes hlocate hread hl hothers
    refine hgrown.read hlocate ?_ hread
    intro hor
    rcases hor with hlog | ⟨other, hother, hlands⟩
    · exact hl hlog
    · refine hothers other hother ?_ hlands
      intro hsame
      exact hstatus (hsame ▸ hlands.1)

/-- A clock that shows nothing. -/
def noClock : Log.Clock := fun _ => ⟨"", "", ""⟩

/-- Two files, of which the first can be stripped. -/
def pairDisk : Disk := .flat [("a.jsx", "import 'prop-types'"), ("b.jsx", "y")]

def pairFiles : Selection := ⟨["a.jsx", "b.jsx"], [], [], [], none, 1⟩

theorem run_changes_pair :
    let last := (run .standard ["strip", "a.jsx", "b.jsx"] (.start ⟨[]⟩ noClock pairDisk)).2.disk
    Strips ["strip", "a.jsx", "b.jsx"] ⟨[]⟩ none pairFiles false none ∧
      (last.read ⟨0, ["a.jsx".toList]⟩).toOption = some [] ∧
      last.read ⟨0, ["b.jsx".toList]⟩ = .ok (Text.Utf8.encode ['y']) := by
  intro last
  have hstrips : Strips ["strip", "a.jsx", "b.jsx"] ⟨[]⟩ none pairFiles false none := ⟨rfl, rfl⟩
  refine ⟨hstrips, by decide +kernel, ?_⟩
  obtain ⟨all, hall, hfacts⟩ := exists_ok
    (x := ((outcomes .standard pairFiles false).run
      ((Session.start ⟨[]⟩ noClock pairDisk).setupLog none)).1)
    (p := fun all => all.map (fun o => (o.path, decide (o.status = .stripped), o.map.isSome)) =
      [(⟨0, ["a.jsx".toList]⟩, true, false), (⟨0, ["b.jsx".toList]⟩, false, false)])
    (by decide +kernel)
  rw [decide_eq_true_eq] at hfacts
  have hlast : (last.locate ⟨0, ["a.jsx".toList]⟩).toOption = some ["a.jsx".toList] := by
    decide +kernel
  obtain ⟨o, ho, hpath⟩ : ∃ o ∈ all, (o.path, decide (o.status = .stripped), o.map.isSome) =
      (⟨0, ["b.jsx".toList]⟩, false, false) := by
    rw [← List.mem_map, hfacts]
    decide
  obtain ⟨hpath, hstatus, -⟩ : o.path = ⟨0, ["b.jsx".toList]⟩ ∧ _ ∧ _ := by
    simpa only [Prod.mk.injEq] using hpath
  have hkeeps := ((run_changes .standard ["strip", "a.jsx", "b.jsx"] ⟨[]⟩ noClock pairDisk).2
    none pairFiles false none hstrips).2 all hall
  rw [← hpath]
  refine hkeeps.2 o ho (of_decide_eq_false hstatus) ["b.jsx".toList] _ ?_ ?_ ?_ ?_
  · rw [hpath]; rfl
  · rw [hpath]; rfl
  · intro hlog
    obtain ⟨name, -, hname, -⟩ := hlog
    cases hname
  · intro other hother hne hlands
    have hmem := List.mem_map_of_mem
      (f := fun o : Outcome => (o.path, decide (o.status = .stripped), o.map.isSome)) hother
    rw [hfacts, hlands.1] at hmem
    have hfirst : other.path = ⟨0, ["a.jsx".toList]⟩ ∧ other.map.isSome = false := by
      simpa using hmem
    rcases hlands.2 with hl | ⟨hmap, -⟩
    · rw [hfirst.1] at hl
      change last.locate ⟨0, ["a.jsx".toList]⟩ = _ at hl
      rw [hl] at hlast
      exact absurd hlast (by decide)
    · rw [hfirst.2] at hmap
      cases hmap

end Run

end PropShear.Command
