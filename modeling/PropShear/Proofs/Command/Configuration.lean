import PropShear.Proofs.Command.Agreement
import PropShear.Proofs.Options.Configuration

/-! What becomes of a configuration.

A command loads its configuration before anything else, and makes no outcome if that fails. An error
with a message is printed and ends the run with code 2; the three faults that have none end the
program (`run_configuration`). In either case no file has changed but the log. -/
namespace PropShear.Command

open Session Run

/-! ### Ends of a run -/

/-- The files that an action works on. -/
def Action.files : Action → Selection
  | .strip files _ _ _ => files
  | .check files => files

/-- Whether an action asks for source maps. -/
def Action.sourceMap : Action → Bool
  | .strip _ sourceMap _ _ => sourceMap
  | .check _ => false

/-- An error of the user is printed. -/
structure Reports (e : Environment) (d : Disk) (ended : Except Abort Nat × Session)
    (message : String) : Prop where
  code : ended.1 = .ok 2
  stdout : ended.2.stdout = "[cli] error: " ++ message ++ "\n"
  disk : OnlyLog e d ended.2.disk

/-- The program ends with an error that is not printed. -/
structure Crashes (e : Environment) (d : Disk) (ended : Except Abort Nat × Session) : Prop where
  error : ∃ abort, ended.1 = .error abort
  stdout : ended.2.stdout = ""
  disk : OnlyLog e d ended.2.disk

variable {readers : Readers} {words : List String} {e : Environment} {clock : Log.Clock} {d : Disk}
  {level : Option String} {a : Action} {t : Session}

/-- An action that cannot make its outcomes ends. -/
theorem Action.run_error {failure : Failure} {s : Session}
    (h : (outcomes readers a.files a.sourceMap).run s = (.error failure, t)) :
    (a.run readers).run s = (.error failure, t) := by
  cases a with
  | strip files sourceMap outDir dryRun => exact strip_error h
  | check files => exact check_error h

theorem run_action (hparse : Invocation.parse words = .ok ⟨false, level, some a⟩) (s : Session) :
    run readers words s = perform readers a (s.setupLog level) := by
  unfold run
  rw [hparse]
  rfl

/-- What was printed and written when outcomes could not be made. -/
theorem quiet_of_error {failure : Failure} {files : Selection} {sourceMap : Bool}
    (h : (outcomes readers files sourceMap).run ((Session.start e clock d).setupLog level) =
      (.error failure, t)) : t.stdout = "" ∧ OnlyLog e d t.disk := by
  have hstarted := setupLog_started (.start e clock d) level
  have hlogs := outcomes_logs readers files sourceMap ((Session.start e clock d).setupLog level)
  rw [h] at hlogs
  exact ⟨(hlogs hstarted.opened).stdout.trans hstarted.stdout, hstarted.onlyLog hlogs⟩

theorem reports_of_error {message : String}
    (hparse : Invocation.parse words = .ok ⟨false, level, some a⟩)
    (h : (makeStripper readers a.files a.sourceMap).run ((Session.start e clock d).setupLog level) =
      (.error (.report message), t)) :
    Reports e d (run readers words (.start e clock d)) message := by
  have hmade : (outcomes readers a.files a.sourceMap).run _ = _ := run_bind_error h
  obtain ⟨hstdout, hdisk⟩ := quiet_of_error hmade
  rw [run_action hparse, perform, Action.run_error hmade]
  refine ⟨rfl, ?_, hdisk⟩
  show t.stdout ++ ("[cli] error: " ++ message) ++ "\n" = _
  rw [hstdout, String.empty_append]

theorem crashes_of_error {abort : Abort}
    (hparse : Invocation.parse words = .ok ⟨false, level, some a⟩)
    (h : (makeStripper readers a.files a.sourceMap).run ((Session.start e clock d).setupLog level) =
      (.error (.abort abort), t)) : Crashes e d (run readers words (.start e clock d)) := by
  have hmade : (outcomes readers a.files a.sourceMap).run _ = _ := run_bind_error h
  obtain ⟨hstdout, hdisk⟩ := quiet_of_error hmade
  rw [run_action hparse, perform, Action.run_error hmade]
  exact ⟨⟨abort, rfl⟩, hstdout, hdisk⟩

/-! ### Strippers -/

section Stripper

variable {s : Session} {files : Selection} {sourceMap : Bool} {entries : List (Value × Value)}
  {notes : List Log.Record}

theorem fileOptions_error {config : Option String} {err : Options.FileError}
    (h : loaded readers s config = .error err) :
    (∀ message, err.message? = some message →
      (fileOptions readers config).run s = (.error (.report message), s)) ∧
    (err.message? = none →
      ∃ abort, (fileOptions readers config).run s = (.error (.abort abort), s)) := by
  unfold loaded givenPath at h
  unfold fileOptions
  rw [run_get_bind]
  dsimp only
  cases hdirectory : s.disk.directory? with
  | error e =>
    rw [hdirectory] at h
    cases h
    exact ⟨fun message hmessage => (by cases hmessage), fun _ => ⟨_, rfl⟩⟩
  | ok directory =>
    rw [hdirectory] at h
    dsimp only at h ⊢
    rw [h]
    cases err with
    | refused e => exact ⟨fun message hmessage => (by cases hmessage), fun _ => ⟨_, rfl⟩⟩
    | badEncoding e => exact ⟨fun message hmessage => (by cases hmessage), fun _ => ⟨_, rfl⟩⟩
    | unsortableKeys => exact ⟨fun message hmessage => (by cases hmessage), fun _ => ⟨_, rfl⟩⟩
    | _ => exact ⟨fun message hmessage => (by cases hmessage; rfl), fun hnone => (by cases hnone)⟩

theorem comparable_of_loaded {config : Option String}
    (h : loaded readers s config = .ok (entries, notes)) :
    Value.Comparable (entries.map (·.1)) := by
  unfold loaded at h
  split at h
  · cases h
  · exact Options.comparable_of_load h

/-- All options of a command line are known. -/
theorem overrides_known (files : Selection) (sourceMap : Bool) :
    ∀ entry ∈ overrides files sourceMap, ∃ t ∈ Options.knownKeys, entry.1 = .text t := by
  simp [overrides, Options.knownKeys]

/-- The options of a run: those of the configuration file, and those of the command line on
top. -/
def Action.options (a : Action) (entries : List (Value × Value)) : Value :=
  .map (Options.merge entries (overrides a.files a.sourceMap))

theorem makeStripper_invalid
    (hload : (fileOptions readers a.files.config).run s = (.ok entries, s.log notes))
    (hwrong : Options.violations (a.options entries) ≠ []) :
    (makeStripper readers a.files a.sourceMap).run s =
      (.error (.report (Options.refusal Stripper.defaultName
        (Options.violations (a.options entries)))), s.log notes) := by
  have hmake : ∀ base, Stripper.make (a.options entries) (.text hostVersion) Stripper.defaultName
      base = .error (.options (.invalid (Options.refusal Stripper.defaultName
        (Options.violations (a.options entries))) (Options.violations (a.options entries)))) := by
    intro base
    rw [Stripper.make, Settings.ofOptions_invalid hwrong]
    rfl
  unfold Action.options at hmake
  unfold makeStripper
  rw [run_bind_ok hload, run_get_bind]
  dsimp only
  rw [hmake]
  rfl

theorem makeStripper_valid (hkeys : Value.Comparable (entries.map (·.1)))
    (hload : (fileOptions readers a.files.config).run s = (.ok entries, s.log notes))
    (hvalid : Options.violations (a.options entries) = []) :
    ∃ stripper t, (makeStripper readers a.files a.sourceMap).run s = (.ok stripper, t) := by
  have hunknown := Options.unknown_merge (overrides_known a.files a.sourceMap) entries
  obtain ⟨⟨settings, warnings⟩, hsettings⟩ :=
    Settings.ofOptions_valid (hunknown ▸ Options.comparable_unknown hkeys) hvalid
      Stripper.defaultName
  obtain ⟨filter, hmake⟩ := Stripper.make_eq (Path.mk 1 (s.log notes).disk.cwd).toText settings
  exact ⟨_, _, makeStripper_ok hload (hmake settings.sourceMap hsettings)⟩

end Stripper

/-! ### Runs -/

/-- **Bad configurations are reported, with three exceptions.** Whatever loads the documents, a
configuration fails without a message exactly if its path cannot be looked up, its bytes are no
text, or its keys cannot be compared; what is loaded becomes settings or is reported with all its
violations. A run prints every such message and ends with code 2; without a message the program
ends. In both cases only the log has changed.

A document is loaded or refused for a reason. Trees have no links; access to a place is all or
nothing; and nobody else changes the tree meanwhile. -/
theorem run_configuration (readers : Readers) (e : Environment) (d : Disk) :
    (∀ directory asked,
      ((∃ err, Options.load readers.load e d directory asked = .error err ∧
          err.message? = none) ↔
        Options.Unreported readers.load e d directory asked) ∧
      ∀ entries notes, Options.load readers.load e d directory asked = .ok (entries, notes) →
        ∀ name, Settings.Checked (.map entries) name) ∧
    ∀ words clock level a, Invocation.parse words = .ok ⟨false, level, some a⟩ →
      let s := (Session.start e clock d).setupLog level
      let ended := run readers words (.start e clock d)
      (∀ err, loaded readers s a.files.config = .error err →
        (∀ message, err.message? = some message → Reports e d ended message) ∧
          (err.message? = none → Crashes e d ended)) ∧
      ∀ entries notes, loaded readers s a.files.config = .ok (entries, notes) →
        let wrong := Options.violations (a.options entries)
        (wrong ≠ [] → Reports e d ended (Options.refusal Stripper.defaultName wrong)) ∧
          (wrong = [] → ∃ stripper t,
            (makeStripper readers a.files a.sourceMap).run s = (.ok stripper, t)) := by
  refine ⟨fun directory asked => ⟨Options.load_unreported_iff, ?_⟩, ?_⟩
  · intro entries notes hload
    exact Settings.checked_of_comparable (Options.comparable_of_load hload)
  · intro words clock level a hparse s ended
    refine ⟨fun err hload => ?_, fun entries notes hload => ?_⟩
    · obtain ⟨hreport, habort⟩ := fileOptions_error hload
      refine ⟨fun message hmessage => ?_, fun hnone => ?_⟩
      · exact reports_of_error hparse (run_bind_error (hreport message hmessage))
      · obtain ⟨abort, hrun⟩ := habort hnone
        exact crashes_of_error hparse (run_bind_error hrun)
    · have hentries := fileOptions_ok hload
      refine ⟨fun hwrong => ?_, fun hvalid => ?_⟩
      · exact reports_of_error hparse (makeStripper_invalid hentries hwrong)
      · exact makeStripper_valid (comparable_of_loaded hload) hentries hvalid

/-- A configuration with an option of a wrong type. -/
def wrongDisk : Disk := .flat [("propstrip.yaml", "imports: 1\n"), ("a.jsx", "x")]

theorem run_configuration_imports :
    Reports ⟨[]⟩ wrongDisk (run .standard ["check", "a.jsx"] (.start ⟨[]⟩ noClock wrongDisk))
      "strip-prop-types | options.imports | invalid type" := by
  let a : Action := .check ⟨["a.jsx"], [], [], [], none, 1⟩
  have hparse : Invocation.parse ["check", "a.jsx"] = .ok ⟨false, none, some a⟩ := rfl
  obtain ⟨⟨entries, notes⟩, hload, hwrong⟩ := exists_ok
    (x := loaded .standard ((Session.start ⟨[]⟩ noClock wrongDisk).setupLog none) none)
    (p := fun loaded => Options.violations (a.options loaded.1) =
      ["options.imports | invalid type"]) (by decide +kernel)
  rw [decide_eq_true_eq] at hwrong
  have hreports := (((run_configuration .standard ⟨[]⟩ wrongDisk).2 _ noClock none a hparse).2
    entries notes hload).1
  dsimp only at hreports hwrong
  rw [hwrong] at hreports
  exact hreports (by simp)

/-- A configuration file that is no text: the byte after the first nine starts no character. -/
def binaryDisk : Disk where
  cwd := []
  entries :=
    [(["propstrip.yaml".toList], .file (Text.Utf8.encode "include: ".toList ++ [0xff, 0x0a]))]

/-- Such a file is not reported: the program ends. -/
theorem binary_unreported :
    (∃ err, Options.load Yaml.load ⟨[]⟩ binaryDisk ⟨1, []⟩ none = .error err ∧
        err.message? = none) ∧
      ∃ abort, (run .standard ["check", "a.jsx"] (.start ⟨[]⟩ noClock binaryDisk)).1 =
        .error abort := by
  refine ⟨?_, exists_error (by decide +kernel)⟩
  exact ⟨.badEncoding ⟨9, 10, 0xff, .badLead⟩, rfl, rfl⟩

end PropShear.Command
