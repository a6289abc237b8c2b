import PropShear.Proofs.Command.Confinement
import PropShear.Proofs.Options.Configuration
import PropShear.Proofs.Outcome.Brief

/-! Checking foretells stripping.

Both commands begin in the same state, but at different times, and the command line of the one may
ask for source maps. So their logs differ, and nothing else (`setupLog_twin`). If neither the
configuration file nor a source file is a log file, they load the same options (`loaded_near`), make
strippers that differ in source maps at most (`makeStripper_agree`) and come to the same outcomes
(`outcomes_agree`). All outcomes are made before the first is written, so writing cannot change
them, and the files that are written are those that a check lists (`check_agrees`). A file that is
the log may have another outcome for each of the commands (`check_differs`). -/
namespace PropShear.Command

open Session Run

/-! ### The same options -/

/-- What the configuration file of a command line is loaded as. -/
def loaded (readers : Readers) (s : Session) (config : Option String) :
    Except Options.FileError (List (Value × Value) × List Log.Record) :=
  match s.disk.directory? with
  | .error e => .error (.refused e)
  | .ok directory => Options.load readers.load s.environment s.disk directory (givenPath config)

/-- The options of a selection can be loaded and are valid. -/
def Validates (readers : Readers) (s : Session) (files : Selection) : Prop :=
  ∃ entries notes, loaded readers s files.config = .ok (entries, notes) ∧
    Options.violations (.map (Options.merge entries (overrides files false))) = []

/-- Neither the configuration file nor a source file of a selection is a log file. -/
structure Apart (s : Session) (files : Selection) : Prop where
  configuration : ∀ {directory path}, s.disk.directory? = .ok directory →
    Options.findFile s.environment s.disk directory (givenPath files.config) = .ok (some path) →
      s.disk.Away s.LogsAt path
  sources : ∀ {found}, s.disk.findSources files.given = .ok found →
    ∀ p ∈ found, s.disk.Away s.LogsAt p

variable {readers : Readers} {files : Selection} {sourceMap : Bool}

theorem loaded_near {s t : Session} (hnear : Near s.LogsAt s t) (hapart : Apart s files) :
    loaded readers t files.config = loaded readers s files.config := by
  unfold loaded
  rw [Disk.directory?_congr hnear.disk.outline, hnear.environment]
  cases hdirectory : s.disk.directory? with
  | error e => rfl
  | ok directory =>
    refine Options.load_congr hnear.disk.outline fun path hpath => ?_
    exact hnear.disk.readText (hapart.configuration hdirectory hpath)

/-! ### The same stripper -/

section Stripper

variable {entries : List (Value × Value)} {notes : List Log.Record} {s u : Session}

theorem fileOptions_ok {config : Option String}
    (h : loaded readers s config = .ok (entries, notes)) :
    (fileOptions readers config).run s = (.ok entries, s.log notes) := by
  unfold loaded at h
  unfold fileOptions
  rw [run_get_bind]
  unfold givenPath at h
  dsimp only
  cases hdirectory : s.disk.directory? with
  | error e =>
    rw [hdirectory] at h
    cases h
  | ok directory =>
    rw [hdirectory] at h
    dsimp only at h ⊢
    rw [h]
    rfl

/-- The stripper for a selection, from the options of the configuration file. -/
def stripperOf (cwd : Location) (files : Selection) (sourceMap : Bool)
    (entries : List (Value × Value)) : Except Stripper.SetupError (Stripper × List Log.Record) :=
  Stripper.make (.map (Options.merge entries (overrides files sourceMap))) (.text hostVersion)
    Stripper.defaultName (.directory (Path.mk 1 cwd).toText)

theorem makeStripper_ok {stripper : Stripper} {records : List Log.Record}
    (hentries : (fileOptions readers files.config).run s = (.ok entries, u))
    (h : stripperOf u.disk.cwd files sourceMap entries = .ok (stripper, records)) :
    (makeStripper readers files sourceMap).run s = (.ok stripper, u.log records) := by
  unfold makeStripper
  rw [run_bind_ok hentries, run_get_bind]
  unfold stripperOf at h
  dsimp only
  rw [h]
  rfl

theorem makeStripper_error
    (hentries : (fileOptions readers files.config).run s = (.ok entries, u))
    (h : stripperOf u.disk.cwd files sourceMap entries = .error (.options .unsortableKeys)) :
    (makeStripper readers files sourceMap).run s = (.error (.abort .unsortableKeys), u) := by
  unfold makeStripper
  rw [run_bind_ok hentries, run_get_bind]
  unfold stripperOf at h
  dsimp only
  rw [h]
  rfl

/-- With valid options, both commands make strippers that match, or the run ends. -/
theorem makeStripper_agree (htiled : readers.parse.Tiled) (sourceMap : Bool) {s' : Session}
    (hvalid : Validates readers s files) (hapart : Apart s files) (hopened : s.Opened)
    (hnear : Near s.LogsAt s s') :
    (∃ t, (makeStripper readers files false).run s = (.error (.abort .unsortableKeys), t)) ∨
      ∃ stripper stripper' t t', (makeStripper readers files false).run s = (.ok stripper, t) ∧
        (makeStripper readers files sourceMap).run s' = (.ok stripper', t') ∧
        stripper.Matches readers.parse stripper' := by
  obtain ⟨entries, notes, hload, hvalid⟩ := hvalid
  have hentries := fileOptions_ok hload
  have hentries' := fileOptions_ok ((loaded_near hnear hapart).trans hload)
  have hcwd : (s'.log notes).disk.cwd = (s.log notes).disk.cwd := by
    rw [(logs_log s notes hopened).disk.cwd,
      (logs_log s' notes (hnear.opened hopened)).disk.cwd, hnear.disk.cwd]
  cases hmake : stripperOf (s.log notes).disk.cwd files false entries with
  | error e =>
    cases Stripper.make_error hvalid hmake
    exact .inl ⟨_, makeStripper_error hentries hmake⟩
  | ok made =>
    obtain ⟨stripper, records⟩ := made
    have hplain := makeStripper_ok hentries hmake
    cases sourceMap with
    | false =>
      rw [← hcwd] at hmake
      have hsame := makeStripper_ok hentries' hmake
      exact .inr ⟨stripper, stripper, _, _, hplain, hsame, .refl readers.parse stripper⟩
    | true =>
      obtain ⟨records', hmapped⟩ := Stripper.make_setMap hvalid hmake
      rw [← merge_overrides, ← hcwd] at hmapped
      have hmaps := makeStripper_ok hentries' hmapped
      exact .inr ⟨stripper, stripper.withMap, _, _, hplain, hmaps, stripper.matches_withMap htiled⟩

end Stripper

/-! ### The same outcomes -/

section Outcomes

variable {stripper stripper' : Stripper} {s s' : Session}

/-- Strippers that match, in states that differ in the log, give matching outcomes. -/
theorem ofPaths_agree {parse : Parser} {paths : List Path} {t t' : Session}
    (hmatches : stripper.Matches parse stripper') (hopened : s.Opened)
    (hfound : ∀ {found}, s.disk.findSources paths = .ok found →
      ∀ p ∈ found, s.disk.Away s.LogsAt p)
    (ht : Near s.LogsAt s t) (ht' : Near s.LogsAt s t') :
    ((Outcome.ofPaths recorder parse [stripper'] paths).run t').1.map (List.map Outcome.brief) =
      ((Outcome.ofPaths recorder parse [stripper] paths).run t).1.map
        (List.map Outcome.brief) := by
  have hsources : t.disk.findSources paths = s.disk.findSources paths :=
    Disk.findSources_congr ht.disk.outline paths
  have hsources' : t'.disk.findSources paths = s.disk.findSources paths :=
    Disk.findSources_congr ht'.disk.outline paths
  cases hfiles : s.disk.findSources paths with
  | error e =>
    rw [Outcome.ofPaths_refused parse [stripper] (hsources.trans hfiles),
      Outcome.ofPaths_refused parse [stripper'] (hsources'.trans hfiles)]
  | ok found =>
    have haway := hfound hfiles
    rw [Outcome.ofPaths_found parse [stripper] (hsources.trans hfiles),
      Outcome.ofPaths_found parse [stripper'] (hsources'.trans hfiles),
      Outcome.ofFiles_eq_mapM (confined (ht.opened hopened)) fun p hp => ht.away (haway p hp),
      Outcome.ofFiles_eq_mapM (confined (ht'.opened hopened)) fun p hp => ht'.away (haway p hp)]
    refine mapM_map_congr fun p hp => ?_
    have hread : t'.disk.readText p = t.disk.readText p := by
      rw [ht.disk.readText (haway p hp), ht'.disk.readText (haway p hp)]
    have hresolve : t'.disk.resolve? p = t.disk.resolve? p := by
      rw [Disk.resolve?_congr ht.disk.outline, Disk.resolve?_congr ht'.disk.outline]
    exact (Outcome.ofFile_matches hmatches hread hresolve).2

theorem outcomes_of_stripper {u : Session}
    (h : (makeStripper readers files sourceMap).run s = (.ok stripper, u)) :
    (outcomes readers files sourceMap).run s =
      (((Outcome.ofPaths recorder readers.parse [stripper] files.given).run u).1.mapError
          fun crash => .abort (.file crash),
        ((Outcome.ofPaths recorder readers.parse [stripper] files.given).run u).2) :=
  run_bind_ok h

/-- Both commands make matching outcomes, or the run ends. -/
theorem outcomes_agree (htiled : readers.parse.Tiled) (sourceMap : Bool)
    (hvalid : Validates readers s files) (hapart : Apart s files) (hopened : s.Opened)
    (hnear : Near s.LogsAt s s') :
    (∃ a t, (outcomes readers files false).run s = (.error (.abort a), t)) ∨
      ∃ found kept t t', (outcomes readers files false).run s = (.ok found, t) ∧
        (outcomes readers files sourceMap).run s' = (.ok kept, t') ∧
        kept.map Outcome.brief = found.map Outcome.brief := by
  rcases makeStripper_agree htiled sourceMap hvalid hapart hopened hnear with
    ⟨t, hend⟩ | ⟨stripper, stripper', u, u', hmake, hmake', hmatches⟩
  · exact .inl ⟨_, t, run_bind_error hend⟩
  have hu : Near s.LogsAt s u := by
    have hmoves := makeStripper_logs readers files false s hopened
    rwa [hmake] at hmoves
  have hu' : Near s.LogsAt s u' := by
    have hmoves := makeStripper_logs readers files sourceMap s' (hnear.opened hopened)
    rw [hmake', hnear.logsAt] at hmoves
    exact hnear.trans hmoves
  rcases cases_of_map_eq (ofPaths_agree hmatches hopened hapart.sources hu hu') with
    ⟨crash, hcrash⟩ | ⟨found, kept, hfound, hkept, hbrief⟩
  · have hend := outcomes_of_stripper hmake
    rw [hcrash] at hend
    exact .inl ⟨_, _, hend⟩
  · have hplain := outcomes_of_stripper hmake
    have hmapped := outcomes_of_stripper hmake'
    rw [hfound] at hplain
    rw [hkept] at hmapped
    exact .inr ⟨found, kept, _, _, hplain, hmapped, hbrief⟩

end Outcomes

/-! ### What is printed and written -/

/-- The exit code of a check. -/
def checkCode (all : List Outcome) : Nat :=
  if !Outcome.allSucceed all then 2 else if all.any Outcome.isStripped then 1 else 0

/-- The exit code after stripping. -/
def stripCode (all : List Outcome) : Nat := if Outcome.allSucceed all then 0 else 2

/-- Prints lines one after another. -/
def Session.printAll (s : Session) (lines : List String) : Session := lines.foldl Session.print s

theorem print_forIn (line : Outcome → String) (all : List Outcome) (s : Session) :
    (forIn all PUnit.unit fun o _ => do Run.print (line o); pure (.yield PUnit.unit) :
      Run PUnit).run s = (.ok PUnit.unit, s.printAll (all.map line)) := by
  induction all generalizing s with
  | nil => rfl
  | cons o rest ih =>
    rw [List.forIn_cons]
    exact ih (s.print (line o))

theorem check_ok {found : List Outcome} {s t : Session}
    (h : (outcomes readers files false).run s = (.ok found, t)) :
    (check readers files).run s = (.ok (checkCode found),
        (t.printAll ((found.filter Outcome.isFailed).map failLine)).printAll
          ((found.filter Outcome.isStripped).map wouldStripLine)) := by
  unfold check
  rw [run_bind_ok h, run_bind_ok (print_forIn _ _ _), run_bind_ok (print_forIn _ _ _)]
  rfl

/-- Reporting an outcome writes it if it is stripped, and fails only if writing does. -/
theorem stripOutcome_writes {directory : Option Path} {o : Outcome} {s t : Session}
    {r : Except Failure Unit} (h : (stripOutcome false directory o).run s = (r, t)) :
    (∃ e, r = .error (.abort (.disk e))) ∨ r = .ok () ∧
      Outcome.Writes directory (some ⟨1, s.disk.cwd⟩) ([o].filter Outcome.isStripped) s.disk
        t.disk := by
  unfold stripOutcome at h
  have hprinted : o.status ≠ .stripped → t.disk = s.disk → Outcome.Writes directory
      (some ⟨1, s.disk.cwd⟩) ([o].filter Outcome.isStripped) s.disk t.disk := by
    intro hstatus hdisk
    rw [hdisk, List.filter_cons, Outcome.isStripped, decide_eq_false hstatus]
    exact .nil
  cases hstatus : o.status with
  | failed =>
    rw [hstatus] at h hprinted
    cases h
    exact .inr ⟨rfl, hprinted nofun rfl⟩
  | skipped =>
    rw [hstatus] at h hprinted
    cases h
    exact .inr ⟨rfl, hprinted nofun rfl⟩
  | unchanged =>
    rw [hstatus] at h hprinted
    cases h
    exact .inr ⟨rfl, hprinted nofun rfl⟩
  | stripped =>
    rw [hstatus] at h
    have hends := o.write_ends s.disk directory (some ⟨1, s.disk.cwd⟩)
    have hrun := writeOutcome_run o directory s
    rcases hwrite : o.write s.disk directory (some ⟨1, s.disk.cwd⟩) with ⟨d, e | target⟩
    · rw [hwrite] at hrun
      rw [if_neg Bool.false_ne_true, run_bind_error hrun] at h
      cases h
      exact .inl ⟨e, rfl⟩
    · rw [hwrite] at hends hrun
      rw [if_neg Bool.false_ne_true, run_bind_ok hrun] at h
      cases h
      cases hends with
      | ignored hother => exact absurd hstatus hother
      | done =>
        refine .inr ⟨rfl, ?_⟩
        rw [List.filter_cons, Outcome.isStripped, decide_eq_true hstatus]
        exact .cons hwrite .nil

/-- Outcomes are reported one after another, and the stripped ones are written. -/
theorem strip_writes {directory : Option Path} {all : List Outcome} {s t : Session}
    {r : Except Failure PUnit}
    (h : (forIn all PUnit.unit fun o _ => do
      stripOutcome false directory o; pure (.yield PUnit.unit) : Run PUnit).run s = (r, t)) :
    (∃ e, r = .error (.abort (.disk e))) ∨ r = .ok PUnit.unit ∧
      Outcome.Writes directory (some ⟨1, s.disk.cwd⟩) (all.filter Outcome.isStripped) s.disk
        t.disk := by
  induction all generalizing s with
  | nil =>
    cases h
    exact .inr ⟨rfl, .nil⟩
  | cons o rest ih =>
    rw [List.forIn_cons] at h
    rcases hfirst : (stripOutcome false directory o).run s with ⟨made, u⟩
    have hstep := stripOutcome_writes hfirst
    cases made with
    | error e =>
      rw [run_bind_error (run_bind_error hfirst)] at h
      cases h
      rcases hstep with ⟨e', he⟩ | ⟨he, -⟩
      · cases he
        exact .inl ⟨e', rfl⟩
      · cases he
    | ok _ =>
      rcases hstep with ⟨e', he⟩ | ⟨-, hwrites⟩
      · cases he
      have hyield : (do stripOutcome false directory o; pure (.yield PUnit.unit) :
          Run (ForInStep PUnit)).run s = (.ok (.yield PUnit.unit), u) := by
        rw [run_bind_ok hfirst]
        rfl
      rw [run_bind_ok hyield] at h
      rcases ih h with hend | ⟨hr, hrest⟩
      · exact .inl hend
      · refine .inr ⟨hr, ?_⟩
        rw [hwrites.grows.cwd] at hrest
        rw [← List.singleton_append, List.filter_append]
        exact hwrites.trans hrest

/-- If no file fails to be written, all stripped files are. -/
theorem strip_live {outDir : Option String} {kept : List Outcome} {s t : Session}
    (hlive : reportsOnly s.environment false = false)
    (h : (outcomes readers files sourceMap).run s = (.ok kept, t))
    (hwrites : ∀ e,
      (perform readers (.strip files sourceMap outDir false) s).1 ≠ .error (.disk e)) :
    ∃ u, perform readers (.strip files sourceMap outDir false) s = (.ok (stripCode kept), u) ∧
      Outcome.Writes (givenPath outDir) (some ⟨1, t.disk.cwd⟩) (kept.filter Outcome.isStripped)
        t.disk u.disk := by
  have hstrip : (strip readers files sourceMap outDir false).run s = _ := strip_ok h
  rw [hlive] at hstrip
  rcases hloop : (forIn kept PUnit.unit fun o _ => do
    stripOutcome false (givenPath outDir) o; pure (.yield PUnit.unit) : Run PUnit).run t with ⟨r, u⟩
  rcases strip_writes hloop with ⟨e, rfl⟩ | ⟨rfl, hwritten⟩
  · have hrun : ((Action.strip files sourceMap outDir false).run readers).run s =
        (.error (.abort (.disk e)), u) := hstrip.trans (run_bind_error hloop)
    rw [perform, hrun] at hwrites
    exact absurd rfl (hwrites e)
  · have hrun : ((Action.strip files sourceMap outDir false).run readers).run s =
        (.ok (stripCode kept), u) := hstrip.trans (run_bind_ok hloop)
    refine ⟨u, ?_, hwritten⟩
    rw [perform, hrun]

/-! ### Exit codes and lines -/

section Brief

variable {found kept : List Outcome} (h : kept.map Outcome.brief = found.map Outcome.brief)
include h

theorem any_brief (p : Path × Status × String × Nat × Option String → Bool) :
    kept.any (p ·.brief) = found.any (p ·.brief) := by
  have hany : ∀ os : List Outcome, os.any (p ·.brief) = (os.map Outcome.brief).any p :=
    fun os => List.any_map.symm
  rw [hany, hany, h]

theorem filter_brief {α : Type} (p : Path × Status × String × Nat × Option String → Bool)
    (f : Path × Status × String × Nat × Option String → α) :
    (kept.filter (p ·.brief)).map (f ·.brief) = (found.filter (p ·.brief)).map (f ·.brief) := by
  have hfilter : ∀ os : List Outcome, (os.filter (p ·.brief)).map (f ·.brief) =
      ((os.map Outcome.brief).filter p).map f := by
    intro os
    rw [List.filter_map, List.map_map]
    rfl
  rw [hfilter, hfilter, h]

theorem wouldStripLines_brief : (kept.filter Outcome.isStripped).map wouldStripLine =
    (found.filter Outcome.isStripped).map wouldStripLine :=
  filter_brief h (fun b => b.2.1 = .stripped) fun b =>
    "[WOULD-STRIP] " ++ b.1.shown ++ " (" ++ toString b.2.2.2.1 ++ " removable)"

theorem exitCodes_brief : (checkCode found = 2 ↔ stripCode kept = 2) ∧
    (checkCode found ≠ 2 → (checkCode found = 1 ↔ kept.filter Outcome.isStripped ≠ [])) := by
  have hfailed : kept.any Outcome.isFailed = found.any Outcome.isFailed :=
    any_brief h fun b => b.2.1 = .failed
  have hstripped : kept.any Outcome.isStripped = found.any Outcome.isStripped :=
    any_brief h fun b => b.2.1 = .stripped
  have hwritten : kept.filter Outcome.isStripped ≠ [] ↔ found.any Outcome.isStripped = true := by
    rw [← hstripped, List.any_eq_true, ne_eq, List.filter_eq_nil_iff]
    simp only [Classical.not_forall, Classical.not_not, exists_prop]
  rw [hwritten, checkCode, stripCode, Outcome.allSucceed, Outcome.allSucceed, hfailed]
  cases found.any Outcome.isFailed with
  | true => exact ⟨⟨fun _ => rfl, fun _ => rfl⟩, fun hne => absurd rfl hne⟩
  | false =>
    cases found.any Outcome.isStripped with
    | true => exact ⟨by decide, by decide⟩
    | false => exact ⟨by decide, by decide⟩

end Brief

theorem invoke_action (readers : Readers) (level : Option String) (a : Action) (s : Session) :
    invoke readers ⟨false, level, some a⟩ s = perform readers a (s.setupLog level) := rfl

/-- **A check foretells what stripping does.** Given valid options and files that can be written,
both commands make the same outcomes, up to source maps. A check fails exactly if stripping does,
and otherwise says whether stripping writes a file. Its lines name the files that are written, in
order, and stripping makes all outcomes before it writes the first.

Both begin with the same tree, each at its own time, and add lines to the log that tell the time and
whether source maps are made. So neither the configuration file nor a source file may be a log file.
Trees have no links, and nobody else changes them meanwhile. -/
theorem check_agrees {readers : Readers} (htiled : readers.parse.Tiled) (s : Session)
    (clock : Log.Clock) (level : Option String) (files : Selection) (sourceMap : Bool)
    (outDir : Option String) {exit : Nat} {checked : Session}
    (henvironment : s.environment.get? "PROPSTRIP_DRYRUN" = none)
    (hvalid : Validates readers (s.setupLog level) files)
    (hapart : Apart (s.setupLog level) files)
    (hcheck : invoke readers ⟨false, level, some (.check files)⟩ s = (.ok exit, checked))
    (hwrites : ∀ e, (invoke readers ⟨false, level, some (.strip files sourceMap outDir false)⟩
      { s with clock }).1 ≠ .error (.disk e)) :
    ∃ found kept t t' code stripped,
      (outcomes readers files false).run (s.setupLog level) = (.ok found, t) ∧
      (outcomes readers files sourceMap).run ({ s with clock }.setupLog level) = (.ok kept, t') ∧
      kept.map Outcome.brief = found.map Outcome.brief ∧
      invoke readers ⟨false, level, some (.strip files sourceMap outDir false)⟩ { s with clock } =
        (.ok code, stripped) ∧
      (exit = 2 ↔ code = 2) ∧
      (exit ≠ 2 → (exit = 1 ↔ kept.filter Outcome.isStripped ≠ [])) ∧
      t.stdout = s.stdout ∧
      checked = (t.printAll ((found.filter Outcome.isFailed).map failLine)).printAll
        ((kept.filter Outcome.isStripped).map wouldStripLine) ∧
      OnlyLog s.environment s.disk t'.disk ∧
      Outcome.Writes (givenPath outDir) (some ⟨1, s.disk.cwd⟩) (kept.filter Outcome.isStripped)
        t'.disk stripped.disk := by
  have hstarted := setupLog_started s level
  have hstarted' := setupLog_started { s with clock } level
  rw [invoke_action] at hcheck ⊢
  simp only [invoke_action] at hwrites
  rcases outcomes_agree htiled sourceMap hvalid hapart hstarted.opened
    (setupLog_twin s clock level) with ⟨a, t, hend⟩ | ⟨found, kept, t, t', hfound, hkept, hbrief⟩
  · have herror : ((Action.check files).run readers).run (s.setupLog level) = _ := check_error hend
    rw [perform, herror] at hcheck
    cases hcheck
  have hlogs : ({ s with clock }.setupLog level).Logs t' := by
    have hmoves := outcomes_logs readers files sourceMap ({ s with clock }.setupLog level)
    rw [hkept] at hmoves
    exact hmoves
  have hstdout : t.stdout = s.stdout := by
    have hmoves := outcomes_logs readers files false (s.setupLog level) hstarted.opened
    rw [hfound] at hmoves
    exact hmoves.stdout.trans hstarted.stdout
  have hchecked : ((Action.check files).run readers).run (s.setupLog level) = _ := check_ok hfound
  rw [perform, hchecked] at hcheck
  cases hcheck
  have hlive : reportsOnly ({ s with clock }.setupLog level).environment false = false := by
    rw [hstarted'.environment, reportsOnly, henvironment]
    rfl
  obtain ⟨stripped, hstripped, hwritten⟩ := strip_live hlive hkept hwrites
  rw [(hlogs hstarted'.opened).disk.cwd, hstarted'.grows.cwd] at hwritten
  obtain ⟨hfails, hwritesAny⟩ := exitCodes_brief hbrief
  refine ⟨found, kept, t, t', _, stripped, hfound, hkept, hbrief, hstripped, hfails, hwritesAny,
    hstdout, ?_, hstarted'.onlyLog hlogs, hwritten⟩
  rw [wouldStripLines_brief hbrief]

/-- Both commands at work on two files, of which the first can be stripped, with source maps. -/
theorem check_agrees_pair :
    let s := Session.start ⟨[]⟩ noClock pairDisk
    let later := { s with clock := noClock.later 3 }
    ∃ kept t' checked stripped,
      invoke .standard ⟨false, none, some (.check pairFiles)⟩ s = (.ok 1, checked) ∧
      invoke .standard ⟨false, none, some (.strip pairFiles true none false)⟩ later =
        (.ok 0, stripped) ∧
      (outcomes .standard pairFiles true).run (later.setupLog none) = (.ok kept, t') ∧
      kept.filter Outcome.isStripped ≠ [] ∧
      Outcome.Writes none (some ⟨1, []⟩) (kept.filter Outcome.isStripped) t'.disk
        stripped.disk := by
  intro s later
  obtain ⟨exit, hexit, hone⟩ := exists_ok
    (x := (invoke .standard ⟨false, none, some (.check pairFiles)⟩ s).1) (p := (· = 1))
    (by decide +kernel)
  obtain ⟨code, hcode, hzero⟩ := exists_ok
    (x := (invoke .standard ⟨false, none, some (.strip pairFiles true none false)⟩ later).1)
    (p := (· = 0)) (by decide +kernel)
  rw [decide_eq_true_eq] at hone hzero
  rw [hone] at hexit
  rw [hzero] at hcode
  have hcheck : invoke .standard ⟨false, none, some (.check pairFiles)⟩ s =
      (.ok 1, (invoke .standard ⟨false, none, some (.check pairFiles)⟩ s).2) := by rw [← hexit]
  have hvalid : Validates .standard (s.setupLog none) pairFiles := ⟨[], [], rfl, rfl⟩
  have hnoLog : ∀ p, (s.setupLog none).disk.Away (s.setupLog none).LogsAt p := by
    intro p l _ hl
    obtain ⟨name, -, hname, -⟩ := (setupLog_started s none).logFile hl
    cases hname
  have hapart : Apart (s.setupLog none) pairFiles :=
    ⟨fun _ _ => hnoLog _, fun _ p _ => hnoLog p⟩
  have hwrites : ∀ e, (invoke .standard ⟨false, none, some (.strip pairFiles true none false)⟩
      later).1 ≠ .error (.disk e) := by
    intro e he
    rw [hcode] at he
    cases he
  have henvironment : s.environment.get? "PROPSTRIP_DRYRUN" = none := rfl
  obtain ⟨-, kept, -, t', code', stripped, -, hkept, -, hstrip, -, hlisted, -, -, -, hwritten⟩ :=
    check_agrees parseSource_tiled s (noClock.later 3) none pairFiles true none henvironment
      hvalid hapart hcheck hwrites
  have hsame : (.ok code' : Except Abort Nat) = .ok 0 := (congrArg Prod.fst hstrip).symm.trans hcode
  cases hsame
  exact ⟨kept, t', _, stripped, hcheck, hstrip, hkept, (hlisted (by decide)).mp rfl, hwritten⟩

/-- The log itself is to be stripped, and everything is said in it. -/
def logFiles : Selection := ⟨["log"], [], ["**"], [], none, 1⟩

/-- The text of the log differs for the two commands, and so do their outcomes. -/
theorem check_differs :
    let s := Session.start ⟨[("PROPSTRIP_LOG_FILE", "log")]⟩ noClock (.flat [])
    let started := s.setupLog (some "DEBUG")
    s.environment.get? "PROPSTRIP_DRYRUN" = none ∧
      Validates .standard started logFiles ∧
      (∃ exit, (invoke .standard ⟨false, some "DEBUG", some (.check logFiles)⟩ s).1 =
        .ok exit) ∧
      (∃ code, (invoke .standard ⟨false, some "DEBUG", some (.strip logFiles true none false)⟩
        s).1 = .ok code) ∧
      ∃ found kept, ((outcomes .standard logFiles false).run started).1 = .ok found ∧
        ((outcomes .standard logFiles true).run started).1 = .ok kept ∧
        kept.map Outcome.brief ≠ found.map Outcome.brief := by
  intro s started
  obtain ⟨⟨entries, notes⟩, hloaded, hvalid⟩ := exists_ok (x := loaded .standard started none)
    (p := fun a => (Options.violations
      (.map (Options.merge a.1 (overrides logFiles false)))).isEmpty) (by decide +kernel)
  obtain ⟨exit, hcheck, -⟩ := exists_ok
    (x := (invoke .standard ⟨false, some "DEBUG", some (.check logFiles)⟩ s).1) (p := (· = 0))
    (by decide +kernel)
  obtain ⟨code, hstrip, -⟩ := exists_ok
    (x := (invoke .standard ⟨false, some "DEBUG", some (.strip logFiles true none false)⟩ s).1)
    (p := (· = 0)) (by decide +kernel)
  obtain ⟨found, hfound, hlength⟩ := exists_ok
    (x := ((outcomes .standard logFiles false).run started).1)
    (p := fun all => all.map (·.code.utf8ByteSize) = [191]) (by decide +kernel)
  obtain ⟨kept, hkept, hlength'⟩ := exists_ok
    (x := ((outcomes .standard logFiles true).run started).1)
    (p := fun all => all.map (·.code.utf8ByteSize) = [190]) (by decide +kernel)
  refine ⟨rfl, ⟨entries, notes, hloaded, List.isEmpty_iff.mp hvalid⟩, ⟨exit, hcheck⟩,
    ⟨code, hstrip⟩, found, kept, hfound, hkept, ?_⟩
  -- the one log says `sourceMap=False` and the other `sourceMap=True`, which is shorter
  intro hbrief
  rw [decide_eq_true_eq] at hlength hlength'
  have hlengths := congrArg (List.map fun b => b.2.2.1.utf8ByteSize) hbrief
  rw [List.map_map, List.map_map] at hlengths
  exact absurd (hlength'.symm.trans (hlengths.trans hlength)) (by decide)

end PropShear.Command
