import PropShear.Proofs.Log.Delivery

/-! A logger that was set up.

When a stream is handed over, all handlers are made anew: one for the console, and one for the log
file if the environment names a file that can be opened. So every log file is there, and is the one
that the environment names (`setup_ready`). Opening it is all that setting up does to the tree. -/
namespace PropShear.Log

/-- The environment names a log file, which is at a location. -/
def IsLogFile (e : Environment) (d : Disk) (l : Location) : Prop :=
  ∃ name p, e.given? "PROPSTRIP_LOG_FILE" = some name ∧
    d.resolve? (Path.ofText name.toList) = .ok p ∧ d.locate p = .ok l

namespace Logger

variable {l : Logger} {e : Environment} {d opened : Disk}

/-- Opening the log files of a logger has led from one tree to another. -/
structure Ready (l : Logger) (e : Environment) (d opened : Disk) : Prop where
  grows : Disk.Grows (IsLogFile e d) d opened
  elsewhere : ∀ {k}, ¬ IsLogFile e d k → opened.get? k = d.get? k
  files : ∀ h ∈ l.handlers, ∀ p, h.sink = .file p →
    ∃ k bytes, opened.locate p = .ok k ∧ opened.read p = .ok bytes ∧ IsLogFile e d k

theorem sink_consoleHandler (e : Environment) (hasStream : Bool) (level : Int) (p : Path) :
    (consoleHandler e hasStream level).sink ≠ .file p := by
  unfold consoleHandler
  cases hasStream with
  | true => exact nofun
  | false => exact nofun

theorem Ready.console (e : Environment) (d : Disk) (hasStream : Bool) (level : Int) :
    Ready ⟨level, [consoleHandler e hasStream level]⟩ e d d where
  grows := .refl _ d
  elsewhere _ := rfl
  files h hmem p hsink := by
    rw [List.mem_singleton] at hmem
    rw [hmem] at hsink
    exact absurd hsink (sink_consoleHandler e hasStream level p)

theorem fileHandler_ready {level : Int} {files : List Handler} {hasStream : Bool}
    (h : fileHandler e d level = .ok (opened, files)) :
    Ready ⟨level, consoleHandler e hasStream level :: files⟩ e d opened := by
  unfold fileHandler at h
  split at h
  · cases h
    exact .console e d hasStream level
  · next name hname =>
    dsimp only at h
    split at h
    · next made path hmade =>
      cases h
      obtain ⟨target, hresolve, hrest⟩ := bind_eq_ok hmade
      obtain ⟨grown, happend, heq⟩ := bind_eq_ok hrest
      cases heq
      obtain ⟨k, hk, hgrows, hopen, old, hget⟩ := Disk.modify_grows happend
      have hlog : IsLogFile e d k := ⟨name, path, hname, hresolve, hk⟩
      refine ⟨hgrows.mono ?_, ?_, ?_⟩
      · intro m hm
        exact hm ▸ hlog
      · intro m hm
        refine Disk.modify_elsewhere happend hk ?_
        intro hmk
        exact hm (hmk ▸ hlog)
      · intro handler hmem p hsink
        rcases List.mem_cons.mp hmem with hconsole | hfile
        · rw [hconsole] at hsink
          exact absurd hsink (sink_consoleHandler e hasStream level p)
        · rw [List.mem_singleton] at hfile
          rw [hfile] at hsink
          cases hsink
          have hread := Disk.read_eq_ok.mpr
            ⟨k, hgrows.locate hk, (hgrows.isClosed k).trans hopen, hget⟩
          exact ⟨k, _, hgrows.locate hk, hread, hlog⟩
    · cases h

/-- The handlers that are made do not depend on the time. What is said while the log file is opened
does not go to a file. -/
theorem attach_ready (level : Int) (e : Environment) (d : Disk) (hasStream : Bool) :
    ∃ ready opened, Ready ready e d opened ∧ ∀ s, ∃ warnings,
      attach ⟨level, []⟩ e d s hasStream = (ready, opened, warnings) ∧
      ∀ delivery ∈ warnings, ∀ p, delivery.sink ≠ .file p := by
  unfold attach
  dsimp only
  cases hfile : fileHandler e d level with
  | ok made => exact ⟨_, _, fileHandler_ready hfile, fun s => ⟨[], rfl, nofun⟩⟩
  | error failure =>
    refine ⟨_, _, .console e d hasStream level, fun s => ⟨_, rfl, fun delivery hmem p hsink => ?_⟩⟩
    obtain ⟨handler, hhandler, -⟩ := sink_of_emit hmem hsink
    cases hhandler

end Logger

/-! ### The call -/

namespace Call

variable {e : Environment} {c : Clock} {request : Logger.Setup} {st : State}

/-- A refused level stops the call before anything has changed. -/
theorem run_setup_refused {err : LevelError} (h : request.chosen e = .error err) :
    (setup e c request).run st = (.error err, st) := by
  unfold setup
  rw [h]
  rfl

/-- All handlers are made anew. -/
theorem run_setup_anew {level : Int} (h : request.chosen e = .ok level)
    (hanew : request.replaces e = true ∨ st.logger.handlers = []) :
    (setup e c request).run st =
      let (ready, opened, warnings) := Logger.attach ⟨level, []⟩ e st.disk (c 0) request.hasStream
      (.ok (), ⟨ready, opened, st.written ++ warnings ++ ready.emit (c 1) (initialized level)⟩) := by
  unfold setup
  rw [h]
  cases hreplaces : request.replaces e with
  | true => rfl
  | false =>
    have hnone : st.logger.handlers = [] := by
      rcases hanew with htrue | hnone
      · rw [hreplaces] at htrue
        cases htrue
      · exact hnone
    rcases st with ⟨⟨before, handlers⟩, disk, written⟩
    cases hnone
    rfl

/-- The handlers stay, at the new level. -/
theorem run_setup_kept {level : Int} (h : request.chosen e = .ok level)
    (hreplaces : request.replaces e = false) (hhandlers : st.logger.handlers ≠ []) :
    (setup e c request).run st = (.ok (), ⟨st.logger.setLevel level, st.disk,
      st.written ++ (st.logger.setLevel level).emit (c 1) (initialized level)⟩) := by
  rcases st with ⟨⟨before, handlers⟩, disk, written⟩
  obtain ⟨first, others, rfl⟩ := List.exists_cons_of_ne_nil hhandlers
  unfold setup
  rw [h, hreplaces]
  rfl

end Call

namespace Logger

theorem chosen_ok (asked : Option String) (default : Value) (hasStream : Bool) (e : Environment) :
    ∃ level, Setup.chosen ⟨asked.elim Value.none Value.text, default, hasStream⟩ e = .ok level := by
  cases asked with
  | none => exact ⟨_, rfl⟩
  | some text => exact ⟨_, rfl⟩

/-- Setting up a logger with a stream, at a level given as text or not at all, never fails. The time
only shows in what is written. -/
theorem setup_ready (l : Logger) (e : Environment) (d : Disk) (asked : Option String)
    (default : Value) : ∃ ready opened, Ready ready e d opened ∧ ∀ c, ∃ deliveries,
      l.setup e d c ⟨asked.elim Value.none Value.text, default, true⟩ =
        .ok (ready, opened, deliveries) ∧
      ∀ delivery ∈ deliveries, ∀ p, delivery.sink = .file p →
        ∃ h ∈ ready.handlers, h.sink = .file p := by
  obtain ⟨level, hlevel⟩ := chosen_ok asked default true e
  obtain ⟨ready, opened, hready, hattach⟩ := attach_ready level e d true
  refine ⟨ready, opened, hready, fun c => ?_⟩
  obtain ⟨warnings, hmade, hwarnings⟩ := hattach (c 0)
  refine ⟨warnings ++ ready.emit (c 1) (Call.initialized level), ?_, ?_⟩
  · rw [setup, Call.run_setup_anew hlevel (.inl rfl)]
    dsimp only
    rw [hmade]
    rfl
  · intro delivery hmem p hsink
    rcases List.mem_append.mp hmem with hwarning | hemitted
    · exact absurd hsink (hwarnings delivery hwarning p)
    · exact sink_of_emit hemitted hsink

end Logger
end PropShear.Log
