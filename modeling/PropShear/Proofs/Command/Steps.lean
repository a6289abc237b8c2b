import PropShear.Command.Basic
import PropShear.Proofs.Outcome.Isolation

/-! Steps of a run.

What a run does to its state is told by a relation between the state before and the state after; a
relation that all steps of a run respect is respected by the whole (`Run.Moves`). Up to the first
output all steps of a command only log: the state keeps all but the clock, the error stream and the
bytes of the log files (`Session.Logs`, `outcomes_logs`). -/
namespace PropShear.Command

/-! ### Runs -/

namespace Run

variable {α β : Type} {x : Run α} {f : α → Run β}

/-- The state after a run, however it ends, is related to the state before. -/
def Moves (R : Session → Session → Prop) (x : Run α) : Prop := ∀ s, R s (x.run s).2

/-- A relation that holds along any number of steps. -/
structure IsPath (R : Session → Session → Prop) : Prop where
  refl : ∀ s, R s s
  trans : ∀ {s t u}, R s t → R t u → R s u

namespace Moves

variable {R : Session → Session → Prop}

theorem pure (hR : IsPath R) (a : α) : Moves R (Pure.pure a : Run α) := fun s => hR.refl s

theorem throw (hR : IsPath R) (e : Failure) : Moves R (throw e : Run α) := fun s => hR.refl s

theorem get (hR : IsPath R) : Moves R (get : Run Session) := fun s => hR.refl s

theorem bind (hR : IsPath R) (hx : Moves R x) (hf : ∀ a, Moves R (f a)) : Moves R (x >>= f) := by
  intro s
  have hfirst := hx s
  rcases hrun : x.run s with ⟨first, t⟩
  rw [hrun] at hfirst
  cases first with
  | ok a =>
    rw [run_bind_ok hrun]
    exact hR.trans hfirst (hf a t)
  | error e =>
    rw [run_bind_error hrun]
    exact hfirst

theorem forIn (hR : IsPath R) {l : List β} {body : β → Run Unit}
    (h : ∀ b ∈ l, Moves R (body b)) :
    Moves R (forIn l PUnit.unit fun b _ => do body b; Pure.pure (.yield PUnit.unit)) := by
  induction l with
  | nil => exact .pure hR _
  | cons b rest ih =>
    rw [List.forall_mem_cons] at h
    rw [List.forIn_cons]
    refine .bind hR (.bind hR h.1 fun _ => .pure hR _) fun step => ?_
    cases step with
    | done r => exact .pure hR r
    | yield r => exact ih h.2

end Moves
end Run

/-! ### Logging -/

namespace Session

/-- All log files are there. -/
def Opened (s : Session) : Prop :=
  ∀ h ∈ s.logger.handlers, ∀ p, h.sink = .file p → ∃ bytes, s.disk.read p = .ok bytes

/-- A log file is at a location. -/
def LogsAt (s : Session) (l : Location) : Prop :=
  ∃ h ∈ s.logger.handlers, ∃ p, h.sink = .file p ∧ s.disk.locate p = .ok l

/-- From one state to another only the clock, the error stream and files at some places have
changed. -/
structure Near (places : Location → Prop) (s t : Session) : Prop where
  environment : t.environment = s.environment
  logger : t.logger = s.logger
  stdout : t.stdout = s.stdout
  disk : Disk.Agrees places s.disk t.disk

namespace Near

variable {places : Location → Prop} {s t u : Session}

theorem refl (places : Location → Prop) (s : Session) : Near places s s :=
  ⟨rfl, rfl, rfl, .refl _ _⟩

theorem symm (h : Near places s t) : Near places t s :=
  ⟨h.environment.symm, h.logger.symm, h.stdout.symm, h.disk.symm⟩

theorem trans (h : Near places s t) (h' : Near places t u) : Near places s u :=
  ⟨h'.environment.trans h.environment, h'.logger.trans h.logger, h'.stdout.trans h.stdout,
    h.disk.trans h'.disk⟩

theorem opened (h : Near places s t) (hopened : s.Opened) : t.Opened := by
  intro handler hhandler p hsink
  rw [h.logger] at hhandler
  obtain ⟨bytes, hbytes⟩ := hopened handler hhandler p hsink
  exact h.disk.read_ok hbytes

theorem logsAt (h : Near places s t) : t.LogsAt = s.LogsAt := by
  funext l
  simp only [LogsAt, h.logger, Disk.locate_congr h.disk.outline]

theorem away (h : Near places s t) {p : Path} (hp : s.disk.Away s.LogsAt p) :
    t.disk.Away t.LogsAt p := by
  intro l hl
  rw [Disk.locate_congr h.disk.outline] at hl
  rw [h.logsAt]
  exact hp hl

end Near

/-! ### What is logged -/

/-- What is delivered to handlers whose files are there only goes to these files. -/
theorem deliver_near {s : Session} (hopened : s.Opened) (deliveries : List Log.Delivery)
    (h : ∀ delivery ∈ deliveries, ∀ p, delivery.sink = .file p →
      ∃ handler ∈ s.logger.handlers, handler.sink = .file p) :
    Near s.LogsAt s (s.deliver deliveries) := by
  refine ⟨rfl, rfl, rfl, (Log.deliver_agrees fun delivery hmem p hsink => ?_).mono ?_⟩
  · obtain ⟨handler, hhandler, hfile⟩ := h delivery hmem p hsink
    exact hopened handler hhandler p hfile
  · intro l hreached
    obtain ⟨delivery, hmem, p, hsink, hl⟩ := hreached
    obtain ⟨handler, hhandler, hfile⟩ := h delivery hmem p hsink
    exact ⟨handler, hhandler, p, hfile, hl⟩

/-- Only the log has grown. -/
def Logs (s t : Session) : Prop := s.Opened → Near s.LogsAt s t

theorem isPath_logs : Run.IsPath Logs where
  refl s _ := .refl _ s
  trans h h' hopened := by
    have hfirst := h hopened
    exact hfirst.trans (hfirst.logsAt ▸ h' (hfirst.opened hopened))

theorem logs_logRecord (s : Session) (r : Log.Record) : Logs s (s.logRecord r) := by
  intro hopened
  let ticked : Session := { s with clock := s.clock.later 1 }
  have hticked : ticked.Opened := hopened
  have hnear := deliver_near hticked (s.logger.emit (s.clock 0) r)
    fun delivery hmem p hsink => Log.Logger.sink_of_emit hmem hsink
  exact ⟨rfl, rfl, rfl, hnear.disk⟩

theorem logs_logged {s t : Session} (h : recorder.Logged s t) : Logs s t := by
  induction h with
  | refl => exact isPath_logs.refl s
  | step _ record ih => exact isPath_logs.trans ih (logs_logRecord _ record)

theorem logs_log (s : Session) (records : List Log.Record) : Logs s (s.log records) :=
  logs_logged (recorder.logged_logAll s records)

/-- While outcomes are made no file changes but the log files. -/
theorem confined {s : Session} (hopened : s.Opened) : recorder.Confined s.LogsAt s :=
  fun _ h => (logs_logged h hopened).disk

end Session

/-! ### Outcomes -/

/-- The path that a command line gives, unless it is empty. -/
def givenPath (text : Option String) : Option Path :=
  (text.filter (!·.isEmpty)).map fun s => Path.ofText s.toList

/-- The paths of a selection. -/
def Selection.given (files : Selection) : List Path :=
  files.paths.map fun s => Path.ofText s.toList

open Session Run

theorem log_moves (records : List Log.Record) : Moves Logs (Run.log records) :=
  fun s => logs_log s records

variable (readers : Readers)

theorem fileOptions_logs (config : Option String) : Moves Logs (fileOptions readers config) := by
  unfold fileOptions
  refine .bind isPath_logs (.get isPath_logs) fun s => ?_
  dsimp only
  split
  · exact .throw isPath_logs _
  · split
    · exact .bind isPath_logs (log_moves _) fun _ => .pure isPath_logs _
    · exact .throw isPath_logs _
    · exact .throw isPath_logs _
    · exact .throw isPath_logs _
    · exact .throw isPath_logs _

theorem makeStripper_logs (files : Selection) (sourceMap : Bool) :
    Moves Logs (makeStripper readers files sourceMap) := by
  unfold makeStripper
  refine .bind isPath_logs (fileOptions_logs readers _) fun entries => ?_
  refine .bind isPath_logs (.get isPath_logs) fun s => ?_
  dsimp only
  split
  · exact .bind isPath_logs (log_moves _) fun _ => .pure isPath_logs _
  · exact .throw isPath_logs _
  · exact .throw isPath_logs _
  · exact .throw isPath_logs _
  · exact .throw isPath_logs _

/-- While outcomes are made, only the log grows. -/
theorem outcomes_logs (files : Selection) (sourceMap : Bool) :
    Moves Logs (outcomes readers files sourceMap) := by
  unfold outcomes
  refine .bind isPath_logs (makeStripper_logs readers files sourceMap) fun stripper s => ?_
  exact logs_logged (Outcome.ofPaths_logged recorder readers.parse [stripper] files.given s)

end PropShear.Command
