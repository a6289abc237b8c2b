import PropShear.Proofs.Log.Setup

/-! The logger over calls.

A call leaves the logger as it is, gives it and its handlers another level, or makes the handlers
anew (`Logger.Follows`). Whatever holds along these changes holds after any calls (`after_keeps`):
all handlers have the level of the logger, and from the time it is set up there is one handler of
the console and at most one of a file. A refused level is found before anything has changed
(`calls_keep`). -/
namespace PropShear.Log

/-! ### Refused levels -/

/-- A value that is neither text nor a number. -/
def NoLevel (v : Value) : Prop := (∀ text, v ≠ .text text) ∧ v.number? = none

theorem levelOfNumber_cases (v : Value) :
    v.number? = none ∧ levelOfNumber v = .error ⟨⟩ ∨
      v.number? ≠ none ∧ ∃ level, levelOfNumber v = .ok level := by
  unfold levelOfNumber
  cases v.number? with
  | none => exact .inl ⟨rfl, rfl⟩
  | some d => exact .inr ⟨Option.some_ne_none d, _, rfl⟩

/-- The level of a value is refused exactly if it has none. -/
theorem levelOfValue_cases (v : Value) :
    NoLevel v ∧ levelOfValue v = .error ⟨⟩ ∨
      ¬ NoLevel v ∧ ∃ level, levelOfValue v = .ok level := by
  by_cases htext : ∃ text, v = .text text
  · obtain ⟨text, rfl⟩ := htext
    exact .inr ⟨fun h => h.1 text rfl, _, rfl⟩
  · have hnot : ∀ text, v ≠ .text text := not_exists.mp htext
    have hvalue : levelOfValue v = levelOfNumber v := by
      unfold levelOfValue
      split
      · next text => exact absurd rfl (hnot text)
      · rfl
    rw [hvalue]
    rcases levelOfNumber_cases v with ⟨hnumber, hrefused⟩ | ⟨hnumber, hlevel⟩
    · exact .inl ⟨⟨hnot, hnumber⟩, hrefused⟩
    · exact .inr ⟨fun h => hnumber h.2, hlevel⟩

/-- A level is asked for by a value that has none. -/
def Logger.Setup.Refused (request : Setup) : Prop := request.level ≠ .none ∧ NoLevel request.level

theorem Logger.Setup.chosen_cases (request : Setup) (e : Environment) :
    request.Refused ∧ request.chosen e = .error ⟨⟩ ∨
      ¬ request.Refused ∧ ∃ level, request.chosen e = .ok level := by
  unfold chosen chooseLevel
  dsimp only
  split
  · next hlevel => exact .inr ⟨fun h => h.1 hlevel, _, rfl⟩
  · next text hlevel => exact .inr ⟨fun h => h.2.1 text hlevel, _, rfl⟩
  · next hnone htext =>
    rcases levelOfNumber_cases request.level with ⟨hnumber, hrefused⟩ | ⟨hnumber, hlevel⟩
    · exact .inl ⟨⟨hnone, htext, hnumber⟩, hrefused⟩
    · exact .inr ⟨fun h => hnumber h.2.2, hlevel⟩

/-! ### Handlers -/

def Handler.isFile (h : Handler) : Bool :=
  match h.sink with
  | .file _ => true
  | _ => false

namespace Logger

/-- There is one handler of the console and at most one of a file. -/
def Complete (l : Logger) : Prop :=
  l.handlers.countP (!·.isFile) = 1 ∧ l.handlers.countP (·.isFile) ≤ 1

/-- Between calls, all handlers have the level of the logger, and there are none or all that there
should be. -/
structure Orderly (l : Logger) : Prop where
  levels : ∀ h ∈ l.handlers, h.level = l.level
  handlers : l.handlers = [] ∨ l.Complete

/-- What a call can do to a logger. -/
inductive Follows (l : Logger) : Logger → Prop
  | same : Follows l l
  | releveled (level : Int) : Follows l (l.setLevel level)
  | anew (level : Int) (e : Environment) (d : Disk) (s : Stamp) (hasStream : Bool) :
    Follows l (attach ⟨level, []⟩ e d s hasStream).1

variable {l next : Logger}

theorem isFile_consoleHandler (e : Environment) (hasStream : Bool) (level : Int) :
    (consoleHandler e hasStream level).isFile = false := by
  cases hasStream with
  | true => rfl
  | false => rfl

theorem fileHandler_eq_ok {e : Environment} {d opened : Disk} {level : Int} {files : List Handler}
    (h : fileHandler e d level = .ok (opened, files)) :
    files = [] ∨ ∃ path, files = [⟨.file path, level, .dated, false⟩] := by
  unfold fileHandler at h
  split at h
  · cases h
    exact .inl rfl
  · dsimp only at h
    split at h
    · cases h
      exact .inr ⟨_, rfl⟩
    · cases h

/-- The handlers that are made. -/
theorem attach_eq (level : Int) (e : Environment) (d : Disk) (s : Stamp) (hasStream : Bool) :
    ∃ files, (attach ⟨level, []⟩ e d s hasStream).1 =
        ⟨level, consoleHandler e hasStream level :: files⟩ ∧
      (files = [] ∨ ∃ path, files = [⟨.file path, level, .dated, false⟩]) := by
  unfold attach
  dsimp only
  cases hfile : fileHandler e d level with
  | ok made => exact ⟨made.2, rfl, fileHandler_eq_ok hfile⟩
  | error failure => exact ⟨[], rfl, .inl rfl⟩

theorem attach_complete (level : Int) (e : Environment) (d : Disk) (s : Stamp) (hasStream : Bool) :
    (attach ⟨level, []⟩ e d s hasStream).1.Complete := by
  obtain ⟨files, hmade, hfiles⟩ := attach_eq level e d s hasStream
  have hconsole := isFile_consoleHandler e hasStream level
  rw [hmade, Complete]
  rcases hfiles with rfl | ⟨path, rfl⟩
  · simp [hconsole]
  · have hfile : Handler.isFile ⟨.file path, level, .dated, false⟩ = true := rfl
    simp [hconsole, hfile]

theorem attach_levels (level : Int) (e : Environment) (d : Disk) (s : Stamp) (hasStream : Bool) :
    ∀ h ∈ (attach ⟨level, []⟩ e d s hasStream).1.handlers,
      h.level = (attach ⟨level, []⟩ e d s hasStream).1.level := by
  obtain ⟨files, hmade, hfiles⟩ := attach_eq level e d s hasStream
  rw [hmade]
  intro h hmem
  rcases List.mem_cons.mp hmem with rfl | hfile
  · rfl
  · rcases hfiles with rfl | ⟨path, rfl⟩
    · cases hfile
    · rw [List.mem_singleton.mp hfile]

theorem setLevel_levels (l : Logger) (level : Int) :
    ∀ h ∈ (l.setLevel level).handlers, h.level = level := by
  intro h hmem
  obtain ⟨old, -, rfl⟩ := List.mem_map.mp hmem
  rfl

theorem Complete.setLevel (h : l.Complete) (level : Int) : (l.setLevel level).Complete := by
  rw [Complete, Logger.setLevel, List.countP_map, List.countP_map]
  exact h

namespace Follows

/-- A logger with all its handlers keeps having them. -/
theorem complete (h : Follows l next) (hl : l.Complete) : next.Complete := by
  cases h with
  | same => exact hl
  | releveled level => exact hl.setLevel level
  | anew level e d s hasStream => exact attach_complete level e d s hasStream

theorem orderly (h : Follows l next) (hl : l.Orderly) : next.Orderly := by
  cases h with
  | same => exact hl
  | releveled level =>
    refine ⟨setLevel_levels l level, ?_⟩
    rcases hl.handlers with hnone | hcomplete
    · left
      rw [setLevel, hnone]
      rfl
    · exact .inr (hcomplete.setLevel level)
  | anew level e d s hasStream =>
    exact ⟨attach_levels level e d s hasStream, .inr (attach_complete level e d s hasStream)⟩

end Follows
end Logger

/-! ### Sequences of calls -/

/-- Setting up ends at a refused level, makes handlers anew, or keeps those that are there. -/
theorem Call.run_setup_cases (e : Environment) (c : Clock) (request : Logger.Setup) (st : State) :
    request.Refused ∧ (setup e c request).run st = (.error ⟨⟩, st) ∨
      ¬ request.Refused ∧
        ∃ level next, (setup e c request).run st = (.ok (), next) ∧
          ((request.replaces e = true ∨ st.logger.handlers = []) ∧
              next.logger = (Logger.attach ⟨level, []⟩ e st.disk (c 0) request.hasStream).1 ∨
            request.replaces e = false ∧ st.logger.handlers ≠ [] ∧
              next.logger = st.logger.setLevel level ∧ next.disk = st.disk) := by
  rcases request.chosen_cases e with ⟨hrefused, hlevel⟩ | ⟨haccepted, level, hlevel⟩
  · exact .inl ⟨hrefused, run_setup_refused hlevel⟩
  · refine .inr ⟨haccepted, level, ?_⟩
    by_cases hanew : request.replaces e = true ∨ st.logger.handlers = []
    · exact ⟨_, run_setup_anew hlevel hanew, .inl ⟨hanew, rfl⟩⟩
    · obtain ⟨hreplaces, hsome⟩ := not_or.mp hanew
      rw [Bool.not_eq_true] at hreplaces
      exact ⟨_, run_setup_kept hlevel hreplaces hsome, .inr ⟨hreplaces, hsome, rfl, rfl⟩⟩

/-- What can happen between two looks at the logger. -/
inductive Event where
  | setup (e : Environment) (c : Clock) (request : Logger.Setup)
  | changeLevel (level : Value)
  /-- Something else changes the tree. -/
  | tree (d : Disk)

namespace Event

def call : Event → Call Unit
  | setup e c request => Call.setup e c request
  | changeLevel level => Call.changeLevel level
  | tree d => modify fun st => { st with disk := d }

/-- The call is given a level by a value that has none. -/
def Refused : Event → Prop
  | setup _ _ request => request.Refused
  | changeLevel level => NoLevel level
  | tree _ => False

/-- A call whose level is refused changes nothing; any other call returns. -/
theorem call_cases (event : Event) (st : State) :
    event.Refused ∧ event.call.run st = (.error ⟨⟩, st) ∨
      ¬ event.Refused ∧ ∃ next, event.call.run st = (.ok (), next) ∧
        st.logger.Follows next.logger := by
  cases event with
  | setup e c request =>
    rcases Call.run_setup_cases e c request st with hrefused | ⟨haccepted, level, next, hrun, hnext⟩
    · exact .inl hrefused
    · refine .inr ⟨haccepted, next, hrun, ?_⟩
      rcases hnext with ⟨-, hanew⟩ | ⟨-, -, hkept, -⟩
      · exact hanew ▸ .anew level e st.disk (c 0) request.hasStream
      · exact hkept ▸ .releveled level
  | changeLevel level =>
    rcases levelOfValue_cases level with ⟨hrefused, hlevel⟩ | ⟨haccepted, number, hlevel⟩
    · refine .inl ⟨hrefused, ?_⟩
      rw [call, Call.changeLevel, hlevel]
      rfl
    · refine .inr ⟨haccepted, { st with logger := st.logger.setLevel number }, ?_,
        .releveled number⟩
      rw [call, Call.changeLevel, hlevel]
      rfl
  | tree d => exact .inr ⟨id, _, rfl, .same⟩

end Event

/-- The state after calls, of which some may have been refused. -/
def after (st : State) (events : List Event) : State :=
  events.foldl (fun st event => (event.call.run st).2) st

theorem Event.follows (event : Event) (st : State) :
    st.logger.Follows (event.call.run st).2.logger := by
  rcases event.call_cases st with ⟨-, hrun⟩ | ⟨-, next, hrun, hfollows⟩
  · rw [hrun]
    exact .same
  · rw [hrun]
    exact hfollows

/-- What every call keeps is kept by all of them together. -/
theorem after_keeps {P : Logger → Prop} (hP : ∀ {l next}, l.Follows next → P l → P next)
    {st : State} (events : List Event) (hst : P st.logger) : P (after st events).logger := by
  induction events generalizing st with
  | nil => exact hst
  | cons event more ih => exact ih (hP (event.follows st) hst)

section Setup

variable {e : Environment} {c : Clock} {request : Logger.Setup} {now next : State}

theorem Call.of_setup_ok (h : (setup e c request).run now = (.ok (), next)) : ∃ level,
    (request.replaces e = true ∨ now.logger.handlers = []) ∧
        next.logger = (Logger.attach ⟨level, []⟩ e now.disk (c 0) request.hasStream).1 ∨
      request.replaces e = false ∧ now.logger.handlers ≠ [] ∧
        next.logger = now.logger.setLevel level ∧ next.disk = now.disk := by
  rcases run_setup_cases e c request now with ⟨-, hrun⟩ | ⟨-, level, made, hrun, hmade⟩
  · rw [hrun] at h
    cases h
  · rw [hrun] at h
    cases h
    exact ⟨level, hmade⟩

/-- Setting up leaves a logger with all its handlers. -/
theorem Call.setup_complete (h : (setup e c request).run now = (.ok (), next))
    (hnow : now.logger.Orderly) : next.logger.Complete := by
  obtain ⟨level, ⟨-, hanew⟩ | ⟨-, hsome, hkept, -⟩⟩ := of_setup_ok h
  · rw [hanew]
    exact Logger.attach_complete level e now.disk (c 0) request.hasStream
  · rw [hkept]
    exact (hnow.handlers.resolve_left hsome).setLevel level

/-- Handlers that are there and are not replaced change their levels only. -/
theorem Call.setup_keeps (h : (setup e c request).run now = (.ok (), next))
    (hreplaces : request.replaces e = false) (hsome : now.logger.handlers ≠ []) :
    next.logger.handlers = now.logger.handlers.map ({ · with level := next.logger.level }) ∧
      next.disk = now.disk := by
  obtain ⟨level, ⟨hanew, -⟩ | ⟨-, -, hkept, hdisk⟩⟩ := of_setup_ok h
  · rcases hanew with htrue | hnone
    · rw [hreplaces] at htrue
      cases htrue
    · exact absurd hnone hsome
  · rw [hkept]
    exact ⟨rfl, hdisk⟩

end Setup

/-- After any calls, starting from a logger without handlers: all handlers have the level of the
logger; setting it up leaves it with one handler of the console and at most one of a file, however
calls go on; if it has handlers and is not told to replace them they stay and only change their
level; and a call returns unless its level is refused, which leaves everything as it was. Trees have
no links, and a file that was opened for the log stays open. -/
theorem calls_keep (start : State) (hstart : start.logger.handlers = []) (events : List Event) :
    (∀ h ∈ (after start events).logger.handlers, h.level = (after start events).logger.level) ∧
      (∀ e c request next,
        (Call.setup e c request).run (after start events) = (.ok (), next) →
          (∀ later, (after next later).logger.Complete) ∧
            (request.hasStream = false →
              Options.logSpellings.read false (e.get? "PROPSTRIP_LOG_FORCE") = false →
              (after start events).logger.handlers ≠ [] →
                next.logger.handlers = (after start events).logger.handlers.map
                    ({ · with level := next.logger.level }) ∧
                  next.disk = (after start events).disk)) ∧
      ∀ event : Event,
        (event.Refused →
          event.call.run (after start events) = (.error ⟨⟩, after start events)) ∧
        (¬ event.Refused → ∃ next, event.call.run (after start events) = (.ok (), next)) := by
  have hfresh : start.logger.Orderly := by
    refine ⟨?_, .inl hstart⟩
    rw [hstart]
    intro h hmem
    cases hmem
  have horderly : (after start events).logger.Orderly :=
    after_keeps (fun hfollows => hfollows.orderly) events hfresh
  refine ⟨horderly.levels, ?_, ?_⟩
  · intro e c request next hrun
    constructor
    · intro later
      exact after_keeps (fun hfollows => hfollows.complete) later
        (Call.setup_complete hrun horderly)
    · intro hstream hforce hhandlers
      have hreplaces : request.replaces e = false := by
        rw [Logger.Setup.replaces, hstream, hforce]
        rfl
      exact Call.setup_keeps hrun hreplaces hhandlers
  · intro event
    rcases event.call_cases (after start events) with ⟨hrefused, hrun⟩ | ⟨haccepted, next, hrun, -⟩
    · exact ⟨fun _ => hrun, fun h => absurd hrefused h⟩
    · exact ⟨fun h => absurd h haccepted, fun _ => ⟨next, hrun⟩⟩

/-- A logger that was not set up. -/
def unset : State := ⟨.fresh, .empty [], []⟩

/-- A log file is named. -/
def toFile : Environment := ⟨[("PROPSTRIP_LOG_FILE", "out.log")]⟩

/-- All records are made at the same time and place. -/
def noon : Clock := fun _ => ⟨"12:00:00", "2024-01-01 12:00:00", "1"⟩

/-- A level is changed, the logger is set up, and another level is refused. -/
def happened : List Event :=
  [.changeLevel (.text "error"), .setup toFile noon ⟨.text "debug", .none, false⟩,
    .changeLevel (.list [])]

theorem calls_keep_file :
    (after unset happened).logger.handlers.map (fun h => (h.sink, h.level)) =
        [(.stderr, debug), (.file ⟨1, ["out.log".toList]⟩, debug)] ∧
      (∀ h ∈ (after unset happened).logger.handlers,
        h.level = (after unset happened).logger.level) ∧
      (∃ next, (Call.setup ⟨[]⟩ noon ⟨.int 30, .none, false⟩).run (after unset happened) =
          (.ok (), next) ∧
        next.logger.handlers = (after unset happened).logger.handlers.map
          ({ · with level := next.logger.level }) ∧
        (after next [.changeLevel (.text "info")]).logger.Complete) ∧
      (Event.changeLevel (.list [])).call.run (after unset happened) =
        (.error ⟨⟩, after unset happened) := by
  have hmade : (after unset happened).logger.handlers.map (fun h => (h.sink, h.level)) =
      [(.stderr, debug), (.file ⟨1, ["out.log".toList]⟩, debug)] := by
    decide +kernel
  have hsome : (after unset happened).logger.handlers ≠ [] := by
    intro hnone
    rw [hnone] at hmade
    cases hmade
  obtain ⟨hlevels, hsetup, hevents⟩ := calls_keep unset rfl happened
  obtain ⟨next, hnext⟩ := (hevents (.setup ⟨[]⟩ noon ⟨.int 30, .none, false⟩)).2
    fun h => Option.some_ne_none _ h.2.2
  obtain ⟨hcomplete, hkeeps⟩ := hsetup _ _ _ next hnext
  refine ⟨hmade, hlevels, ⟨next, hnext, (hkeeps rfl rfl hsome).1, hcomplete _⟩, ?_⟩
  refine (hevents (.changeLevel (.list []))).1 ⟨?_, rfl⟩
  intro text h
  cases h

end PropShear.Log
