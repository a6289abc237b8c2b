import PropShear.Log.Logger
import PropShear.Options.File
import PropShear.Outcome.Basic
import PropShear.Yaml.Basic

/-! The state of a run of the program: the tree of files, the logger, and what was printed. -/
namespace PropShear.Command

/-- How files are understood: by a parser of programs and a loader of configurations. -/
structure Readers where
  parse : Parser
  load : Options.Loader

/-- The parser and the loader of this library. -/
def Readers.standard : Readers := ⟨parseSource, Yaml.load⟩

structure Session where
  environment : Environment
  /-- The stamps of the records that are still to be logged. -/
  clock : Log.Clock
  disk : Disk
  logger : Log.Logger
  stdout : String
  stderr : String

/-- An error that no message reports: it ends the program. -/
inductive Abort where
  | file (c : Crash)
  /-- A path cannot be looked up, or not be written. -/
  | disk (e : Disk.Error)
  | encoding (e : Text.Utf8.Error)
  | setup (e : Stripper.SetupError)
  /-- Keys of options cannot be put in order. -/
  | unsortableKeys

/-- Why a command ends early. -/
inductive Failure where
  /-- An error of the user, to be reported. -/
  | report (message : String)
  | abort (a : Abort)

/-- Steps of a run; what was printed before a failure stays. -/
abbrev Run := ExceptT Failure (StateM Session)

namespace Session

def print (s : Session) (line : String) : Session := { s with stdout := s.stdout ++ line ++ "\n" }

/-- Writes to the sinks of the logger; the stream that is handed to the logger is the error
stream. -/
def deliver (s : Session) (deliveries : List Log.Delivery) : Session :=
  { s with
    disk := Log.deliver s.disk deliveries
    stderr := s.stderr ++ String.join ((deliveries.filter fun d =>
      d.sink = .stream || d.sink = .stderr).map (·.text)) }

/-- Logs a record, at the next tick of the clock. -/
def logRecord (s : Session) (r : Log.Record) : Session :=
  { s with clock := s.clock.later 1 }.deliver (s.logger.emit (s.clock 0) r)

def log (s : Session) (records : List Log.Record) : Session := records.foldl logRecord s

/-- The session takes the records of its outcomes. -/
def recorder : Log.Recorder Session := ⟨disk, logRecord⟩

/-- Sets up the logger for a level asked for on the command line. -/
def setupLog (s : Session) (level : Option String) : Session :=
  let asked := level.elim Value.none Value.text
  match s.logger.setup s.environment s.disk s.clock ⟨asked, .text "WARNING", true⟩ with
  | .ok (logger, disk, deliveries) =>
    { s with logger, disk, clock := s.clock.later 2 }.deliver deliveries
  | .error _ => s

end Session

namespace Run

def print (line : String) : Run Unit := modify (·.print line)

def log (records : List Log.Record) : Run Unit := modify (·.log records)

def abort {α : Type} (a : Abort) : Run α := throw (.abort a)

end Run
end PropShear.Command
