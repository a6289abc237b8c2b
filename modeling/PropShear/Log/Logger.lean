import PropShear.Disk.Basic
import PropShear.Environment
import PropShear.Log.Format
import PropShear.Log.Level
import PropShear.Options.Flag

/-! The logger.

All channels share one logger. It passes a record on to its handlers if the record's level is high
enough; each handler writes it to a sink if its own level allows. A logger without handlers shows
warnings and worse as bare messages on the error stream. -/
namespace PropShear.Log

inductive Sink where
  /-- A stream that the caller handed over. -/
  | stream
  /-- The error stream. -/
  | stderr
  | file (path : Path)
deriving DecidableEq, Repr

/-- Text on its way to a sink. -/
structure Delivery where
  sink : Sink
  text : String

structure Handler where
  sink : Sink
  level : Int
  format : Format
  colored : Bool

structure Logger where
  /-- Zero if no level was ever set. -/
  level : Int
  handlers : List Handler

/-- The name of the channel of a component. -/
def channel (component : Option String) : String :=
  match component with
  | none | some "" => "propstrip"
  | some name => "propstrip." ++ name

namespace Logger

/-- A logger that was not set up. -/
def fresh : Logger := ⟨0, []⟩

/-- The least level of records that are passed on. -/
def threshold (l : Logger) : Int := if l.level = 0 then warning else l.level

def isEnabledFor (l : Logger) (level : Int) : Bool := 0 < level && l.threshold ≤ level

/-- What is written when a record is logged. -/
def emit (l : Logger) (s : Stamp) (r : Record) : List Delivery :=
  if !l.isEnabledFor r.level then []
  else if l.handlers.isEmpty then
    if warning ≤ r.level then [⟨.stderr, r.message ++ "\n"⟩] else []
  else
    (l.handlers.filter (·.level ≤ r.level)).map fun h =>
      ⟨h.sink, h.format.render h.colored s r ++ "\n"⟩

/-- Sets the level of the logger and of its handlers. -/
def setLevel (l : Logger) (level : Int) : Logger :=
  ⟨level, l.handlers.map fun h => { h with level }⟩

/-! ### Setting up -/

/-- How a logger is to be set up. -/
structure Setup where
  /-- The level asked for. -/
  level : Value
  /-- The level if none is asked for, here or in the environment. -/
  default : Value
  /-- Whether a stream was handed over. -/
  hasStream : Bool

/-- The level that the logger gets. -/
def Setup.chosen (request : Setup) (e : Environment) : Except LevelError Int :=
  chooseLevel request.level (e.given? "PROPSTRIP_LOG_LEVEL") request.default

/-- Whether handlers that are there are replaced: a stream is handed over, or the environment says
so. -/
def Setup.replaces (request : Setup) (e : Environment) : Bool :=
  request.hasStream || Options.logSpellings.read false (e.get? "PROPSTRIP_LOG_FORCE")

/-- The handler of the console. Colours are on by default on the error stream only. -/
def consoleHandler (e : Environment) (hasStream : Bool) (level : Int) : Handler :=
  let word := ((e.given? "PROPSTRIP_LOG_FORMAT").getD "simple").toList
  { sink := if hasStream then .stream else .stderr
    level
    format := if (Text.trim word).map Char.toLower = "rich".toList then .rich else .simple
    colored := Options.logSpellings.read (!hasStream) (e.get? "PROPSTRIP_LOG_COLOR") }

/-- The handler of the log file that the environment names, which is opened; or else the error. -/
def fileHandler (e : Environment) (d : Disk) (level : Int) :
    Except Record (Disk × List Handler) :=
  match e.given? "PROPSTRIP_LOG_FILE" with
  | none => .ok (d, [])
  | some name =>
    let opened := do
      let path ← d.resolve? (Path.ofText name.toList)
      return (← d.append path [], path)
    match opened with
    | .ok (opened, path) => .ok (opened, [⟨.file path, level, .dated, false⟩])
    | .error err =>
      .error ⟨warning, channel none,
        "Failed to set file handler for '" ++ name ++ "': " ++ err.message⟩

/-- Sets up a logger that has no handlers. -/
def attach (l : Logger) (e : Environment) (d : Disk) (s : Stamp) (hasStream : Bool) :
    Logger × Disk × List Delivery :=
  let console := consoleHandler e hasStream l.level
  match fileHandler e d l.level with
  | .ok (opened, files) => (⟨l.level, console :: files⟩, opened, [])
  | .error failure => (⟨l.level, [console]⟩, d, l.emit s failure)

end Logger

/-! ### Calls -/

/-- What calls of the logger change. -/
structure State where
  logger : Logger
  disk : Disk
  /-- What was written, in order. -/
  written : List Delivery

/-- Calls that change the logger; what was done before a level is refused stays done. -/
abbrev Call := ExceptT LevelError (StateM State)

namespace Call

/-- Goes on with a level unless it is refused. -/
def accept (level : Except LevelError Int) : Call Int := ExceptT.mk (pure level)

/-- Changes the logger only. -/
def update (f : Logger → Logger) : Call Unit := modify fun st => { st with logger := f st.logger }

def log (s : Stamp) (r : Record) : Call Unit :=
  modify fun st => { st with written := st.written ++ st.logger.emit s r }

def attach (e : Environment) (s : Stamp) (hasStream : Bool) : Call Unit :=
  modify fun st =>
    let (ready, opened, warnings) := st.logger.attach e st.disk s hasStream
    ⟨ready, opened, st.written ++ warnings⟩

/-- The record that ends setting up. -/
def initialized (level : Int) : Record :=
  ⟨debug, channel none, "Logging initialized at " ++ levelName level⟩

/-- Sets up the logger. Handlers that are there and are not replaced only change their level. Two
records may be made: that the log file cannot be opened, and that all is ready. -/
def setup (e : Environment) (c : Clock) (request : Logger.Setup) : Call Unit := do
  let level ← accept (request.chosen e)
  update fun l => { l with level }
  if request.replaces e then update fun l => { l with handlers := [] }
  if (← get).logger.handlers.isEmpty then attach e (c 0) request.hasStream
  else update (·.setLevel level)
  log (c 1) (initialized level)

/-- Changes the level of the logger and of its handlers. -/
def changeLevel (v : Value) : Call Unit := do
  let level ← accept (levelOfValue v)
  update (·.setLevel level)

end Call

/-- The logger and the tree after setting up, and what was written. -/
def Logger.setup (l : Logger) (e : Environment) (d : Disk) (c : Clock) (request : Setup) :
    Except LevelError (Logger × Disk × List Delivery) :=
  let (result, st) := (Call.setup e c request).run ⟨l, d, []⟩
  result.map fun _ => (st.logger, st.disk, st.written)

/-! ### Sinks -/

/-- Writes what is meant for log files to them. -/
def deliver (d : Disk) (deliveries : List Delivery) : Disk :=
  deliveries.foldl (fun d delivery =>
    match delivery.sink with
    | .file path => (d.append path (Text.Utf8.encode delivery.text.toList)).toOption.getD d
    | _ => d) d

/-- The text that goes to a sink. -/
def textFor (sink : Sink) (deliveries : List Delivery) : String :=
  String.join ((deliveries.filter (·.sink = sink)).map (·.text))

end PropShear.Log
