import PropShear.Log.Record

/-! How log records are written. -/
namespace PropShear.Log

/-- When and where a record was made, as it is written. -/
structure Stamp where
  /-- The time of day. -/
  time : String
  /-- The day with the time. -/
  day : String
  /-- The line of the program. -/
  line : String

/-- The stamps of the records to come, one after another. -/
abbrev Clock := Nat → Stamp

/-- The clock after some records were made. -/
def Clock.later (c : Clock) (records : Nat) : Clock := fun n => c (n + records)

inductive Format where
  /-- Level, channel and message. -/
  | simple
  /-- Columns with the time and the line. -/
  | rich
  /-- For log files: day and time first. -/
  | dated
deriving DecidableEq, Repr

/-- The colour code of a level. -/
def colorOf? (level : Int) : Option String :=
  if level = debug then some "\x1b[36m"
  else if level = info then some "\x1b[32m"
  else if level = warning then some "\x1b[33m"
  else if level = error then some "\x1b[31m"
  else if level = critical then some "\x1b[35m"
  else none

/-- The name of a level, perhaps in colour. -/
def levelLabel (colored : Bool) (level : Int) : String :=
  match if colored then colorOf? level else none with
  | some color => color ++ levelName level ++ "\x1b[0m"
  | none => levelName level

/-- A record as a line of text. -/
def Format.render (f : Format) (colored : Bool) (s : Stamp) (r : Record) : String :=
  let label := levelLabel colored r.level
  match f with
  | simple => label ++ " " ++ r.channel ++ ": " ++ r.message
  | rich => s.time ++ " | " ++ label ++ " | " ++ r.channel ++ ":" ++ s.line ++ " | " ++ r.message
  | dated => s.day ++ " " ++ label ++ " " ++ r.channel ++ ":" ++ s.line ++ ": " ++ r.message

end PropShear.Log
