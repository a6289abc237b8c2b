/-! Log records and their levels. -/
namespace PropShear.Log

def debug : Int := 10
def info : Int := 20
def warning : Int := 30
def error : Int := 40
def critical : Int := 50

/-- The name of a level; a level between the named ones is shown as a number. -/
def levelName (level : Int) : String :=
  if level = 50 then "CRITICAL"
  else if level = 40 then "ERROR"
  else if level = 30 then "WARNING"
  else if level = 20 then "INFO"
  else if level = 10 then "DEBUG"
  else if level = 0 then "NOTSET"
  else "Level " ++ toString level

structure Record where
  level : Int
  /-- The name of the logger that was asked. -/
  channel : String
  message : String
deriving DecidableEq, Repr

/-- Level, channel and message on a line. -/
def Record.line (r : Record) : String := levelName r.level ++ " " ++ r.channel ++ ": " ++ r.message

end PropShear.Log
