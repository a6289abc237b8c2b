import PropShear.Command.Basic
import Std.Time.Format

/-! The program.

What a command line names is read into a tree of files, the command runs on that tree, and what it
changed is written back. -/
namespace PropShear.Program

/-- The environment variables that are looked at. -/
def variableNames : List String :=
  ["PROPSTRIP_CONFIG", "PROPSTRIP_DRYRUN", "PROPSTRIP_LOG_LEVEL", "PROPSTRIP_LOG_FORMAT",
    "PROPSTRIP_LOG_FILE", "PROPSTRIP_LOG_COLOR", "PROPSTRIP_LOG_FORCE"]

def readEnvironment : IO Environment := do
  let found ← variableNames.filterMapM fun name => do
    return (← IO.getEnv name).map fun value => (name, value)
  return ⟨found⟩

/-- All records have the time at which the program starts. -/
def readClock : IO Log.Clock := do
  let now ← Std.Time.PlainDateTime.now
  return fun _ => ⟨now.format "HH:mm:ss", now.format "uuuu-MM-dd HH:mm:ss", "0"⟩

/-- Puts what is at a path into a tree; a failure leaves the tree as it is. -/
def place (d : Disk) (name : String) (e : Entry) : Disk :=
  (d.place (d.resolve (Path.ofText name.toList)) e).toOption.getD d

/-- Reads a file, or a directory with all below it that may be entered. -/
partial def readTree (d : Disk) (name : String) : IO Disk := do
  let path := (← IO.currentDir) / name
  if ← path.isDir then
    let mut d := place d name .directory
    for entry in ← path.readDir do
      unless Disk.skippedNames.contains entry.fileName && (← entry.path.isDir) do
        d ← readTree d (name ++ "/" ++ entry.fileName)
    return d
  else if ← path.pathExists then
    return place d name (.file (← IO.FS.readBinFile path).toList)
  else return d

/-- The words of a command line that may name files, also behind an equals sign. -/
def fileNames (words : List String) : List String :=
  words.flatMap fun word =>
    match Command.splitValue word.toList with
    | (_, some value) => [word, String.ofList value]
    | _ => [word]

def readDisk (e : Environment) (words : List String) : IO Disk := do
  let cwd := Path.ofText (← IO.currentDir).toString.toList
  let given := [e.given? "PROPSTRIP_CONFIG", e.given? "PROPSTRIP_LOG_FILE"].filterMap id
  (fileNames words ++ given ++ Options.fileNames).foldlM
    (fun d name => if name.isEmpty then return d else readTree d name) (Disk.empty cwd.names)

def writeChanges (before after : Disk) : IO Unit := do
  for (location, bytes) in after.changesSince before do
    let path := Path.mk 1 location
    IO.FS.createDirAll path.parent.shown
    IO.FS.writeBinFile path.shown ⟨bytes.toArray⟩

end PropShear.Program

open PropShear in
def main (words : List String) : IO UInt32 := do
  let e ← Program.readEnvironment
  let d ← Program.readDisk e words
  let (result, s) := Command.run .standard words (.start e (← Program.readClock) d)
  Program.writeChanges d s.disk
  (← IO.getStdout).putStr s.stdout
  (← IO.getStderr).putStr s.stderr
  match result with
  | .ok code => return code.toUInt32
  | .error _ =>
    (← IO.getStderr).putStr "the run was given up\n"
    return 1
