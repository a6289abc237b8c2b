import PropShear.Disk.Basic
import PropShear.Environment
import PropShear.Log.Record
import PropShear.Value.Printer

/-! Options from a configuration file.

The language of the file is not known here: a loader turns the text of a document into a value, or
says why it cannot. -/
namespace PropShear.Options

/-- Turns the text of a document into a value, or says why it cannot. Texts in values consist of
characters, so halves of surrogate pairs do not occur in them. -/
abbrev Loader := List Char → Except String Value

/-- The names under which a configuration file is looked for. -/
def fileNames : List String := [".propstrip.yaml", "propstrip.yaml"]

inductive FileError where
  | notFound (path : Path)
  | unreadable (path : Path) (e : Disk.Error)
  | malformed (path : Path) (reason : String)
  | notMapping (path : Path)
  /-- A path cannot be looked up. -/
  | refused (e : Disk.Error)
  | badEncoding (e : Text.Utf8.Error)
  /-- The keys have to be listed in order but cannot be compared with each other. -/
  | unsortableKeys

/-- The message to the user, for errors that are the user's. -/
def FileError.message? : FileError → Option String
  | notFound path => some ("config file not found: " ++ path.shown)
  | unreadable path e => some ("cannot read config file " ++ path.shown ++ ": " ++ e.message)
  | malformed path reason => some ("invalid YAML in " ++ path.shown ++ ": " ++ reason)
  | notMapping path => some ("config file " ++ path.shown ++ " must contain a mapping")
  | refused _ => none
  | badEncoding _ => none
  | unsortableKeys => none

/-- Asks whether a file is at a path. -/
def isFile (d : Disk) (path : Path) : Except FileError Bool :=
  match d.probeFile path with
  | .ok found => .ok found
  | .error e => .error (.refused e)

/-- The first of some paths that has a file. -/
def firstFile (d : Disk) : List Path → Except FileError (Option Path)
  | [] => return none
  | path :: rest => do if ← isFile d path then return some path else firstFile d rest

/-- The configuration file: one that is asked for, one that the environment names, or the first
that exists in a directory. -/
def findFile (e : Environment) (d : Disk) (directory : Path) (asked : Option Path) :
    Except FileError (Option Path) :=
  match asked, e.given? "PROPSTRIP_CONFIG" with
  | some path, _ => .ok (some path)
  | none, some name => .ok (some (Path.ofText name.toList))
  | none, none => firstFile d (fileNames.map fun name => directory.join (Path.ofText name.toList))

/-- The entries of a document. A blank document has none, and those of the section named after the
tool count if there is one. -/
def documentEntries (path : Path) (document : Value) : Except FileError (List (Value × Value)) :=
  match if document.isBlank then .map [] else document with
  | .map entries =>
    match Value.lookup entries "propstrip" with
    | some (.map own) => .ok own
    | _ => .ok entries
  | _ => .error (.notMapping path)

/-- The options in a configuration file, with a note for the log. -/
def readFile (loader : Loader) (d : Disk) (path : Path) :
    Except FileError (List (Value × Value) × Log.Record) := do
  unless ← isFile d path do throw (.notFound path)
  let text ← match d.readText path with
    | .ok text => pure text
    | .error (.disk e) => throw (.unreadable path e)
    | .error (.encoding e) => throw (.badEncoding e)
  let document ← match loader text.toList with
    | .ok document => pure document
    | .error reason => throw (.malformed path reason)
  let entries ← documentEntries path document
  match Value.sorted? (entries.map (·.1)) with
  | none => throw .unsortableKeys
  | some keys =>
    return (entries, ⟨Log.debug, "propstrip.config",
      "Loaded config from " ++ path.shown ++ ": keys=" ++ (Value.list keys).quoted⟩)

/-- The options of the configuration file that is found, if any. -/
def load (loader : Loader) (e : Environment) (d : Disk) (directory : Path) (asked : Option Path) :
    Except FileError (List (Value × Value) × List Log.Record) := do
  match ← findFile e d directory asked with
  | none => return ([], [])
  | some path =>
    let (entries, note) ← readFile loader d path
    return (entries, [note])

end PropShear.Options
