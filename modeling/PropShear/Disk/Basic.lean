import PropShear.Path.Basic
import PropShear.Text.Lines
import PropShear.Text.Offset
import PropShear.Text.Quoted
import PropShear.Text.Utf8

/-! A tree of files.

The tree is a list of locations, each that of a directory or of a file with its bytes. A location is
the list of names that leads to it from the root, so there are no links and every file has one
location. A path is followed name by name from the root or the working directory: each name but the
last has to be that of a directory that may be entered, also before `..`. Names and paths are
limited in length. Access is all or nothing: what is closed can be looked at but neither entered,
listed, read nor written, and there are no other faults, such as a full or broken disk. -/
namespace PropShear

/-- The names that lead to a place from the root. -/
abbrev Location := List (List Char)

inductive Entry where
  | file (bytes : List UInt8)
  | directory
deriving DecidableEq

structure Disk where
  /-- The working directory, where paths that are not absolute start. -/
  cwd : Location
  entries : List (Location × Entry)
  /-- The places that no access is given to. -/
  closed : List Location := []

namespace Disk

/-! ### Errors -/

inductive Trouble where
  | missing
  | occupied
  | notDirectory
  | isDirectory
  | denied
  | nameTooLong
  /-- A path with a null character is not even looked up. -/
  | nullCharacter
deriving DecidableEq, Repr

/-- The number of the trouble; a null character has none. -/
def Trouble.code? : Trouble → Option Nat
  | missing => some 2
  | denied => some 13
  | occupied => some 17
  | notDirectory => some 20
  | isDirectory => some 21
  | nameTooLong => some 36
  | nullCharacter => none

def Trouble.text : Trouble → String
  | missing => "No such file or directory"
  | occupied => "File exists"
  | notDirectory => "Not a directory"
  | isDirectory => "Is a directory"
  | denied => "Permission denied"
  | nameTooLong => "File name too long"
  | nullCharacter => "embedded null byte"

/-- The trouble only says that nothing is there. -/
def Trouble.isAbsence : Trouble → Bool
  | missing | notDirectory | nullCharacter => true
  | _ => false

/-- What went wrong, and at which path, if it was at one. -/
structure Error where
  trouble : Trouble
  path : Option Path
deriving DecidableEq, Repr

def Error.message (e : Error) : String :=
  match e.trouble.code? with
  | none => e.trouble.text
  | some code =>
    "[Errno " ++ toString code ++ "] " ++ e.trouble.text ++
      (e.path.map fun p => ": " ++ Text.quoted p.shown).getD ""

/-! ### Locations -/

/-- What is at a location; the root is a directory. -/
def get? (d : Disk) (l : Location) : Option Entry :=
  if l.isEmpty then some .directory else d.entries.lookup l

/-- Puts an entry at a location. -/
def setEntries (l : Location) (e : Entry) : List (Location × Entry) → List (Location × Entry)
  | [] => [(l, e)]
  | (k, old) :: rest => if k = l then (k, e) :: rest else (k, old) :: setEntries l e rest

def set (d : Disk) (l : Location) (e : Entry) : Disk :=
  { d with entries := setEntries l e d.entries }

/-- The location that a name leads to. -/
def step (l : Location) (name : List Char) : Location :=
  if name = ['.', '.'] then l.dropLast else l ++ [name]

def isClosed (d : Disk) (l : Location) : Bool := d.closed.contains l

/-- Why a name cannot be followed from a location, if it cannot. -/
def obstacle? (d : Disk) (l : Location) (name : List Char) : Option Trouble :=
  match d.get? l with
  | none => some .missing
  | some (.file _) => some .notDirectory
  | some .directory =>
    if d.isClosed l then some .denied
    else if 255 < Text.byteLength name then some .nameTooLong
    else none

/-- Follows names from a location. -/
def follow (d : Disk) (l : Location) : List (List Char) → Except Trouble Location
  | [] => .ok l
  | name :: rest =>
    match d.obstacle? l name with
    | some t => .error t
    | none => follow d (step l name) rest

/-- Why the text of a path is refused before the path is followed, if it is. -/
def refusal? (text : List Char) : Option Trouble :=
  if text.contains '\x00' then some .nullCharacter
  else if 4096 ≤ Text.byteLength text then some .nameTooLong
  else none

/-- The location at which a path starts. -/
def origin (d : Disk) (p : Path) : Location := if p.isAbsolute then [] else d.cwd

/-- The location that a path leads to; nothing need be there. -/
def locate (d : Disk) (p : Path) : Except Error Location :=
  match refusal? p.toText with
  | some t => .error ⟨t, some p⟩
  | none =>
    match d.follow (d.origin p) p.names with
    | .ok l => .ok l
    | .error t => .error ⟨t, some p⟩

/-- What is at a path. -/
def entryAt? (d : Disk) (p : Path) : Option Entry := (d.locate p).toOption.bind d.get?

def isDirectory (d : Disk) (p : Path) : Bool := d.entryAt? p = some .directory

/-- Asks what is at a path. That nothing is there is an answer; other troubles are not. -/
def probe (d : Disk) (p : Path) : Except Error (Option Entry) :=
  match d.locate p with
  | .ok l => .ok (d.get? l)
  | .error e => if e.trouble.isAbsence then .ok none else .error e

/-- Asks whether a file is at a path. -/
def probeFile (d : Disk) (p : Path) : Except Error Bool :=
  (d.probe p).map fun e =>
    match e with
    | some (.file _) => true
    | _ => false

/-- The absolute form of a path. -/
def resolve (d : Disk) (p : Path) : Path := p.resolve d.cwd

/-- Asks for the working directory, which may be gone. -/
def directory? (d : Disk) : Except Error Path :=
  if d.get? d.cwd = some .directory then .ok ⟨1, d.cwd⟩ else .error ⟨.missing, none⟩

/-- Asks for the absolute form of a path. -/
def resolve? (d : Disk) (p : Path) : Except Error Path :=
  if p.toText.contains '\x00' then .error ⟨.nullCharacter, none⟩
  else if p.isAbsolute then .ok (d.resolve p)
  else d.directory?.map fun _ => d.resolve p

/-! ### Reading and writing -/

def read (d : Disk) (p : Path) : Except Error (List UInt8) := do
  let l ← d.locate p
  if d.isClosed l then throw ⟨.denied, some p⟩
  match d.get? l with
  | some (.file bytes) => return bytes
  | some .directory => throw ⟨.isDirectory, some p⟩
  | none => throw ⟨.missing, some p⟩

/-- The bytes of the file at a location; none if there is no file. -/
def held (d : Disk) (l : Location) : List UInt8 :=
  match d.get? l with
  | some (.file bytes) => bytes
  | _ => []

/-- Changes the bytes of a file, or makes a file if there is none. -/
def modify (d : Disk) (p : Path) (f : List UInt8 → List UInt8) : Except Error Disk := do
  let l ← d.locate p
  if d.get? l = some .directory then throw ⟨.isDirectory, some p⟩
  if d.isClosed l then throw ⟨.denied, some p⟩
  return d.set l (.file (f (d.held l)))

def write (d : Disk) (p : Path) (bytes : List UInt8) : Except Error Disk :=
  d.modify p fun _ => bytes

def append (d : Disk) (p : Path) (bytes : List UInt8) : Except Error Disk :=
  d.modify p fun old => old ++ bytes

def writeText (d : Disk) (p : Path) (text : String) : Except Error Disk :=
  d.write p (Text.Utf8.encode text.toList)

inductive ReadError where
  | disk (e : Error)
  | encoding (e : Text.Utf8.Error)

def ReadError.message : ReadError → String
  | disk e => e.message
  | encoding e => e.message

/-- The text of a file; every end of line is read as a line feed. -/
def readText (d : Disk) (p : Path) : Except ReadError String :=
  match d.read p with
  | .error e => .error (.disk e)
  | .ok bytes =>
    match Text.Utf8.decode bytes with
    | .error e => .error (.encoding e)
    | .ok s => .ok (String.ofList (Text.unifyLines s))

/-! ### Directories -/

/-- Makes a directory in one that exists. -/
def makeDirectory (d : Disk) (p : Path) : Except Error Disk := do
  let l ← d.locate p
  match d.get? l with
  | some _ => throw ⟨.occupied, some p⟩
  | none => return d.set l .directory

/-- Accepts a failure to make a directory if there is one. -/
def acceptDirectory (d : Disk) (p : Path) : Except Error Disk → Except Error Disk
  | .ok made => .ok made
  | .error e => if d.isDirectory p then .ok d else .error e

/-- Makes a directory and those above it, unless they exist. -/
def ensureDirectory (d : Disk) (p : Path) : Except Error Disk :=
  match d.makeDirectory p with
  | .error ⟨.missing, q⟩ =>
    if _ : p.names = [] then .error ⟨.missing, q⟩
    else
      match ensureDirectory d p.parent with
      | .error e => .error e
      | .ok above => above.acceptDirectory p (above.makeDirectory p)
  | result => d.acceptDirectory p result
termination_by p.names.length
decreasing_by
  have := List.length_pos_iff.2 ‹¬p.names = []›
  simp only [Path.parent, List.length_dropLast]
  omega

/-! ### Whole trees -/

/-- An empty tree with its working directory. -/
def empty (cwd : Location) : Disk where
  cwd := cwd
  entries := (List.range cwd.length).map fun i => (cwd.take (i + 1), .directory)

/-- Puts an entry at a path after making the directories above it. -/
def place (d : Disk) (p : Path) (e : Entry) : Except Error Disk := do
  match e with
  | .directory => d.ensureDirectory p
  | .file bytes => (← d.ensureDirectory p.parent).write p bytes

/-- The files that a tree has and another has not, or has with other bytes. -/
def changesSince (d before : Disk) : List (Location × List UInt8) :=
  d.entries.filterMap fun (l, e) =>
    match e with
    | .directory => none
    | .file bytes => if before.get? l = some (.file bytes) then none else some (l, bytes)

end Disk
end PropShear
