import PropShear.Text.Pieces

/-! Paths written with forward slashes.

A path is a root and a list of names. Empty and `.` names are dropped when a path is read;
`collapse` also takes back a name for every `..` after it. -/
namespace PropShear

structure Path where
  /-- The number of slashes in front: none, one, or exactly two, which are kept apart from one. -/
  root : Nat
  names : List (List Char)
deriving DecidableEq, Repr

namespace Path

/-- A name that stands for a step. -/
def isName (s : List Char) : Bool := s ≠ [] && s ≠ ['.']

def rootOf (s : List Char) : Nat :=
  let slashes := (s.takeWhile (· == '/')).length
  if slashes = 0 then 0 else if slashes = 2 then 2 else 1

def ofText (s : List Char) : Path := ⟨rootOf s, (Text.pieces '/' s).filter isName⟩

def toText (p : Path) : List Char :=
  match List.replicate p.root '/' ++ Text.joined ['/'] p.names with
  | [] => ['.']
  | text => text

def isAbsolute (p : Path) : Bool := 0 < p.root

/-- Adds a name to collapsed names, the last one first: `..` takes back a name that is not itself
`..`, and is dropped at the root. -/
def addName (rooted : Bool) (names : List (List Char)) (name : List Char) : List (List Char) :=
  if name ≠ ['.', '.'] then name :: names
  else
    match names with
    | [] => if rooted then [] else [name]
    | last :: rest => if last = ['.', '.'] then name :: names else rest

/-- Takes back a name for every `..` after it. -/
def collapse (p : Path) : Path :=
  ⟨p.root, (p.names.foldl (addName p.isAbsolute) []).reverse⟩

/-- The collapsed form of a path's text; empty text stays empty. -/
def collapseText (s : List Char) : List Char :=
  if s.isEmpty then [] else (ofText s).collapse.toText

/-- Turns backslashes into slashes. -/
def forward (s : List Char) : List Char := s.map fun c => if c = '\\' then '/' else c

/-- Puts one path after another; an absolute one stands on its own. -/
def joinText (base s : List Char) : List Char :=
  if s.head? = some '/' then s
  else if base.isEmpty || base.getLast? = some '/' then base ++ s
  else base ++ '/' :: s

/-- The collapsed absolute path of a text, from a working directory. -/
def absoluteText (cwd s : List Char) : List Char := collapseText (joinText cwd s)

/-- The collapsed absolute form of a path, from a working directory. -/
def resolve (cwd : List (List Char)) (p : Path) : Path :=
  collapse ⟨1, if p.isAbsolute then p.names else cwd ++ p.names⟩

/-- A path seen from another one; an absolute path stands on its own. -/
def join (p q : Path) : Path := if q.isAbsolute then q else ⟨p.root, p.names ++ q.names⟩

/-- The path without its last name. -/
def parent (p : Path) : Path := ⟨p.root, p.names.dropLast⟩

/-- The path with another last name. -/
def withName (p : Path) (name : List Char) : Path := ⟨p.root, p.names.dropLast ++ [name]⟩

/-- What remains of a path below a directory. -/
def below? (directory p : Path) : Option Path :=
  if directory.root = p.root ∧ directory.names <+: p.names then
    some ⟨0, p.names.drop directory.names.length⟩
  else none

/-- The text of a path as a string. -/
def shown (p : Path) : String := String.ofList p.toText

/-- The last name. -/
def name (p : Path) : List Char := p.names.getLast?.getD []

/-- The last name as a path of its own, which is empty if there is no name. -/
def bare (p : Path) : Path := ⟨0, [p.name].filter isName⟩

/-- The last dot of a name and what follows it; nothing if the dot is the first or the last
character. -/
def extensionOf (name : List Char) : List Char :=
  let after := (name.reverse.takeWhile (· ≠ '.')).reverse
  let before := name.length - after.length
  if before ≤ 1 || after.isEmpty then [] else '.' :: after

def extension (p : Path) : List Char := extensionOf p.name

end Path
end PropShear
