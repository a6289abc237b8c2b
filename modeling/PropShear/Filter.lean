import PropShear.Glob.Directory
import PropShear.Path.Basic
import PropShear.Regex.Basic

/-! Which files are eligible.

A file is named by a path, whose `.` and `..` are collapsed first. It is eligible if no exclude
pattern matches it and some include pattern does; without include patterns all others are. A
pattern is a glob over the whole path or a regular expression searched for in it. Relative globs
that do not start with `**` are anchored at a base directory. -/
namespace PropShear

inductive Pattern where
  | glob (text : String)
  | regex (r : Regex)

/-- Where relative globs are anchored. -/
inductive Base where
  /-- Nowhere: they are matched as they stand. -/
  | verbatim
  | directory (path : List Char)
  /-- At something that is no directory name. -/
  | unusable

/-- A relative glob had to be anchored at something that is no directory name. -/
structure BaseError where

structure Filter where
  included : List Pattern
  excluded : List Pattern

namespace Filter

/-- The glob with its base in front, collapsed. -/
def anchor (base : Base) (glob : List Char) : Except BaseError (List Char) :=
  let pattern := Path.forward glob
  if pattern.head? = some '/' || ['*', '*'].isPrefixOf glob then .ok (Path.collapseText pattern)
  else
    match base with
    | .verbatim => .ok (Path.collapseText pattern)
    | .directory path =>
      .ok (Path.collapseText (Path.joinText (Glob.escape (Path.forward path)) pattern))
    | .unusable => .error ⟨⟩

def anchorPattern (base : Base) : Pattern → Except BaseError Pattern
  | .glob text => return .glob (String.ofList (← anchor base text.toList))
  | .regex r => return .regex r

/-- The filter of include and exclude patterns with relative globs anchored. -/
def make (base : Base) (included excluded : List Pattern) : Except BaseError Filter := do
  let included ← included.mapM (anchorPattern base)
  let excluded ← excluded.mapM (anchorPattern base)
  return ⟨included, excluded⟩

def matchesPath (path : List Char) : Pattern → Bool
  | .glob text => Glob.isPathMatch text.toList path
  | .regex r => r.occursIn path

/-- The form of a path that patterns are matched against. -/
def pathOf (id : List Char) : List Char := Path.collapseText (Path.forward id)

/-- Whether a filter accepts an id, for any way to match a path against patterns. -/
def accepts (hits : List Char → Pattern → Bool) (f : Filter) (id : List Char) : Bool :=
  if id.isEmpty || id.contains (Char.ofNat 0) then false
  else if f.excluded.any (hits (pathOf id)) then false
  else f.included.isEmpty || f.included.any (hits (pathOf id))

def isEligible (f : Filter) (id : List Char) : Bool := accepts matchesPath f id

end Filter
end PropShear
