import PropShear.Text.CodePoint
import PropShear.Text.Quoted

/-! Names of modules.

A program may name a module by a literal with an escape for half of a surrogate pair, which no text
holds. So names are compared as lists of code points. -/
namespace PropShear

structure Specifier where
  points : List Nat
deriving DecidableEq, Repr

namespace Specifier

/-- The name that a text spells. -/
def ofText (s : String) : Specifier := ⟨Text.codePoints s.toList⟩

instance : Coe String Specifier := ⟨ofText⟩

/-- Writes code points; one that is no character is escaped. -/
def render (write : Char → List Char) (s : Specifier) : List Char :=
  s.points.flatMap fun n =>
    if h : n.isValidChar then write (Char.ofNatAux n h) else Text.escape n

def shown (s : Specifier) : String := String.ofList (s.render fun c => [c])

/-- The name in quotes, as texts are quoted. -/
def quoted (s : Specifier) : String :=
  let holds (c : Char) : Bool := s.points.contains c.toNat
  let mark := if holds '\'' && !holds '"' then '"' else '\''
  String.ofList (mark :: s.render (Text.quoteChar mark) ++ [mark])

end Specifier
end PropShear
