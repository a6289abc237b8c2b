import PropShear.Tree.Node
import PropShear.Text.CodePoint
import PropShear.Text.Integer

/-! The value of a string literal.

A literal is a sequence of fragments, which stand for themselves, and escape sequences. An escape
that names a number which is no code point stands for its own text. -/
namespace PropShear

/-- Why a tree cannot be classified. -/
inductive Fault where
  /-- The extent of a node cuts a character. -/
  | cutCharacter
  /-- An escape names a number of more than 32 bits. -/
  | escapeTooLarge
  /-- A declarator is not among the declarators of its declaration. -/
  | strayDeclarator
  /-- A declarator that has to be removed with the gap after it is the last one. -/
  | lastDeclarator
deriving DecidableEq, Repr

namespace Literal

def isLineTerminator (c : Char) : Bool :=
  c == '\n' || c == '\r' || c.toNat == 0x2028 || c.toNat == 0x2029

/-- What an escape of one character stands for. -/
def simpleEscape : Char → Char
  | 'n' => '\n'
  | 't' => '\t'
  | 'r' => '\r'
  | 'b' => Char.ofNat 8
  | 'f' => Char.ofNat 12
  | 'v' => Char.ofNat 11
  | '0' => Char.ofNat 0
  | c => c

/-- The code point of a numeric escape, or its own text if the number is none. -/
def numericEscape (raw : List Char) (number : Option Int) : Except Fault (List Nat) :=
  match number with
  | none => .ok (Text.codePoints raw)
  | some n =>
    if n < -0x80000000 ∨ 0x80000000 ≤ n then .error .escapeTooLarge
    else if 0 ≤ n ∧ n ≤ 0x10ffff then .ok [n.toNat]
    else .ok (Text.codePoints raw)

/-- The code points of an escape sequence, given with its backslash. -/
def cookEscape (raw : List Char) : Except Fault (List Nat) :=
  match raw.drop 1 with
  | [] => .ok []
  | head :: tail =>
    if isLineTerminator head then .ok []
    else if head = 'x' then numericEscape raw (Text.readInt? 16 tail)
    else if head = 'u' then
      match tail with
      | '\x7b' :: inner => numericEscape raw (Text.readInt? 16 inner.dropLast)
      | _ => numericEscape raw (Text.readInt? 16 tail)
    else if (head :: tail).all Text.isDigit && '0' ≤ head && head ≤ '7' &&
        !(tail.isEmpty && head == '0') then
      numericEscape raw (Text.readInt? 8 (head :: tail))
    else .ok [(simpleEscape head).toNat]

/-- The text of a node. -/
def textOf (source : List Char) (n : Node) : Except Fault (List Char) :=
  match n.text? source with
  | some text => .ok text
  | none => .error .cutCharacter

def cookPart (source : List Char) (n : Node) : Except Fault (List Nat) := do
  let text ← textOf source n
  if n.kind = .escapeSequence then cookEscape text else return Text.codePoints text

/-- The code points of a string literal; other nodes have no value. -/
def value? (source : List Char) (n : Node) : Except Fault (Option (List Nat)) :=
  if n.kind = .string then do
    let points ← n.namedChildren.mapM (cookPart source)
    return some (Text.joinPairs points.flatten)
  else return none

end Literal
end PropShear
