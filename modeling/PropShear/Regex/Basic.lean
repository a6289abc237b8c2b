import PropShear.Text.Blank
import PropShear.Text.Digit
import PropShear.Text.Word

/-! Regular expressions that are searched for in a text.

An expression is matched from a position; `ends` lists the positions where the match may end, so
an expression occurs in a text if some position has an end. There are no references back to what a
group has matched, expressions do not look behind, and case is ignored for ASCII letters only. -/
namespace PropShear

namespace Regex

/-- How letters, lines and line feeds are treated. -/
structure Flags where
  ignoreCase : Bool := false
  multiline : Bool := false
  dotAll : Bool := false
deriving DecidableEq, Repr

/-- Members of a character class. -/
inductive Item where
  | range (low high : Char)
  | digit (negated : Bool)
  | word (negated : Bool)
  | blank (negated : Bool)
deriving DecidableEq, Repr

inductive Expr where
  | empty
  /-- Any character; line feeds only if the flags say so. -/
  | dot
  | oneOf (negated : Bool) (items : List Item)
  | lineStart
  | lineEnd
  | textStart
  | textEnd
  | wordBoundary (negated : Bool)
  | sequence (first second : Expr)
  | choice (first second : Expr)
  | repeated (inner : Expr) (least : Nat) (most : Option Nat)
  | ahead (negated : Bool) (inner : Expr)
deriving DecidableEq, Repr

def Item.accepts (c : Char) : Item → Bool
  | .range low high => low ≤ c && c ≤ high
  | .digit negated => Text.isDecimal c != negated
  | .word negated => Text.isWordChar c != negated
  | .blank negated => Text.isBlank c != negated

def classAccepts (flags : Flags) (items : List Item) (c : Char) : Bool :=
  items.any fun item => item.accepts c ||
    (flags.ignoreCase && (item.accepts c.toLower || item.accepts c.toUpper))

/-- The character at a position is part of a word. -/
def wordAt (text : Array Char) (i : Nat) : Bool := (text[i]?.map Text.isWordChar).getD false

/-- The positions reached by any number of further steps, at most `n` of them. -/
def closure (step : Nat → List Nat) : Nat → List Nat → List Nat
  | 0, reached => reached
  | n + 1, reached =>
    let next := ((reached.flatMap step).filter fun i => !reached.contains i).eraseDups
    if next.isEmpty then reached else closure step n (reached ++ next)

/-- The positions reached by exactly `n` steps. -/
def steps (step : Nat → List Nat) : Nat → List Nat → List Nat
  | 0, reached => reached
  | n + 1, reached => steps step n (reached.flatMap step).eraseDups

/-- One character, if it is accepted. -/
def advanceIf (text : Array Char) (accepted : Char → Bool) (i : Nat) : List Nat :=
  match text[i]? with
  | some c => if accepted c then [i + 1] else []
  | none => []

/-- Where a match of the expression from a position may end. -/
def ends (flags : Flags) (text : Array Char) : Expr → Nat → List Nat
  | .empty, i => [i]
  | .dot, i => advanceIf text (fun c => flags.dotAll || c != '\n') i
  | .oneOf negated items, i => advanceIf text (fun c => classAccepts flags items c != negated) i
  | .lineStart, i =>
    if i = 0 || (flags.multiline && text[i - 1]? == some '\n') then [i] else []
  | .lineEnd, i =>
    if i = text.size || (text[i]? == some '\n' && (flags.multiline || i + 1 = text.size)) then [i]
    else []
  | .textStart, i => if i = 0 then [i] else []
  | .textEnd, i => if i = text.size then [i] else []
  | .wordBoundary negated, i =>
    let before := i != 0 && wordAt text (i - 1)
    if (before != wordAt text i) != negated then [i] else []
  | .sequence first second, i =>
    ((ends flags text first i).flatMap (ends flags text second)).eraseDups
  | .choice first second, i => (ends flags text first i ++ ends flags text second i).eraseDups
  | .repeated inner least most, i =>
    let start := steps (ends flags text inner) least [i]
    closure (ends flags text inner) (most.elim text.size (· - least)) start
  | .ahead negated inner, i => if (ends flags text inner i).isEmpty == negated then [i] else []

end Regex

/-- An expression as it was written, with its flags and its meaning. -/
structure Regex where
  source : String
  flags : Regex.Flags
  expr : Regex.Expr
deriving Repr

namespace Regex

/-- Two expressions are the same if they are written the same with the same flags. -/
def same (a b : Regex) : Bool := a.source == b.source && a.flags == b.flags

/-- The expression occurs in the text. -/
def occursIn (r : Regex) (text : List Char) : Bool :=
  let chars := text.toArray
  (List.range (chars.size + 1)).any fun i => !(ends r.flags chars r.expr i).isEmpty

end Regex
end PropShear
