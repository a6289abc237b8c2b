/-! Spans of character indices and their canonical form.

`Span.merge` turns any list of spans into the sorted list of maximal spans that cover the same
indices, with a gap between consecutive ones. -/
namespace PropShear

/-- The indices from `start` up to but not including `stop`. -/
structure Span where
  start : Nat
  stop : Nat
deriving DecidableEq, Repr

namespace Span

def size (s : Span) : Nat := s.stop - s.start

def contains (s : Span) (i : Nat) : Bool := s.start ≤ i && i < s.stop

/-- By start, then by end. -/
def before (s t : Span) : Bool := s.start < t.start || (s.start == t.start && s.stop ≤ t.stop)

/-- Joins each span to the ones that touch or overlap it; the list is sorted by start. -/
def mergeSorted (current : Span) : List Span → List Span
  | [] => [current]
  | s :: rest =>
    if s.start ≤ current.stop then mergeSorted ⟨current.start, max current.stop s.stop⟩ rest
    else current :: mergeSorted s rest

def merge (spans : List Span) : List Span :=
  match spans.mergeSort before with
  | [] => []
  | s :: rest => mergeSorted s rest

/-- Some span of the list holds the index. -/
def covers (spans : List Span) (i : Nat) : Bool := spans.any (·.contains i)

end Span
end PropShear
