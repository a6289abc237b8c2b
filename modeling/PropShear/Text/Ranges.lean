/-! Classes of characters given as a list of code point ranges. -/
namespace PropShear.Text

/-- Inclusive ranges of code points, in increasing order. -/
structure Ranges where
  bounds : List (Nat × Nat)

def Ranges.contains (r : Ranges) (n : Nat) : Bool :=
  r.bounds.any fun (low, high) => low ≤ n && n ≤ high

end PropShear.Text
