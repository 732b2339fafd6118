/-!
# Sets of characters as ranges
-/

namespace BlockModels.Text

/-- The code point lies in one of the ranges, both ends included. -/
def inRanges (n : Nat) (ranges : List (Nat × Nat)) : Bool :=
  ranges.any fun r => decide (r.1 ≤ n) && decide (n ≤ r.2)

end BlockModels.Text
