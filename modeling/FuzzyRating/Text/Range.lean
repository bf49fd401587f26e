/-!
Sets of characters given by ranges of code points.
-/

namespace FuzzyRating.Text

/-- Whether a code point lies in one of the ranges, ends included. -/
def inRanges (ranges : List (Nat × Nat)) (n : Nat) : Bool :=
  ranges.any fun range => range.1 ≤ n && n ≤ range.2

end FuzzyRating.Text
