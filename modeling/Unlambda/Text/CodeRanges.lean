/-!
# Sets of characters given by ranges of code points

A property of characters is tabulated as a list of ranges of code points, both ends
included, in increasing order.

## Main definitions

* `Unlambda.Text.CodeRanges`: the list of ranges
* `Unlambda.Text.CodeRanges.contains`: whether a character lies in one of them
-/

namespace Unlambda.Text

/-- Ranges of code points, both ends included. -/
abbrev CodeRanges := List (Nat × Nat)

namespace CodeRanges

/-- Whether `x` lies in one of the ranges. -/
def contains (ranges : CodeRanges) (x : Char) : Bool :=
  ranges.any fun range => range.1 ≤ x.toNat && x.toNat ≤ range.2

end CodeRanges

end Unlambda.Text
