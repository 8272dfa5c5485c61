/-!
# Classes of characters given by ranges

A class of characters is a list of closed ranges of code points.
-/

namespace Lisplet.Text

/-- A list of closed ranges of code points. -/
abbrev Ranges := List (Nat × Nat)

/-- A character is in a class when its code point is in one of the ranges. -/
def Ranges.contains (ranges : Ranges) (c : Char) : Bool :=
  ranges.any fun r => decide (r.1 ≤ c.toNat) && decide (c.toNat ≤ r.2)

end Lisplet.Text
