/-!
# Sets of code points

A set of characters is a list of ranges of code points, both ends included.
-/

namespace Tablespace

abbrev CodePointSet := List (Nat × Nat)

def CodePointSet.contains (ranges : CodePointSet) (c : Char) : Bool :=
  ranges.any fun (low, high) => low ≤ c.toNat && c.toNat ≤ high

end Tablespace
