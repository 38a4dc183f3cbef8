/-!
# Sets of code points

A set of code points is a list of closed ranges in ascending order.
-/

namespace Manifest.Unicode

/-- Closed ranges of code points. -/
abbrev Ranges := List (Nat × Nat)

/-- The character lies in one of the ranges. -/
def Ranges.has (rs : Ranges) (c : Char) : Bool :=
  rs.any fun (first, last) => first ≤ c.toNat && c.toNat ≤ last

end Manifest.Unicode
