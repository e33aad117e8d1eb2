/-!
Classes of characters given by ranges of code points.
-/

namespace SlotLisp

/-- Closed ranges of code points in ascending order. -/
abbrev Ranges := List (Nat × Nat)

def Ranges.contains (rs : Ranges) (c : Char) : Bool :=
  rs.any fun r => r.1 ≤ c.toNat && c.toNat ≤ r.2

end SlotLisp
