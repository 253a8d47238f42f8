/-!
# Ranges of code points

A character property beyond ASCII is a table of closed ranges of code points, in rising order.
ASCII is decided by rule in the module of each property, so that a statement about a space, a
quote or a digit never looks into a table.
-/

namespace JackToVm

/-- A closed range of code points, first and last. -/
abbrev CodeRange := Nat × Nat

/-- The character lies in one of the ranges. -/
def inRanges (table : List CodeRange) (c : Char) : Bool :=
  table.any fun r => r.1 ≤ c.toNat && c.toNat ≤ r.2

end JackToVm
