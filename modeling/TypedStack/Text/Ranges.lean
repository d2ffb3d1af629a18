/-!
# Sets of characters as ranges

A character property is a table of code point ranges, both ends included, in ascending order.
-/

set_option autoImplicit false

namespace TypedStack.Text

/-- Whether a character lies in one of the ranges. -/
def inRanges (table : List (Nat × Nat)) (c : Char) : Bool :=
  table.any fun r => r.1 ≤ c.toNat && c.toNat ≤ r.2

end TypedStack.Text
