/-!
# Sets of characters given by ranges

A property of characters is stored as an ascending list of closed ranges of
code points.  The list is the whole definition of the property, so two
properties can be compared range by range.
-/

namespace Easel.Text

/-- Closed ranges of code points. -/
abbrev Ranges := List (Nat × Nat)

/-- Membership of a character in one of the ranges. -/
def Ranges.contains (ranges : Ranges) (character : Char) : Bool :=
  ranges.any fun range =>
    range.1 ≤ character.toNat && character.toNat ≤ range.2

end Easel.Text
