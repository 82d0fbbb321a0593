/-!
# Sets of characters given by runs

A property of many characters is stored as the lengths of the runs of code
points that have it and that do not, in turn.  The first run is of those that
do not have it, and the code points behind the last run do not have it either.
-/

namespace Easel.Text

/-- The lengths of the runs of code points outside and inside, in turn. -/
abbrev Runs := List Nat

namespace Runs

/-- Whether the run of a code point is inside, if the first is `inside`. -/
def covers : Runs → Bool → Nat → Bool
  | [], _, _ => false
  | run :: rest, inside, point =>
    if point < run then inside else covers rest (!inside) (point - run)

/-- Membership of a character in the set. -/
def contains (runs : Runs) (character : Char) : Bool :=
  runs.covers false character.toNat

end Runs

end Easel.Text
