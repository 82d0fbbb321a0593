import Easel.Fault
import Easel.Value

/-!
# Cells

A cell is a value together with the address from which it was read.  An
operation asks a cell for the kind of value that it needs; a value of another
type is a fault at the cell's address.
-/

namespace Easel

/-- A value and the address from which it was read. -/
structure Cell where
  address : Address
  value : Value
deriving Repr, Inhabited

namespace Cell

/-- The value that was needed, or a fault if the cell has another type. -/
def expect (cell : Cell) (expected : Element) (found : Option α) :
    Except Fault α :=
  match found with
  | some value => .ok value
  | none => .error (.typeCoercion cell.address expected cell.value.element)

/-- The cell as a truth value. -/
def truth (cell : Cell) : Except Fault Bool :=
  cell.expect .bool cell.value.bool?

/-- The cell as a number. -/
def number (cell : Cell) : Except Fault Float :=
  cell.expect .float cell.value.number?

/-- The cell as a whole number. -/
def integer (cell : Cell) : Except Fault Int64 :=
  cell.expect .int cell.value.int?

/-- The cell as a text. -/
def string (cell : Cell) : Except Fault String :=
  cell.expect .string cell.value.string?

/-- The cell as an address, which has 32 bits. -/
def pointer (cell : Cell) : Except Fault Address :=
  cell.expect .int <| cell.value.int?.bind fun value =>
    if Address.wrap value.toInt = value.toInt then some value.toInt else none

/-- The cell as the kind of an object. -/
def objectKind (cell : Cell) : Except Fault Element :=
  match cell.value with
  | .object kind => .ok kind
  | other => .error (.typeCoercion cell.address .square other.element)

end Cell

end Easel
