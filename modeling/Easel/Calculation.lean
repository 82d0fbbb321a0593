import Easel.Cell

/-!
# Calculations

Arithmetic on two whole numbers is exact up to wrapping around at 64 bits; as
soon as one operand is not a whole number both are treated as numbers.
Comparisons work on numbers and on characters, and any two values can be
tested for equality.
-/

namespace Easel.Calculation

/-- Combine two whole numbers, or else two numbers. -/
def combine (integers : Int64 → Int64 → Except Fault Int64)
    (numbers : Float → Float → Except Fault Float)
    (left right : Cell) : Except Fault Value :=
  match left.value, right.value with
  | .int first, .int second => Value.int <$> integers first second
  | _, _ => do
    let first ← left.number
    let second ← right.number
    Value.float <$> numbers first second

/-- The quotient of two operands; `position` is blamed for a zero divisor. -/
def divide (position : Nat) : Cell → Cell → Except Fault Value :=
  combine
    (fun first second =>
      if second = 0 then throw (.divisionByZero position)
      else return first / second)
    (fun first second =>
      if second == 0.0 then throw (.divisionByZero position)
      else return first / second)

/-- The first operand raised to the power of the second. -/
def power (left right : Cell) : Except Fault Value := do
  let base ← left.number
  let exponent ← right.number
  return .float (base.pow exponent)

/-- Whether the first operand is less than the second. -/
def less (left right : Cell) : Except Fault Bool :=
  match left.value, right.value with
  | .char first, .char second => return first < second
  | _, _ => do
    let first ← left.number
    let second ← right.number
    return first < second

/-- Whether the first operand is greater than the second. -/
def greater (left right : Cell) : Except Fault Bool :=
  match left.value, right.value with
  | .char first, .char second => return second < first
  | _, _ => do
    let first ← left.number
    let second ← right.number
    return second < first

/-- Whether two values are equal; numbers are compared by magnitude. -/
def equal (left right : Value) : Bool :=
  match left, right with
  | .int first, .int second => first == second
  | _, _ =>
    match left.number?, right.number? with
    | some first, some second => first == second
    | _, _ => left == right

/-- Combine two truth values; both operands have been computed by then. -/
def connect (connective : Bool → Bool → Bool) (left right : Cell) :
    Except Fault Value := do
  let first ← left.truth
  let second ← right.truth
  return .bool (connective first second)

/-- The result of an operation with two operands. -/
def binary (position : Nat) (operation : Operation) (left right : Cell) :
    Except Fault Value :=
  match operation with
  | .add => combine (fun first second => return first + second)
      (fun first second => return first + second) left right
  | .sub => combine (fun first second => return first - second)
      (fun first second => return first - second) left right
  | .mult => combine (fun first second => return first * second)
      (fun first second => return first * second) left right
  | .div => divide position left right
  | .pow => power left right
  | .less => Value.bool <$> less left right
  | .greater => Value.bool <$> greater left right
  | .equal => return .bool (equal left.value right.value)
  | .and => connect and left right
  | .or => connect or left right
  | other => throw (.invalidInstruction (.notMath other))

/-- The result of an operation with one operand, if it is such a one. -/
def unary? (operation : Operation) (cell : Cell) :
    Option (Except Fault Value) :=
  match operation with
  | .not => some do return .bool !(← cell.truth)
  | .sqrt => some do return .float (← cell.number).sqrt
  | _ => none

end Easel.Calculation
