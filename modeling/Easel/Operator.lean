import Easel.Ty

/-!
# Operators and their typing

Nine operators join two operands and one negates a truth value.  Whether an
operator applies depends on the elements of its operands alone; lists and
objects are never operands.
-/

namespace Easel

/-- An operator between two operands. -/
inductive Operator where
  | add
  | sub
  | mul
  | div
  | less
  | greater
  | equal
  | and
  | or
deriving Repr, DecidableEq, Inhabited

namespace Operator

/-- All operators between two operands. -/
def all : List Operator :=
  [add, sub, mul, div, less, greater, equal, and, or]

/-- The operator as source text writes it. -/
def symbol : Operator → String
  | add => "+"
  | sub => "-"
  | mul => "*"
  | div => "/"
  | less => "<"
  | greater => ">"
  | equal => "=="
  | and => "&&"
  | or => "||"

/-- The operator with a given spelling. -/
def ofSymbol? (symbol : String) : Option Operator :=
  all.find? fun operator => operator.symbol == symbol

/-- The element of the result of arithmetic: float if an operand is. -/
def arithmetic? : Element → Element → Option Element
  | .int, .int => some .int
  | .int, .float | .float, .int | .float, .float => some .float
  | _, _ => none

/-- Whether two elements can be put in order. -/
def ordered : Element → Element → Bool
  | .char, .char => true
  | left, right => left.isNumeric && right.isNumeric

/-- Whether two elements can be tested for equality. -/
def comparable : Element → Element → Bool
  | .char, .char | .bool, .bool | .string, .string => true
  | left, right => left.isNumeric && right.isNumeric

/-- The element of the result, if the operator applies to the two elements. -/
def element? : Operator → Element → Element → Option Element
  | add, left, right | sub, left, right | mul, left, right | div, left, right =>
    arithmetic? left right
  | less, left, right | greater, left, right =>
    if ordered left right then some .bool else none
  | equal, left, right =>
    if comparable left right then some .bool else none
  | and, left, right | or, left, right =>
    if left = .bool ∧ right = .bool then some .bool else none

/-- The type of the result, if the operator applies to the two types. -/
def type? (operator : Operator) (left right : Ty) : Option Ty :=
  if left.isList || right.isList then none
  else (operator.element? left.element right.element).map Ty.basic

/-- The type of a negation, if its operand is a truth value. -/
def negation? (operand : Ty) : Option Ty :=
  if operand.element = .bool ∧ !operand.isList then
    some (Ty.basic .bool) else none

end Operator

end Easel
