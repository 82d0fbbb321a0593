import Easel.Quad

/-!
# Faults

A fault stops a running program.  Each constructor is one cause; the texts
stand together in `Fault.message`.
-/

namespace Easel

/-- Ways in which code can be malformed. -/
inductive Misuse where
  | badConstant (text : String) (element : Element)
  | notPassable (element : Element)
  | paramWithoutEra
  | callWithoutEra
  | callWithoutFrame
  | returnWithoutFrame
  | frameNotSaved
  | unknownTypeCode (code : Address)
  | notMath (operation : Operation)
  | notMemory (operation : Operation)
  | notDisplay (operation : Operation)
deriving Repr, DecidableEq, Inhabited

/-- What is wrong with the code. -/
def Misuse.message : Misuse → String
  | .badConstant text element =>
    s!"constant {text} is not a valid {element.keyword}"
  | .notPassable element => s!"cannot pass a value of type {element.keyword}"
  | .paramWithoutEra => "Param without a pending Era"
  | .callWithoutEra => "Call without a pending Era"
  | .callWithoutFrame => "Call with an empty call stack"
  | .returnWithoutFrame => "Ret with an empty call stack"
  | .frameNotSaved => "caller frame missing on return"
  | .unknownTypeCode code => s!"unknown type code {code}"
  | .notMath operation => s!"{operation.name} is not a math operation"
  | .notMemory operation => s!"{operation.name} is not a memory operation"
  | .notDisplay operation => s!"{operation.name} is not a display operation"

/-- Why a running program was stopped. -/
inductive Fault where
  /-- The quadruple at `position` divided by zero. -/
  | divisionByZero (position : Nat)
  /-- A list of `size` items has no item `index`. -/
  | indexOutOfBounds (index : Int64) (size : Address)
  /-- Nothing can be read, written or executed at the address. -/
  | invalidAddress (address : Address)
  /-- A value of type `found` was met where `expected` was needed. -/
  | typeCoercion (address : Address) (expected found : Element)
  | invalidInstruction (misuse : Misuse)
  /-- The program executed as many instructions as it was allowed. -/
  | stepLimit (limit : Nat)
deriving Repr, DecidableEq, Inhabited

/-- The text of a fault. -/
def Fault.message : Fault → String
  | .divisionByZero position => s!"Division by zero at quad {position}"
  | .indexOutOfBounds index size =>
    s!"Index {index.toInt} out of bounds for list of size {size}"
  | .invalidAddress address => s!"Invalid address {address}"
  | .typeCoercion address expected found =>
    s!"Cannot store {found.keyword} at address {address} (expected {expected.keyword})"
  | .invalidInstruction misuse => s!"Invalid instruction: {misuse.message}"
  | .stepLimit limit => s!"Step limit of {limit} instructions exceeded"

end Easel
