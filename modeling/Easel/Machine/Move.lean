import Easel.Machine

/-!
# Moving values

Values are moved between slots that an instruction names or that a pointer
names.  A pointer is computed from the first slot of a list and an index;
`checkBound` makes sure beforehand that the index belongs to the list.
-/

namespace Easel.Exec

/-- Store the address of an item of the list that starts at `base`. -/
def pointTo (base index result : Address) : Exec Unit := do
  let index ← fetchInteger index
  let location ← MonadExcept.ofExcept (locate base)
  let pointer := base + index.toInt * location.element.slotWidth
  store result (.int (Int64.ofInt pointer))

/-- Fail unless the operand is an index of a list of the given size. -/
def checkIndex (index size : Address) : Exec Unit := do
  let index ← fetchInteger index
  if 0 ≤ index.toInt ∧ index.toInt < size then return ()
  else throw (.indexOutOfBounds index size)

/-- Let the slots of a declared variable read as zero. -/
def declare (address count code : Address) : Exec Unit := do
  match Element.ofCode? code with
  | none => throw (.invalidInstruction (.unknownTypeCode code))
  | some element =>
    storing (Memory.clear address (max count.toNat 1 * element.slotWidth))

/-- Execute an instruction that moves values. -/
def move (quad : Quad) : Exec Outcome := do
  match quad.operation with
  | .assign => storing (Memory.copy quad.left quad.result)
  | .assignIndex =>
    let target ← fetchPointer quad.result
    storing (Memory.copy quad.left target)
  | .assignIndexInverse =>
    let source ← fetchPointer quad.left
    storing (Memory.copy source quad.result)
  | .addAddress => pointTo quad.left quad.right quad.result
  | .checkBound => checkIndex quad.result quad.left
  | .init => declare quad.left quad.right quad.result
  | other => throw (.invalidInstruction (.notMemory other))
  return .next

end Easel.Exec
