import Easel.Calculation
import Easel.Machine

/-!
# Executing calculations

A calculation reads its operands from left to right, computes, and stores the
result.
-/

namespace Easel.Exec

/-- Compute the result of a calculation. -/
def evaluate (quad : Quad) : Exec Value := do
  let left ← fetch quad.left
  match Calculation.unary? quad.operation left with
  | some result => MonadExcept.ofExcept result
  | none =>
    let right ← fetch quad.right
    MonadExcept.ofExcept
      (Calculation.binary (← get).position quad.operation left right)

/-- Execute a calculation. -/
def calculate (quad : Quad) : Exec Outcome := do
  store quad.result (← evaluate quad)
  return .next

end Easel.Exec
