import Easel.Machine.Calculate
import Easel.Machine.Call
import Easel.Machine.Interact
import Easel.Machine.Move

/-!
# Executing instructions
-/

namespace Easel

/-- Execute one quadruple.  The machine's position is left to the caller. -/
def Exec.execute (quad : Quad) : Exec Outcome :=
  match quad.operation with
  | .goto | .gotoTrue | .gotoFalse => branch quad
  | .add | .sub | .mult | .div | .less | .greater | .equal | .and | .or | .not
  | .pow | .sqrt => calculate quad
  | .assign | .assignIndex | .assignIndexInverse | .addAddress | .checkBound
  | .init =>
    move quad
  | .era => announce quad.left
  | .param => pass quad.left quad.right
  | .call => enter quad.left
  | .ret => leave quad.result
  | .print | .render | .clear | .update | .keyPressed | .checkCollision =>
    interact quad

end Easel
