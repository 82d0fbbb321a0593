import Easel.Code.Emit
import Easel.Program.Parser

/-!
# Compiling source text

Reading, checking and generation in one step.  The first stage that refuses
the program decides the error.
-/

namespace Easel

/-- Check a program and generate its code. -/
def Program.compile (program : Program) (entry : String) :
    Except CompileError Executable := do
  (← program.check entry).generate

/-- The executable of a source text that starts in the function `entry`. -/
def compile (source entry : String) : Except CompileError Executable := do
  (← Program.parse source).compile entry

end Easel
