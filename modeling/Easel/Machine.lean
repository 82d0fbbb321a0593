import Easel.Frame
import Easel.Cell
import Easel.Screen

/-!
# The machine

The machine holds code, memory, the frames of the active functions and the
screen.  An instruction is a computation on the machine that can fail; what
it changed before a fault stays changed.
-/

namespace Easel

/-- The state of a program that is being executed. -/
structure Machine where
  code : Array Quad
  /-- The next quadruple to execute. -/
  position : Nat
  memory : Memory
  /-- Active invocations, the innermost first. -/
  frames : List Frame
  /-- Invocations whose arguments are being passed, the innermost first. -/
  pending : List Frame
  screen : Screen
deriving Inhabited

/-- A computation on the machine. -/
abbrev Exec := EStateM Fault Machine

/-- Where execution continues after an instruction. -/
inductive Outcome where
  | next
  | jump (target : Nat)
  | halt
deriving Repr, DecidableEq, Inhabited

namespace Machine

/-- The frame of the program's entry; nothing called it. -/
def rootFrame (code : Array Quad) : Frame :=
  { footprint := 0, calledFrom := code.size }

/-- A machine at the beginning of its code. -/
def start (code : Array Quad) (memory : Memory) (screen : Screen) : Machine :=
  { code, position := 0, memory, frames := [rootFrame code], pending := [],
    screen }

/-- A machine that is ready to execute a program. -/
def load (executable : Executable) (screen : Screen) : Except Fault Machine :=
  match Memory.loadConstants executable.constants Memory.empty with
  | .ok _ memory => .ok (start executable.code memory screen)
  | .error fault _ => .error fault

/-- Go back to the beginning; only code, constants and the screen stay. -/
def reset (machine : Machine) : Machine :=
  start machine.code machine.memory.constantsOnly machine.screen

@[simp]
theorem reset_start (code : Array Quad) (memory : Memory) (screen : Screen) :
    (start code memory screen).reset = start code memory.constantsOnly screen :=
  rfl

end Machine

namespace Exec

/-- Update memory. -/
def storing (update : Storing α) : Exec α := fun machine =>
  match update machine.memory with
  | .ok value memory => .ok value { machine with memory }
  | .error fault memory => .error fault { machine with memory }

/-- Read an operand. -/
def fetch (address : Address) : Exec Cell := do
  return ⟨address, ← MonadExcept.ofExcept ((← get).memory.read address)⟩

/-- Store a result. -/
def store (address : Address) (value : Value) : Exec Unit :=
  storing (Memory.write address value)

/-- Read an operand that has to be a truth value. -/
def fetchTruth (address : Address) : Exec Bool := do
  MonadExcept.ofExcept (← fetch address).truth

/-- Read an operand that has to be a whole number. -/
def fetchInteger (address : Address) : Exec Int64 := do
  MonadExcept.ofExcept (← fetch address).integer

/-- Read an operand that has to be an address. -/
def fetchPointer (address : Address) : Exec Address := do
  MonadExcept.ofExcept (← fetch address).pointer

end Exec

end Easel
