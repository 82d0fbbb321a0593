import Easel.Machine

/-!
# Talking to the screen

Writing, drawing and asking for keys.  An object is read together with the
attributes that its kind has.
-/

namespace Easel

/-- Read the object at an address together with its attributes. -/
def Memory.readDrawing (memory : Memory) (address : Address) :
    Except Fault Drawing := do
  let kind ← Cell.objectKind ⟨address, ← memory.read address⟩
  kind.attributes.foldlM
    (fun drawing field => do
      return drawing.set field (← memory.read (address + field.offset)))
    { kind }

namespace Exec

/-- Read an object together with its attributes. -/
def fetchDrawing (address : Address) : Exec Drawing := do
  MonadExcept.ofExcept ((← get).memory.readDrawing address)

/-- Change the screen. -/
def onScreen (change : Screen → Screen) : Exec Unit :=
  modify fun machine => { machine with screen := change machine.screen }

/-- The text of the value or object at an address. -/
def printed (address : Address) : Exec String := do
  match (← fetch address).value with
  | .object _ => return (← fetchDrawing address).text
  | value => return value.text

/-- Execute an instruction that talks to the screen. -/
def interact (quad : Quad) : Exec Outcome := do
  match quad.operation with
  | .print =>
    let text ← printed quad.result
    onScreen (·.print text)
  | .render =>
    let drawing ← fetchDrawing quad.left
    onScreen (·.draw (Shape.ofElement drawing.kind) drawing)
  | .clear => onScreen (·.clear)
  | .update => onScreen (·.update)
  | .keyPressed =>
    let key ← MonadExcept.ofExcept (← fetch quad.left).string
    store quad.result (.bool ((← get).screen.keyPressed key))
  | .checkCollision =>
    let first ← fetchDrawing quad.left
    let second ← fetchDrawing quad.right
    store quad.result (.bool (first.overlaps second))
  | other => throw (.invalidInstruction (.notDisplay other))
  return .next

end Exec

end Easel
