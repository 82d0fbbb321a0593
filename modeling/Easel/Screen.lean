import Easel.Drawing

/-!
# The screen

A program writes lines, draws on a canvas and asks for keys.  The screen
records what it is told and answers from a script: the keys that are held
down, and the number of polls after which its window counts as closed.
-/

namespace Easel

/-- The shapes that can be drawn. -/
inductive Shape where
  | square
  | circle
  | image
  | text
deriving Repr, DecidableEq, Inhabited

/-- The shape in which an object is drawn; a background is an image. -/
def Shape.ofElement : Element → Shape
  | .square => .square
  | .circle => .circle
  | .text => .text
  | _ => .image

/-- A recorded change of the canvas. -/
inductive Stroke where
  | draw (shape : Shape) (drawing : Drawing)
  | clear
  | update
deriving Repr, BEq, Inhabited

/-- What the program told the screen, and what the screen will answer. -/
structure Screen where
  lines : Array String := #[]
  strokes : Array Stroke := #[]
  /-- The keys that are held down. -/
  held : List String := []
  /-- How many frames were shown. -/
  frames : Nat := 0
  /-- How often the window was asked whether it is closed. -/
  polls : Nat := 0
  closeAfter : Option Nat := none
deriving Repr, Inhabited

namespace Screen

/-- Hold a key down. -/
def press (screen : Screen) (key : String) : Screen :=
  { screen with held := key :: screen.held.filter (· ≠ key) }

/-- Let a key go. -/
def release (screen : Screen) (key : String) : Screen :=
  { screen with held := screen.held.filter (· ≠ key) }

/-- Whether a key is held down. -/
def keyPressed (screen : Screen) (key : String) : Bool :=
  screen.held.contains key

/-- Draw an object. -/
def draw (screen : Screen) (shape : Shape) (drawing : Drawing) : Screen :=
  { screen with strokes := screen.strokes.push (.draw shape drawing) }

/-- Record that the canvas is wiped; what was recorded before stays. -/
def clear (screen : Screen) : Screen :=
  { screen with strokes := screen.strokes.push .clear }

/-- Show the current frame. -/
def update (screen : Screen) : Screen :=
  { screen with
    strokes := screen.strokes.push .update
    frames := screen.frames + 1 }

/-- Write a line. -/
def print (screen : Screen) (text : String) : Screen :=
  { screen with lines := screen.lines.push text }

/-- Ask whether the window is closed. -/
def poll (screen : Screen) : Bool × Screen :=
  let polls := screen.polls + 1
  (screen.closeAfter.any (· ≤ polls), { screen with polls })

/-- The written lines as one text. -/
def output (screen : Screen) : String :=
  "\n".intercalate screen.lines.toList

end Screen

/-- Something that is asked of a screen. -/
inductive Request where
  | draw (shape : Shape) (drawing : Drawing)
  | clear
  | update
  | print (text : String)
  | shutdown
  | keyPressed (key : String)
  | intersects (first second : Drawing)
  | poll
deriving Repr, BEq, Inhabited

/-- Carry out a request; questions are answered with a truth value. -/
def Screen.handle (screen : Screen) : Request → Option Bool × Screen
  | .draw shape drawing => (none, screen.draw shape drawing)
  | .clear => (none, screen.clear)
  | .update => (none, screen.update)
  | .print text => (none, screen.print text)
  | .shutdown => (none, screen)
  | .keyPressed key => (some (screen.keyPressed key), screen)
  | .intersects first second => (some (first.overlaps second), screen)
  | .poll => let (closed, polled) := screen.poll; (some closed, polled)

end Easel
