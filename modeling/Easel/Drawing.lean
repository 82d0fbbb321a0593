import Easel.Attribute
import Easel.Decimal.Write
import Easel.Value

/-!
# Drawings

A drawing is a drawable object together with its attributes, as it is handed
to the screen.  Attributes that the kind of object does not have are zero or
empty.
-/

namespace Easel

/-- A drawable object and its attributes. -/
structure Drawing where
  kind : Element
  x : Float := 0.0
  y : Float := 0.0
  width : Float := 0.0
  height : Float := 0.0
  size : Float := 0.0
  color : String := ""
  message : String := ""
  image : String := ""
deriving Repr, BEq, Inhabited

namespace Drawing

/-- Set an attribute from the value of its slot. -/
def set (drawing : Drawing) (field : Attribute) (value : Value) : Drawing :=
  let number := value.number?.getD 0.0
  let text := value.string?.getD ""
  match field with
  | .height => { drawing with height := number }
  | .width => { drawing with width := number }
  | .x => { drawing with x := number }
  | .y => { drawing with y := number }
  | .size => { drawing with size := number }
  | .color => { drawing with color := text }
  | .message => { drawing with message := text }
  | .image => { drawing with image := text }

/-- Whether the boxes of two drawings share an area; touching is not enough. -/
def overlaps (drawing other : Drawing) : Bool :=
  drawing.x < other.x + other.width && other.x < drawing.x + drawing.width &&
    drawing.y < other.y + other.height && other.y < drawing.y + drawing.height

/-- A coordinate or length as programs print it. -/
def length (value : Float) : String :=
  Decimal.writeFixed 6 value

/-- The drawing as programs print it. -/
def text (drawing : Drawing) : String :=
  let place := s!"x: {length drawing.x}, y: {length drawing.y}"
  let box (name : String) : String :=
    s!"{name} = {place}, width: {length drawing.width}, "
  let round (name : String) : String :=
    s!"{box name}height {length drawing.height}, color {drawing.color}"
  let picture (name : String) : String :=
    s!"{box name}height: {length drawing.height}, image: {drawing.image}"
  match drawing.kind with
  | .square => round "Square"
  | .circle => round "Circle"
  | .text =>
    s!"Text = {place}, size: {length drawing.size}, message: {drawing.message}, " ++
      s!"color: {drawing.color}"
  | .background => picture "Background"
  | _ => picture "Image"

end Drawing

end Easel
