import Easel.Screen

/-!
# A journal of screen requests

A journal stands in front of a screen.  It numbers the requests that pass
through it and writes a line about each of them.
-/

namespace Easel

/-- A screen whose requests are counted. -/
structure Journal where
  screen : Screen
  count : Nat := 0
deriving Repr, Inhabited

namespace Journal

/-- The line at the beginning of every journal. -/
def opening : String := "=== DISPLAY LOGGING STARTED ==="

/-- The line at the end of a journal with `count` numbered entries. -/
def closing (count : Nat) : String :=
  s!"=== DISPLAY LOGGING ENDED ({count} ops) ==="

/-- Coordinates are written positionally, whole numbers without a point. -/
def coordinates : Decimal.Layout := ⟨none, false⟩

/-- The name of an object's kind. -/
def kindName : Element → String
  | .float => "Float"
  | .char => "Char"
  | .bool => "Bool"
  | .int => "Int"
  | .string => "String"
  | .void => "Void"
  | .square => "Square"
  | .circle => "Circle"
  | .image => "Image"
  | .text => "Text"
  | .background => "Background"

/-- A drawn object by its kind and box. -/
def box (drawing : Drawing) : String :=
  let x := coordinates.write drawing.x
  let y := coordinates.write drawing.y
  let width := coordinates.write drawing.width
  let height := coordinates.write drawing.height
  s!"({kindName drawing.kind} at {x},{y} size {width}x{height})"

/-- How a drawing request is described. -/
def describeDraw (drawing : Drawing) : Shape → String
  | .square => s!"draw_square{box drawing}"
  | .circle => s!"draw_circle{box drawing}"
  | .image => s!"draw_image{box drawing}"
  | .text => s!"draw_text('{drawing.message}')"

/-- Characters of a printed line that the journal shows. -/
def previewLength : Nat := 50

/-- A line break within a printed line, made visible. -/
def showBreak : Char → List Char
  | '\n' => ['\\', 'n']
  | '\r' => ['\\', 'r']
  | character => [character]

/-- The beginning of a printed line. -/
def preview (text : String) : String :=
  String.ofList ((text.toList.take previewLength).flatMap showBreak)

/-- A truth value. -/
def truthName (truth : Bool) : String :=
  if truth then "true" else "false"

/-- The numbered entry about a request, if it has one. -/
def entry (answer : Bool) : Request → Option String
  | .draw shape drawing => some (describeDraw drawing shape)
  | .clear => some "clear()"
  | .update => some "update()"
  | .print text => some s!"print('{preview text}')"
  | .shutdown => some "shutdown()"
  | .keyPressed key => some s!"key_pressed('{key}') -> Ok({truthName answer})"
  | .intersects _ _ | .poll => none

/-- Lines about a request that carry no number. -/
def remarks (count : Nat) (answer : Bool) : Request → List String
  | .shutdown => [closing count]
  | .intersects first second =>
    [s!"intersects({kindName first.kind}, {kindName second.kind}) -> {truthName answer}"]
  | _ => []

/-- A number with at least four digits. -/
def numbered (count : Nat) : String :=
  let digits := toString count
  String.ofList (List.replicate (4 - digits.length) '0') ++ digits

/-- Pass a request on to the screen; the lines about it come first. -/
def handle (journal : Journal) (request : Request) :
    List String × Option Bool × Journal :=
  let (reply, screen) := journal.screen.handle request
  let answer := reply.getD false
  match entry answer request with
  | some text =>
    let count := journal.count + 1
    (s!"[OP {numbered count}] {text}" :: remarks count answer request, reply,
      ⟨screen, count⟩)
  | none =>
    (remarks journal.count answer request, reply, ⟨screen, journal.count⟩)

end Journal

end Easel
