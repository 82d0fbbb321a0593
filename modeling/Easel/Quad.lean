import Easel.Address

/-!
# Quadruples

Code is a sequence of quadruples: an operation and three address fields, two
operands and a result.  What a field means depends on the operation; it can
be a slot, a position in the code, a count or nothing at all.
-/

namespace Easel

/-- What a quadruple does. -/
inductive Operation where
  | goto
  | gotoTrue
  | gotoFalse
  | add
  | sub
  | mult
  | div
  | less
  | greater
  | equal
  | and
  | or
  | not
  | assign
  | assignIndex
  | assignIndexInverse
  | addAddress
  | checkBound
  | init
  | era
  | param
  | call
  | ret
  | print
  | render
  | clear
  | update
  | keyPressed
  | checkCollision
  | pow
  | sqrt
deriving Repr, DecidableEq, Inhabited

namespace Operation

/-- All operations. -/
def all : List Operation :=
  [goto, gotoTrue, gotoFalse, add, sub, mult, div, less, greater,
    equal, and, or, not, assign, assignIndex, assignIndexInverse, addAddress,
    checkBound, init, era, param, call, ret,
    print, render, clear, update, keyPressed, checkCollision, pow, sqrt]

/-- The operation's name in listings and object files. -/
def name : Operation → String
  | goto => "Goto"
  | gotoTrue => "GotoT"
  | gotoFalse => "GotoF"
  | add => "Add"
  | sub => "Sub"
  | mult => "Mult"
  | div => "Div"
  | less => "Lt"
  | greater => "Gt"
  | equal => "Equal"
  | and => "And"
  | or => "Or"
  | not => "Not"
  | assign => "Assign"
  | assignIndex => "AssignIndex"
  | assignIndexInverse => "AssignIndexInv"
  | addAddress => "AddAddr"
  | checkBound => "CheckBound"
  | init => "Init"
  | era => "Era"
  | param => "Param"
  | call => "Call"
  | ret => "Ret"
  | print => "Print"
  | render => "Render"
  | clear => "Clear"
  | update => "Update"
  | keyPressed => "KeyPressed"
  | checkCollision => "CheckCollision"
  | pow => "Pow"
  | sqrt => "Sqrt"

/-- The operation with a given name. -/
def ofName? (name : String) : Option Operation :=
  all.find? fun operation => operation.name == name

@[simp]
theorem ofName?_name (operation : Operation) :
    ofName? operation.name = some operation := by
  cases operation <;> rfl

end Operation

/-- One instruction. -/
structure Quad where
  operation : Operation
  left : Address
  right : Address
  result : Address
deriving Repr, DecidableEq, Inhabited

/-- The quadruple as listings and object files write it. -/
def Quad.text (quad : Quad) : String :=
  s!"{quad.operation.name} {quad.left} {quad.right} {quad.result}"

/-- A literal of the program and the slot from which it is read. -/
structure Constant where
  text : String
  element : Element
  address : Address
deriving Repr, DecidableEq, Inhabited

/-- Code together with the constants that it reads. -/
structure Executable where
  code : Array Quad
  constants : List Constant
deriving Repr, DecidableEq, Inhabited

namespace Executable

/-- Pad a number with blanks in front to four characters. -/
def padded (number : Nat) : String :=
  let digits := toString number
  String.ofList (List.replicate (4 - digits.length) ' ') ++ digits

/-- The code with one numbered quadruple to a line. -/
def listing (executable : Executable) : String :=
  String.join (executable.code.toList.mapIdx fun index quad =>
    s!"{padded index}: {quad.text}\n")

end Executable

end Easel
