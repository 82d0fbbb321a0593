import Easel.CompileError

/-!
# Links between functions

While code is generated the position of a function may not be known yet.
Each quadruple that needs it is recorded as a link and filled in when all
positions are known.  A field is filled in at most once.
-/

namespace Easel

/-- A field of a quadruple that waits for the position of a function. -/
structure Link where
  index : Nat
  field : Field
  target : String
deriving Repr, DecidableEq, Inhabited

/-- Filling in fields of code.  What was filled in before a failure stays. -/
abbrev Patching := EStateM CompileError (Array Quad)

/-- The contents of a field. -/
def Quad.get (quad : Quad) : Field → Address
  | .left => quad.left
  | .result => quad.result

/-- The quadruple with another value in a field. -/
def Quad.set (quad : Quad) (field : Field) (value : Address) : Quad :=
  match field with
  | .left => { quad with left := value }
  | .result => { quad with result := value }

/-- Fill in a field that is still unused. -/
def patch (index : Nat) (field : Field) (value : Address) : Patching Unit := do
  let code ← get
  match code[index]? with
  | none => throw (.generation (.patchRange index))
  | some quad =>
    if quad.get field = .unused then
      set (code.setIfInBounds index (quad.set field value))
    else throw (.generation (.patchedTwice index field))

/-- Fill in the field of a link. -/
def Link.resolve (entryOf : String → Option Address) (link : Link) :
    Patching Unit :=
  match entryOf link.target with
  | none => throw (.generation (.noEntry link.target))
  | some entry => patch link.index link.field entry

/-- Fill in all links in order, up to the first failure. -/
def resolveLinks (entryOf : String → Option Address) (links : List Link) :
    Patching Unit :=
  links.forM (Link.resolve entryOf)

end Easel
