import Easel.CompileError
import Easel.Table

/-!
# Names in scope

Inside a function a name stands for a parameter or local variable of that
function if there is one, otherwise for a global variable.  A use of a name
designates storage: the variable, an element of a list, or an attribute of
an object in either.
-/

namespace Easel

/-- A declared variable.  Its address is unknown until storage is laid out. -/
structure Variable where
  type : Ty
  line : Nat
  address : Option Address
deriving Repr, DecidableEq, Inhabited

/-- A declared function. -/
structure Routine where
  returns : Ty
  line : Nat
  parameters : List Ty
  /-- Parameters first, then the variables of the body. -/
  locals : Table Variable
  /-- The index of its first quadruple, once it is known. -/
  entry : Option Address
  /-- Slots of local storage that a call uses. -/
  footprint : Int
deriving Repr, Inhabited

/-- The variables that can be named inside a function. -/
structure Scope where
  locals : Table Variable
  globals : Table Variable
deriving Repr, Inhabited

/-- What a use of a name designates. -/
structure Resolved where
  owner : Variable
  /-- The attribute, if the use names one. -/
  field : Option Attribute
  /-- The type of the designated storage. -/
  type : Ty
deriving Repr, DecidableEq, Inhabited

namespace Scope

/-- The variable that a name stands for. -/
def find? (scope : Scope) (name : String) : Option Variable :=
  scope.locals.find? name <|> scope.globals.find? name

/-- The attribute that a field name denotes on storage of a type. -/
def attribute? (type : Ty) (field : String) : Option Attribute :=
  (Attribute.ofName? field).filter fun candidate =>
    type.isObject && type.element.attributes.contains candidate

/--
What a use of a name designates; `indexed` says whether it is the element of
a list that is meant.
-/
def resolve (scope : Scope)
    (name : String)
    (indexed : Bool)
    (field : Option String)
    (line : Nat) : Except CompileError Resolved :=
  match scope.find? name with
  | none => .error (.undeclared name line)
  | some found =>
    if indexed && !found.type.isList then
      .error (.mismatch .list found.type line)
    else
      let base := if indexed then found.type.item else found.type
      match field with
      | none => .ok ⟨found, none, base⟩
      | some fieldName =>
        match attribute? base fieldName with
        | some member => .ok ⟨found, some member, .basic member.element⟩
        | none => .error (.invalidAttribute fieldName base line)

end Scope

end Easel
