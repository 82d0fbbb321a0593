import Easel.Quad
import Easel.Ty

/-!
# Built-in functions

A few names are taken by functions that are single operations of the
machine.  No variable and no function of a program can have such a name.
-/

namespace Easel

/-- What a built-in function accepts as one of its arguments. -/
inductive ParameterKind where
  | exact (element : Element)
  | numeric
  | anyObject
deriving Repr, DecidableEq, Inhabited

namespace ParameterKind

/-- Whether an argument of the given type is accepted. -/
def accepts : ParameterKind → Ty → Bool
  | exact element, type => (Ty.basic element).accepts type
  | numeric, type => type.isNumeric
  | anyObject, type => type.isObject

/-- What is accepted, in words. -/
def describe : ParameterKind → String
  | exact element => element.keyword
  | numeric => "int or float"
  | anyObject => "object"

end ParameterKind

/-- A function that is one operation of the machine. -/
structure Builtin where
  name : String
  parameters : List ParameterKind
  returns : Element
  operation : Operation
deriving Repr, DecidableEq, Inhabited

namespace Builtin

/-- All built-in functions. -/
def all : List Builtin :=
  [⟨"keyPressed", [.exact .string], .bool, .keyPressed⟩,
    ⟨"checkCollision", [.anyObject, .anyObject], .bool, .checkCollision⟩,
    ⟨"pow", [.numeric, .numeric], .float, .pow⟩,
    ⟨"sqrt", [.numeric], .float, .sqrt⟩,
    ⟨"render", [.anyObject], .void, .render⟩,
    ⟨"clear", [], .void, .clear⟩,
    ⟨"update", [], .void, .update⟩]

/-- The built-in function with a given name. -/
def find? (name : String) : Option Builtin :=
  all.find? fun builtin => builtin.name == name

/-- Whether a name is taken by a built-in function. -/
def isReserved (name : String) : Bool :=
  (find? name).isSome

end Builtin

end Easel
