import Easel.Attribute

/-!
# Types of variables

A variable holds one value or a list of a declared size.  Lists may nest in
principle, so a type records its depth.  Two types agree when their elements
and depths do; the declared size is not part of a type's identity.
-/

namespace Easel

/-- The type of a variable or of an expression. -/
structure Ty where
  element : Element
  /-- How many lists are wrapped around the element. -/
  depth : Nat
  /-- The declared number of elements of a list. -/
  size : Nat
deriving Repr, DecidableEq, Inhabited

namespace Ty

/-- The type of a single value. -/
def basic (element : Element) : Ty :=
  ⟨element, 0, 0⟩

/-- The type of a list of `size` values. -/
def list (element : Element) (size : Nat) : Ty :=
  ⟨element, 1, size⟩

/-- Whether the type is a list. -/
def isList (type : Ty) : Bool :=
  0 < type.depth

/-- Whether the type is that of the absent value. -/
def isVoid (type : Ty) : Bool :=
  type.element == .void && !type.isList

/-- Whether the type is that of a single drawable object. -/
def isObject (type : Ty) : Bool :=
  type.element.isObject && !type.isList

/-- Whether the type is that of a single number. -/
def isNumeric (type : Ty) : Bool :=
  type.element.isNumeric && !type.isList

/-- Agreement of two types: the same element at the same depth. -/
def agrees (left right : Ty) : Bool :=
  left.element == right.element && left.depth == right.depth

/-- The type of one element of a list. -/
def item (type : Ty) : Ty :=
  ⟨type.element, type.depth - 1, 0⟩

/--
Slots reserved for a variable of the type.  The product is exact: it is not
cut to 64 bits, which a list of more than `(2 ^ 64 - 1) / 9` objects exceeds.
-/
def slotCount (type : Ty) : Nat :=
  (if type.isList then type.size else 1) * type.element.slotWidth

/-- The element's letter, inside one pair of brackets for each list. -/
def canonical (type : Ty) : String :=
  String.ofList
    (List.replicate type.depth '[' ++ [type.element.letter] ++
      List.replicate type.depth ']')

/--
Whether a value of type `value` can be stored where `expected` is required:
the types agree, or a whole number is widened.
-/
def accepts (expected value : Ty) : Bool :=
  expected.agrees value ||
    (!expected.isList && !value.isList &&
      expected.element == .float && value.element == .int)

/-- The type as diagnostics show it. -/
def describe (type : Ty) : String :=
  if type.isList then s!"{type.element.keyword}[{type.size}]"
  else type.element.keyword

end Ty

end Easel
