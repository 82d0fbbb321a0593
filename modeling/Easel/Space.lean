import Easel.CompileError

/-!
# Laying out storage

Storage is handed out from the front of each segment.  A request takes as
many slots as its type needs, counted in the 32 bits of an address, and is
refused when the segment has no room for them.

Literals share the constant region: the same literal of the same element
always gets the same slot.  The zero values of the scalar elements come
first.
-/

namespace Easel

/-- What has been handed out. -/
structure Space where
  /-- Slots taken in the segment of an element in a region. -/
  used : Region → Element → Int
  /-- The literals with their slots, in the order of their first use. -/
  constants : List Constant

instance : Inhabited Space := ⟨⟨fun _ _ => 0, []⟩⟩

namespace Space

/-- Nothing handed out at all, not even the zero values. -/
def blank : Space := ⟨fun _ _ => 0, []⟩

/-- Let `total` slots of a segment be taken. -/
def take (space : Space) (region : Region) (element : Element) (total : Int) :
    Space :=
  { space with
    used := fun otherRegion otherElement =>
      if otherRegion = region ∧ otherElement = element then total
      else space.used otherRegion otherElement }

/-- Give back all slots of a region. -/
def reset (space : Space) (region : Region) : Space :=
  { space with
    used := fun otherRegion otherElement =>
      if otherRegion = region then 0 else space.used otherRegion otherElement }

/-- Reserve storage for one variable. -/
def next (space : Space) (region : Region) (type : Ty) :
    Except CompileError (Address × Space) :=
  match segmentBase? region type.element with
  | none => .error (.generation (.noStorage type))
  | some base =>
    let taken := space.used region type.element
    let total := Address.wrap (taken + type.slotCount)
    if total > segmentSize then .error (.exhausted region type.element)
    else .ok (base + taken, space.take region type.element total)

/-- Reserve a temporary; the absent value needs none. -/
def nextTemp (space : Space) (type : Ty) :
    Except CompileError (Address × Space) :=
  if type.isVoid then .ok (.unused, space) else space.next .temp type

/-- The slot of a literal that was used before. -/
def constant? (space : Space) (element : Element) (text : String) :
    Option Constant :=
  space.constants.find? fun constant => constant.element == element &&
    constant.text == text

/-- The slot of a literal, reserved at its first use. -/
def intern (space : Space) (text : String) (type : Ty) :
    Except CompileError (Address × Space) :=
  match space.constant? type.element text with
  | some constant => .ok (constant.address, space)
  | none => do
    let (address, space) ← space.next .constant type
    let constant : Constant := ⟨text, type.element, address⟩
    return (address, { space with constants := space.constants ++ [constant] })

/-- The literals of the zero values. -/
def zeros : List (String × Element) :=
  [("0.0", .float), ("'a'", .char), ("false", .bool), ("0", .int),
    ("\"-\"", .string)]

/-- Add a literal if there is room for it. -/
def internOrSkip (space : Space) (text : String) (element : Element) : Space :=
  match space.intern text (.basic element) with
  | .ok (_, extended) => extended
  | .error _ => space

/-- Only the zero values handed out. -/
def fresh : Space :=
  zeros.foldl (fun space (text, element) =>
    space.internOrSkip text element) blank

/-- The slot of the zero value of a scalar type, or no slot for other types. -/
def zeroAddress (space : Space) (type : Ty) : Address :=
  let zero := zeros.find? fun (_, element) =>
    element == type.element && !type.isList
  match zero.bind fun (text, element) => space.constant? element text with
  | some constant => constant.address
  | none => .unused

/-- Slots of local storage in use. -/
def footprint (space : Space) : Int :=
  Element.storable.foldl (fun total element =>
    total + space.used .local element) 0

end Space

end Easel
