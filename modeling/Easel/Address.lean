import Easel.Attribute

/-!
# Addresses

Storage is an array of slots in five regions.  Each region holds one segment
of a thousand slots for every element type that owns storage, so an address
alone tells the region, the element and the offset of its slot.

Objects are stored as blocks: inside an object segment every ninth slot is an
object, and the slots between hold the attributes of the object before them.
-/

namespace Easel

/-- The number of a slot.  Negative numbers address nothing. -/
abbrev Address := Int

/-- The address that stands for an absent operand. -/
def Address.unused : Address := -1

/-- A number in the 32 bits of an instruction's field, in two's complement. -/
def Address.wrap (number : Int) : Address :=
  number.bmod 4294967296

/-- The regions of storage. -/
inductive Region where
  | global
  | local
  | temp
  | constant
  | scope
deriving Repr, DecidableEq, Inhabited

namespace Region

/-- All regions, in the order of their addresses. -/
def all : List Region :=
  [.global, .local, .temp, .constant, .scope]

/-- The place of the region among all regions. -/
def index : Region → Nat
  | .global => 0
  | .local => 1
  | .temp => 2
  | .constant => 3
  | .scope => 4

/-- The region at a given place. -/
def ofIndex? (index : Nat) : Option Region :=
  all[index]?

/-- The region's name in diagnostics. -/
def name : Region → String
  | .global => "Global"
  | .local => "Local"
  | .temp => "Temp"
  | .constant => "Constant"
  | .scope => "Scope"

@[simp]
theorem ofIndex?_index (region : Region) :
    ofIndex? region.index = some region := by
  cases region <;> rfl

end Region

/-- Slots in the segment of one element type. -/
def segmentSize : Nat := 1000

/-- Slots in one region. -/
def regionSize : Nat := segmentSize * Element.storable.length

/-- The first address of an element's segment in a region. -/
def segmentBase? (region : Region) (element : Element) : Option Address :=
  element.segment?.map fun segment =>
    ((region.index * regionSize + segment * segmentSize : Nat) : Int)

/-- Where an address lies. -/
structure Location where
  region : Region
  element : Element
  /-- The place of the slot in its segment. -/
  offset : Nat
deriving Repr, DecidableEq, Inhabited

/-- The location of an address, if it addresses a slot. -/
def locate? (address : Address) : Option Location :=
  if address < 0 then none
  else do
    let region ← Region.ofIndex? (address.toNat / regionSize)
    let within := address.toNat % regionSize
    let element ← Element.ofSegment? (within / segmentSize)
    some ⟨region, element, within % segmentSize⟩

namespace Location

/-- Whether the slot is an object, the first slot of a block. -/
def isBlockBase (location : Location) : Bool :=
  location.element.isObject && location.offset % Element.blockSize == 0

/-- The type of the values that the slot holds. -/
def kind (location : Location) : Element :=
  if location.element.isObject then
    match Attribute.ofOffset? (location.offset % Element.blockSize : Nat) with
    | some field => field.element
    | none => location.element
  else location.element

/-- Slots of the value that starts at the location. -/
def width (location : Location) : Nat :=
  if location.isBlockBase then Element.blockSize else 1

end Location

end Easel
