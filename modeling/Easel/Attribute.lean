import Easel.Element

/-!
# Attributes of objects

A drawable object is a block of storage: the object itself, followed by one
slot for each of the eight attributes.  Each kind of object lets programs use
five of them.
-/

namespace Easel

/-- An attribute of a drawable object. -/
inductive Attribute where
  | height
  | width
  | x
  | y
  | size
  | color
  | message
  | image
deriving Repr, DecidableEq, Inhabited

namespace Attribute

/-- All attributes, in the order of their slots. -/
def all : List Attribute :=
  [height, width, x, y, size, color, message, image]

/-- The name by which source text refers to the attribute. -/
def name : Attribute → String
  | height => "height"
  | width => "width"
  | x => "x"
  | y => "y"
  | size => "size"
  | color => "color"
  | message => "message"
  | image => "image"

/-- The attribute with a given name. -/
def ofName? (name : String) : Option Attribute :=
  all.find? fun candidate => candidate.name == name

/-- The place of the attribute in its block; the object itself is at zero. -/
def offset : Attribute → Nat
  | height => 1
  | width => 2
  | x => 3
  | y => 4
  | size => 5
  | color => 6
  | message => 7
  | image => 8

/-- The attribute at a given place of a block. -/
def ofOffset? (offset : Int) : Option Attribute :=
  all.find? fun candidate => (candidate.offset : Int) == offset

/-- The type of the attribute's value. -/
def element : Attribute → Element
  | height | width | x | y | size => .float
  | color | message | image => .string

@[simp]
theorem ofName?_name (field : Attribute) :
    ofName? field.name = some field := by
  cases field <;> rfl

@[simp]
theorem ofOffset?_offset (field : Attribute) :
    ofOffset? field.offset = some field := by
  cases field <;> rfl

end Attribute

namespace Element

/-- The attributes that programs can use on objects of this type. -/
def attributes : Element → List Attribute
  | square | circle => [.x, .y, .width, .height, .color]
  | image | background => [.x, .y, .width, .height, .image]
  | text => [.x, .y, .size, .color, .message]
  | float | char | bool | int | string | void => []

/-- Slots in the block of one object. -/
def blockSize : Nat := 9

/-- Slots that one value of the type occupies. -/
def slotWidth (element : Element) : Nat :=
  if element.isObject then blockSize else 1

end Element

end Easel
