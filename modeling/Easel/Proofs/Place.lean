import Easel.Proofs.Address
import Easel.Ty

/-!
# Places of variables

A place is where a value of a type can lie: a slot of the right kind, with
room behind it for all slots that the type needs.  An item of a list and an
attribute of an object lie in places of their own.
-/

namespace Easel

variable {element : Element} {index : Nat}

namespace Element

/-- The type of the slot at an index of storage for values of one type. -/
def slotKind (element : Element) (index : Nat) : Element :=
  (Location.mk .global element index).kind

theorem slotKind_of_scalar (scalar : element.isObject = false) :
    element.slotKind index = element := by
  simp [slotKind, Location.kind, scalar]

/-- Inside a block the kinds of the slots start over. -/
theorem slotKind_add {offset : Nat}
    (aligned : element.isObject = true → offset % blockSize = 0) :
    element.slotKind (offset + index) = element.slotKind index := by
  cases object : element.isObject with
  | false => rw [slotKind_of_scalar object, slotKind_of_scalar object]
  | true =>
    have same : (offset + index) % blockSize = index % blockSize := by
      rw [Nat.add_mod, aligned object, Nat.zero_add, Nat.mod_mod]
    simp only [slotKind, Location.kind, object, if_true, same]

theorem slotKind_zero (element : Element) : element.slotKind 0 = element := by
  cases element <;> rfl

theorem slotKind_offset (object : element.isObject = true) (field : Attribute) :
    element.slotKind field.offset = field.element := by
  simp only [slotKind, Location.kind, object, if_true]
  cases field <;> rfl

theorem slotWidth_pos (element : Element) : 0 < element.slotWidth := by
  cases element <;> decide

end Element

/-- An offset at which no attribute stands is the offset of an object. -/
theorem Attribute.offset_of_none
    (missing : ofOffset? (index % Element.blockSize : Nat) = none) :
    index % Element.blockSize = 0 := by
  have small : index % Element.blockSize < 9 := Nat.mod_lt _ (by decide)
  generalize index % Element.blockSize = place at missing small
  match place, small with
  | 0, _ => rfl
  | 1, _ | 2, _ | 3, _ | 4, _ | 5, _ | 6, _ | 7, _ | 8, _ => cases missing

theorem Attribute.offset_bounds (field : Attribute) :
    0 < field.offset ∧ field.offset < Element.blockSize := by
  cases field <;> decide

theorem Attribute.element_scalar (field : Attribute) :
    field.element.isObject = false := by
  cases field <;> rfl

namespace Location

theorem kind_eq_slotKind (location : Location) :
    location.kind = location.element.slotKind location.offset :=
  rfl

/-- A slot that holds an object is the first slot of a block. -/
theorem block_of_kind {location : Location}
    (object : location.kind.isObject = true) :
    location.element = location.kind ∧
      location.offset % Element.blockSize = 0 := by
  cases owner : location.element.isObject with
  | false => simp [kind, owner] at object ⊢
  | true =>
    cases found : Attribute.ofOffset?
      (location.offset % Element.blockSize : Nat) with
    | some field =>
      simp only [kind, owner, if_true, found, field.element_scalar] at object
      cases object
    | none =>
      have aligned := Attribute.offset_of_none found
      refine ⟨?_, aligned⟩
      simp only [kind, owner, if_true, found]

/-- The slots that belong to a value are those that its type needs. -/
theorem width_eq (location : Location) :
    location.width = location.kind.slotWidth := by
  cases object : location.kind.isObject with
  | true =>
    obtain ⟨owner, aligned⟩ := block_of_kind object
    simp only [width, isBlockBase, owner, object, aligned,
      Element.slotWidth, if_true]
    rfl
  | false =>
    have notBase : location.isBlockBase = false := by
      cases owner : location.element.isObject with
      | false => simp [isBlockBase, owner]
      | true =>
        by_cases aligned : location.offset % Element.blockSize = 0
        · have kind_eq : location.kind = location.element := by
            simp only [kind, owner, if_true, aligned]
            rfl
          rw [kind_eq, owner] at object
          cases object
        · simp [isBlockBase, aligned]
    simp [width, notBase, Element.slotWidth, object]

end Location

/-- A value of a type can lie at an address, whose location is given. -/
structure Place (address : Address) (type : Ty) (location : Location) :
    Prop where
  located : locate? address = some location
  kind : location.kind = type.element
  room : location.offset + type.slotCount ≤ segmentSize
  /-- The items of a list lie in the segment of their type. -/
  items : type.isList = true → location.element = type.element

namespace Ty

@[simp]
theorem element_basic (element : Element) : (basic element).element = element :=
  rfl

@[simp]
theorem isList_basic (element : Element) : (basic element).isList = false :=
  rfl

theorem slotCount_of_single {type : Ty} (single : type.isList = false) :
    type.slotCount = type.element.slotWidth := by
  simp [slotCount, single]

theorem slotCount_of_list {type : Ty} (list : type.isList = true) :
    type.slotCount = type.size * type.element.slotWidth := by
  simp [slotCount, list]

/-- Types of the same shape take the same number of slots. -/
theorem slotCount_of_shape {type other : Ty}
    (sameElement : other.element = type.element)
    (sameDepth : other.isList = type.isList)
    (sameSize : type.isList = true → other.size = type.size) :
    other.slotCount = type.slotCount := by
  cases list : type.isList with
  | true =>
    rw [slotCount_of_list list, slotCount_of_list (sameDepth.trans list),
      sameSize list, sameElement]
  | false =>
    rw [slotCount_of_single list, slotCount_of_single (sameDepth.trans list),
      sameElement]

theorem slotCount_mod_blockSize {type : Ty}
    (object : type.element.isObject = true) :
    type.slotCount % Element.blockSize = 0 := by
  rw [slotCount, Element.slotWidth, if_pos object]
  exact Nat.mul_mod_left _ _

theorem slotCount_basic (element : Element) :
    (basic element).slotCount = element.slotWidth :=
  slotCount_of_single rfl

theorem item_isList {type : Ty} (flat : type.depth ≤ 1) :
    type.item.isList = false := by
  have single : type.item.depth = 0 := Nat.sub_eq_zero_of_le flat
  exact decide_eq_false (by omega)

theorem slotCount_item {type : Ty} (flat : type.depth ≤ 1) :
    type.item.slotCount = type.element.slotWidth :=
  slotCount_of_single (item_isList flat)

end Ty

namespace Place

variable {address : Address} {type : Ty} {location : Location}

section

variable (place : Place address type location)
include place

/-- Where an object lies its block starts. -/
theorem aligned (object : type.element.isObject = true) :
    location.element = type.element ∧
      location.offset % Element.blockSize = 0 := by
  rw [← place.kind] at object ⊢
  exact Location.block_of_kind object

theorem width_eq : location.width = type.element.slotWidth := by
  rw [location.width_eq, place.kind]

theorem slot (inside : index < type.slotCount) :
    ∃ found, locate? (address + index) = some found ∧
      found.region = location.region ∧
      found.kind = type.element.slotKind index := by
  have bound : location.offset + index < segmentSize :=
    Nat.lt_of_lt_of_le (Nat.add_lt_add_left inside _) place.room
  refine ⟨_, locate?_add place.located bound, rfl, ?_⟩
  rw [Location.kind_eq_slotKind]
  dsimp only
  cases object : type.element.isObject with
  | true =>
    obtain ⟨owner, start⟩ := place.aligned object
    rw [owner, Element.slotKind_add fun _ => start]
  | false =>
    rw [Element.slotKind_of_scalar object]
    cases list : type.isList with
    | true =>
      rw [place.items list, Element.slotKind_of_scalar object]
    | false =>
      have single : type.slotCount = 1 := by
        simp [Ty.slotCount, list, Element.slotWidth, object]
      have first : index = 0 := by omega
      rw [first, Nat.add_zero, ← Location.kind_eq_slotKind, place.kind]

theorem item (flat : type.depth ≤ 1)
    (list : type.isList = true)
    (inside : index < type.size) :
    Place (address + (index * type.element.slotWidth : Nat)) type.item
      { location with
        offset := location.offset + index * type.element.slotWidth } := by
  have width := type.element.slotWidth_pos
  have span : (index + 1) * type.element.slotWidth ≤ type.slotCount := by
    rw [Ty.slotCount_of_list list]
    exact Nat.mul_le_mul_right _ inside
  rw [Nat.add_mul, Nat.one_mul] at span
  have room := place.room
  refine ⟨locate?_add place.located (by omega), ?_, ?_, ?_⟩
  · rw [Location.kind_eq_slotKind]
    dsimp only
    rw [place.items list]
    cases object : type.element.isObject with
    | false =>
      rw [Element.slotKind_of_scalar object]
      rfl
    | true =>
      obtain ⟨_, start⟩ := place.aligned object
      have multiple : (index * type.element.slotWidth) % Element.blockSize =
          0 := by
        simp [Element.slotWidth, object]
      rw [Element.slotKind_add fun _ => start, ← Nat.add_zero (index * _),
        Element.slotKind_add fun _ => multiple, Element.slotKind_zero]
      rfl
  · rw [Ty.slotCount_item flat]
    dsimp only
    omega
  · intro nested
    rw [Ty.item_isList flat] at nested
    cases nested

theorem field (object : type.isObject = true) (member : Attribute) :
    Place (address + member.offset) (.basic member.element)
      { location with offset := location.offset + member.offset } := by
  simp only [Ty.isObject, Bool.and_eq_true, Bool.not_eq_true'] at object
  obtain ⟨isObject, single⟩ := object
  obtain ⟨owner, start⟩ := place.aligned isObject
  have bounds := member.offset_bounds
  have count : type.slotCount = Element.blockSize := by
    rw [Ty.slotCount_of_single single, Element.slotWidth, isObject, if_pos rfl]
  have room := place.room
  rw [count] at room
  have scalarCount : (Ty.basic member.element).slotCount = 1 := by
    simp [Ty.slotCount_basic, Element.slotWidth, member.element_scalar]
  refine ⟨locate?_add place.located (by omega), ?_, ?_, ?_⟩
  · rw [Location.kind_eq_slotKind]
    dsimp only
    rw [owner, Element.slotKind_add fun _ => start,
      Element.slotKind_offset isObject]
    rfl
  · rw [scalarCount]
    dsimp only
    omega
  · intro list
    cases list

end

/-- A place in a segment, counted from its start. -/
theorem of_segment {region : Region} {base : Address} {offset : Nat}
    (start : segmentBase? region type.element = some base)
    (room : offset + type.slotCount ≤ segmentSize)
    (filled : 0 < type.slotCount)
    (aligned : type.element.isObject = true → offset % Element.blockSize = 0) :
    Place (base + offset) type ⟨region, type.element, offset⟩ := by
  refine ⟨locate?_segment start (by omega), ?_, room, fun _ => rfl⟩
  rw [Location.kind_eq_slotKind, ← Nat.add_zero offset,
    Element.slotKind_add aligned, Element.slotKind_zero]

/-- A place is one for every type of the same shape. -/
theorem of_shape {other : Ty}
    (place : Place address other location)
    (sameElement : other.element = type.element)
    (sameDepth : other.isList = type.isList)
    (sameSize : type.isList = true → other.size = type.size) :
    Place address type location := by
  refine ⟨place.located, place.kind.trans sameElement, ?_, ?_⟩
  · rw [← Ty.slotCount_of_shape sameElement sameDepth sameSize]
    exact place.room
  · exact fun list => (place.items (sameDepth.trans list)).trans sameElement

end Place

end Easel
