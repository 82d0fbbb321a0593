import Easel.Proofs.Machine.Instruction
import Easel.Proofs.Meaning.Evaluation

/-!
# Data in slots

A plain value takes one slot and an object takes a block of nine, of which the
first holds its kind and the others its attributes.  A list takes the slots of
its items one after the other.  What a variable holds is thus a list of the
values of its slots, and each use of the variable reads or replaces a part of
that list.
-/

namespace Easel.Meaning

/-! ## Single data -/

namespace Datum

/-- The values of the slots in which a datum lies. -/
def slots : Datum → List Value
  | .plain value => [value]
  | .object kind fields => .object kind :: Attribute.all.map fields

/-- A datum of an element type. -/
inductive Typed : Datum → Element → Prop where
  | plain {value : Value} {element : Element}
      (scalar : element.isObject = false) (typed : value.Typed element) :
      Typed (.plain value) element
  | object {kind : Element} {fields : Attribute → Value}
      (isObject : kind.isObject = true) (typed : ∀ field,
        (fields field).Typed field.element) : Typed (.object kind fields) kind

variable {datum : Datum} {element : Element}

theorem Typed.length (typed : datum.Typed element) :
    datum.slots.length = element.slotWidth := by
  cases typed with
  | plain scalar => rw [Element.slotWidth, scalar]; rfl
  | object isObject => rw [Element.slotWidth, isObject]; rfl

theorem getElem?_slots (kind : Element)
    (fields : Attribute → Value)
    (field : Attribute) :
    (Datum.object kind fields).slots[field.offset]? = some (fields field) := by
  cases field <;> rfl

theorem Typed.suits (typed : datum.Typed element) :
    Memory.Suits datum.slots element element.slotWidth := by
  refine ⟨typed.length, ?_⟩
  cases typed with
  | plain scalar typed =>
    intro index value listed
    rw [Element.slotKind_of_scalar scalar]
    cases index with
    | zero =>
      cases listed
      exact typed
    | succ index => cases listed
  | object isObject typed =>
    rintro (_ | index) value listed
    · cases listed
      rw [Element.slotKind_zero]
      exact .object isObject
    · have inside : index < 8 := by
        have bound := (List.getElem?_eq_some_iff.mp listed).1
        exact Nat.lt_of_succ_lt_succ bound
      have named : ∀ place < 8, ∃ field ∈ Attribute.all,
        field.offset = place + 1 := by decide
      obtain ⟨field, _, place⟩ := named index inside
      rw [← place] at listed ⊢
      rw [getElem?_slots] at listed
      cases listed
      rw [Element.slotKind_offset isObject]
      exact typed field

theorem zero_typed (stored : element ≠ .void) :
    (zero element).Typed element := by
  unfold zero
  cases isObject : element.isObject with
  | true =>
    refine .object isObject fun field => Value.typed_zero ?_
    cases field <;> decide
  | false => exact .plain isObject (Value.typed_zero stored)

theorem slots_zero (element : Element) :
    (zero element).slots =
      (List.range element.slotWidth).map fun index =>
        Value.zero (element.slotKind index) := by
  cases element <;> rfl

/-- An object is drawn from its slots. -/
theorem ofSlots_slots (typed : datum.Typed element)
    (isObject : element.isObject = true) :
    Drawing.ofSlots datum.slots = datum.drawing := by
  cases typed with
  | plain scalar =>
    rw [scalar] at isObject
    cases isObject
  | @object _ fields =>
    have same : ∀ field : Attribute,
        ((Datum.object element fields).slots[field.offset]?.getD default) =
          fields field := by
      intro field
      rw [getElem?_slots]
      rfl
    change element.attributes.foldl (fun (drawing : Drawing) field =>
      drawing.set field ((Datum.object element fields).slots[field.offset]?.getD
        default)) ({ kind := element } : Drawing) = _
    simp only [same]
    rfl

/-- A datum is printed from its slots. -/
theorem textOfSlots_slots (typed : datum.Typed element) :
    textOfSlots datum.slots = datum.text := by
  cases typed with
  | plain scalar typed =>
    cases typed with
    | object isObject =>
      rw [scalar] at isObject
      cases isObject
    | _ => rfl
  | object isObject typed =>
    exact congrArg Drawing.text
      (ofSlots_slots (.object isObject typed) isObject)

end Datum

/-- A part of a list is replaced by as many values as it has. -/
def splice (values : List Value) (start : Nat) (part : List Value) :
    List Value :=
  values.take start ++ part ++ values.drop (start + part.length)

theorem getElem?_splice {values part : List Value} {start : Nat}
    (inside : start + part.length ≤ values.length)
    (index : Nat) :
    (splice values start part)[index]? =
      if start ≤ index ∧ index < start + part.length then part[index - start]?
      else values[index]? := by
  have before : (values.take start).length = start := by
    rw [List.length_take]
    omega
  unfold splice
  by_cases early : index < start
  · rw [if_neg (by omega), List.append_assoc,
      List.getElem?_append_left (by omega), List.getElem?_take_of_lt early]
  · by_cases within : index < start + part.length
    · rw [if_pos (by omega), List.getElem?_append_left (by simp; omega),
        List.getElem?_append_right (by omega), before]
    · rw [if_neg (by omega), List.getElem?_append_right (by simp; omega),
        List.getElem?_drop]
      congr 1
      simp only [List.length_append, before]
      omega

namespace Datum

variable {data : List Datum} {element : Element}

theorem length_flatMap_slots (typed : ∀ datum ∈ data, datum.Typed element) :
    (data.flatMap slots).length = data.length * element.slotWidth := by
  induction data with
  | nil => simp
  | cons first rest induction =>
    rw [List.flatMap_cons, List.length_append,
      (typed first List.mem_cons_self).length, induction fun datum member =>
      typed datum (List.mem_cons_of_mem _ member), List.length_cons,
      Nat.succ_mul, Nat.add_comm]

theorem slots_item {index : Nat} {datum : Datum}
    (typed : ∀ datum ∈ data, datum.Typed element)
    (listed : data[index]? = some datum) :
    ((data.flatMap slots).drop (index * element.slotWidth)).take
      element.slotWidth = datum.slots := by
  induction data generalizing index with
  | nil => simp at listed
  | cons first rest induction =>
    have width := (typed first List.mem_cons_self).length
    rw [List.flatMap_cons]
    cases index with
    | zero =>
      cases listed
      rw [Nat.zero_mul, List.drop_zero, ← width, List.take_left]
    | succ index =>
      rw [Nat.succ_mul, Nat.add_comm, ← List.drop_drop, ← width,
        List.drop_left, width]
      exact induction (fun datum member =>
        typed datum (List.mem_cons_of_mem _ member)) listed

theorem slots_set {index : Nat} {new : Datum}
    (typed : ∀ datum ∈ data, datum.Typed element)
    (newTyped : new.Typed element)
    (inside : index < data.length) :
    (data.set index new).flatMap slots =
      splice (data.flatMap slots) (index * element.slotWidth) new.slots := by
  induction data generalizing index with
  | nil => simp at inside
  | cons first rest induction =>
    have width := (typed first List.mem_cons_self).length
    have newWidth := newTyped.length
    cases index with
    | zero =>
      rw [List.set_cons_zero, List.flatMap_cons, List.flatMap_cons,
        splice, Nat.zero_mul, List.take_zero, List.nil_append, Nat.zero_add,
        newWidth, ← width, List.drop_left]
    | succ index =>
      have later := induction (fun datum member =>
        typed datum (List.mem_cons_of_mem _ member))
        (Nat.lt_of_succ_lt_succ inside)
      have start : (index + 1) * element.slotWidth =
          first.slots.length + index * element.slotWidth := by
        rw [width, Nat.succ_mul, Nat.add_comm]
      rw [List.set_cons_succ, List.flatMap_cons, List.flatMap_cons, later,
        splice, splice, start, Nat.add_assoc, List.take_length_add_append,
        List.drop_length_add_append]
      simp only [List.append_assoc]

end Datum

namespace Holding

/-- The values of the slots of a variable. -/
def slots : Holding → List Value
  | .single datum => datum.slots
  | .list data => data.flatMap Datum.slots

/-- What a variable of a type can hold. -/
inductive Typed : Holding → Ty → Prop where
  | single {datum : Datum} {type : Ty} (single : type.isList = false)
      (typed : datum.Typed type.element) : Typed (.single datum) type
  | list {data : List Datum} {type : Ty} (list : type.isList = true)
      (length : data.length = type.size)
      (typed : ∀ datum ∈ data, datum.Typed type.element) :
        Typed (.list data) type

variable {holding : Holding} {type : Ty}

theorem zero_typed (stored : type.element ≠ .void) :
    (zero type).Typed type := by
  unfold zero
  cases list : type.isList with
  | true =>
    refine .list list (by simp) fun datum member => ?_
    rw [List.eq_of_mem_replicate member]
    exact Datum.zero_typed stored
  | false => exact .single list (Datum.zero_typed stored)

theorem slots_zero (type : Ty) :
    (zero type).slots =
      (List.range type.slotCount).map fun index =>
        Value.zero (type.element.slotKind index) := by
  have items : ∀ count : Nat,
      (List.replicate count (Datum.zero type.element)).flatMap Datum.slots =
        (List.range (count * type.element.slotWidth)).map fun index =>
          Value.zero (type.element.slotKind index) := by
    intro count
    induction count with
    | zero => simp
    | succ count induction =>
      have aligned : type.element.isObject = true →
          count * type.element.slotWidth % Element.blockSize = 0 := by
        intro object
        rw [Element.slotWidth, if_pos object]
        exact Nat.mul_mod_left _ _
      rw [List.replicate_succ', List.flatMap_append, induction, Nat.succ_mul,
        List.range_add, List.map_append, List.flatMap_singleton,
        Datum.slots_zero, List.map_map]
      congr 1
      refine List.map_congr_left fun index _ => ?_
      rw [Function.comp_apply, Element.slotKind_add aligned]
  unfold zero
  cases list : type.isList with
  | true =>
    rw [Ty.slotCount_of_list list]
    exact items type.size
  | false =>
    rw [Ty.slotCount_of_single list]
    exact Datum.slots_zero type.element

end Holding

end Easel.Meaning
