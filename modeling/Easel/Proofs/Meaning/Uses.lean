import Easel.Proofs.Code.Operands
import Easel.Proofs.Meaning.Slots

/-!
# Uses of variables

A use of a variable designates all of it, an item, or an attribute of either.
In the store that is a datum, in the slots of the variable a part of them.
Reading gives the datum whose slots are that part, and assigning replaces the
part by the slots of what is assigned.
-/

namespace Easel.Meaning

variable {scope : Scope} {name : String} {indexed : Bool}
  {field : Option String}
variable {resolved : Resolved} {datum new : Datum} {element : Element}

theorem splice_splice {values inner part : List Value} {start offset : Nat}
    (isPart : (values.drop start).take inner.length = inner)
    (room : start + inner.length ≤ values.length)
    (inside : offset + part.length ≤ inner.length) :
    splice values start (splice inner offset part) =
      splice values (start + offset) part := by
  have length : (splice inner offset part).length = inner.length := by
    simp only [splice, List.length_append, List.length_take, List.length_drop]
    omega
  refine List.ext_getElem? fun index => ?_
  have replaced := getElem?_splice
    (show start + offset + part.length ≤ values.length by omega) index
  rw [replaced, getElem?_splice (by omega), length]
  by_cases within : start ≤ index ∧ index < start + inner.length
  · have found : inner[index - start]? = values[index]? := by
      rw [← isPart, List.getElem?_take_of_lt (by omega), List.getElem?_drop]
      congr 1
      omega
    rw [if_pos within, getElem?_splice inside, found]
    by_cases deeper : offset ≤ index - start ∧
      index - start < offset + part.length
    · rw [if_pos deeper, if_pos (by omega), Nat.sub_sub]
    · rw [if_neg deeper, if_neg (by omega)]
  · rw [if_neg within, if_neg (by omega)]

/-! ## Attributes -/

/-- The type of the designated variable or item, without attribute. -/
def baseOf (owner : Variable) (indexed : Bool) : Ty :=
  if indexed then owner.type.item else owner.type

theorem ofName?_of_attribute? {type : Ty} {field : String} {member : Attribute}
    (chosen : Scope.attribute? type field = some member) :
    Attribute.ofName? field = some member :=
  (Option.filter_eq_some_iff.mp chosen).1

/-- The datum that a use designates lies in the designated part of the slots. -/
theorem Datum.select_of_resolves
    (resolves : scope.Resolves name indexed field resolved)
    (typed : datum.Typed (baseOf resolved.owner indexed).element)
    (single : resolved.type.isList = false) :
    ∃ part, datum.select field = .ok part ∧ part.Typed resolved.type.element ∧
      part.slots = (datum.slots.drop resolved.offset).take
        resolved.type.slotCount := by
  cases resolves with
  | whole found list =>
    refine ⟨datum, rfl, typed, ?_⟩
    change _ = (datum.slots.drop 0).take _
    rw [List.drop_zero, Ty.slotCount_of_single single, List.take_of_length_le]
    exact Nat.le_of_eq typed.length
  | @member owner field member found list chosen =>
    have object := Scope.isObject_of_attribute? chosen
    simp only [Ty.isObject, Bool.and_eq_true] at object
    cases typed with
    | plain scalar =>
      rw [baseOf, object.1] at scalar
      cases scalar
    | @object _ fields isObject typed =>
      refine ⟨.plain (fields member), ?_, .plain member.element_scalar
        (typed member), ?_⟩
      · simp only [Datum.select, ofName?_of_attribute? chosen]
      · change [fields member] =
          ((Datum.object _ fields).slots.drop member.offset).take
            (Ty.basic member.element).slotCount
        rw [Space.slotCount_scalar member.element_scalar]
        cases member <;> rfl

variable {target source : Element}

theorem conform_plain {value : Value}
    (typed : value.Typed source)
    (takes : Value.Takes target source) :
    ∃ fitted, Datum.fit target value = .ok fitted ∧ fitted.Typed target ∧
      Memory.conform target [value] = [fitted] := by
  obtain ⟨fits, fittedTyped⟩ := typed.fit? takes
  refine ⟨value.fitted target, ?_, fittedTyped, ?_⟩
  · rw [Datum.fit, fits]
  · simp [Memory.conform, Element.slotKind_zero]

/-- What a place for plain values takes is plain. -/
theorem Datum.Typed.eq_plain (typed : new.Typed source)
    (takes : Value.Takes target source)
    (scalar : target.isObject = false) :
    ∃ value, new = .plain value ∧ value.Typed source := by
  cases typed with
  | plain _ typed => exact ⟨_, rfl, typed⟩
  | object isObject =>
    cases takes with
    | same =>
      rw [scalar] at isObject
      cases isObject
    | widened => cases isObject

/-- A place for objects takes objects of its own kind. -/
theorem Datum.Typed.eq_object (typed : new.Typed source)
    (takes : Value.Takes target source)
    (isObject : target.isObject = true) :
    source = target ∧ ∃ fields, new = .object target fields := by
  cases takes with
  | same =>
    cases typed with
    | plain scalar =>
      rw [scalar] at isObject
      cases isObject
    | object => exact ⟨rfl, _, rfl⟩
  | widened => cases isObject

/-- Assigning to what a use designates replaces that part of the slots. -/
theorem Datum.assign_of_resolves
    (resolves : scope.Resolves name indexed field resolved)
    (typed : datum.Typed (baseOf resolved.owner indexed).element)
    (newTyped : new.Typed source)
    (takes : Value.Takes resolved.type.element source) :
    ∃ changed, datum.assign field new = .ok changed ∧
      changed.Typed (baseOf resolved.owner indexed).element ∧
      changed.slots = splice datum.slots resolved.offset
        (Memory.conform resolved.type.element new.slots) := by
  cases resolves with
  | @whole owner found list =>
    change Value.Takes (baseOf owner indexed).element source at takes
    change datum.Typed (baseOf owner indexed).element at typed
    change ∃ changed, _ ∧ Datum.Typed changed (baseOf owner indexed).element ∧
      changed.slots = splice datum.slots 0
        (Memory.conform (baseOf owner indexed).element new.slots)
    generalize (baseOf owner indexed).element = target at takes typed
    cases typed with
    | @plain old _ scalar typed =>
      obtain ⟨value, rfl, valueTyped⟩ := newTyped.eq_plain takes scalar
      obtain ⟨fitted, fits, fittedTyped, conformed⟩ :=
        conform_plain valueTyped takes
      refine ⟨.plain fitted, ?_, .plain scalar fittedTyped, ?_⟩
      · simp only [Datum.assign, typed.element_eq, fits]
        rfl
      · change [fitted] = splice [old] 0 (Memory.conform target [value])
        rw [conformed]
        rfl
    | @object _ fields isObject typed =>
      obtain ⟨rfl, others, rfl⟩ := newTyped.eq_object takes isObject
      refine ⟨.object source others, rfl, newTyped, ?_⟩
      rw [newTyped.suits.conform_self]
      rfl
  | @member owner field member found list chosen =>
    have object := Scope.isObject_of_attribute? chosen
    simp only [Ty.isObject, Bool.and_eq_true] at object
    change Value.Takes member.element source at takes
    cases typed with
    | plain scalar =>
      rw [baseOf, object.1] at scalar
      cases scalar
    | @object _ fields isObject typed =>
      obtain ⟨value, rfl, valueTyped⟩ :=
        newTyped.eq_plain takes member.element_scalar
      obtain ⟨fitted, fits, fittedTyped, conformed⟩ :=
        conform_plain valueTyped takes
      refine ⟨.object _ fun other => if other = member then fitted
        else fields other, ?_, .object isObject ?_, ?_⟩
      · simp only [Datum.assign, ofName?_of_attribute? chosen, fits]
        rfl
      · intro other
        by_cases same : other = member
        · rw [if_pos same, same]
          exact fittedTyped
        · rw [if_neg same]
          exact typed other
      · change _ = splice _ member.offset
          (Memory.conform member.element [value])
        rw [conformed]
        cases member <;> rfl

/-! ## Variables and items -/

section

variable {context : Context} {first : Address} {location : Location}
  {holding : Holding}

section

variable (designates : context.Designates name false field resolved
  first location)
include designates

/-- What is used without an index, down to a single datum, is no list. -/
theorem single_owner (single : resolved.type.isList = false) :
    resolved.owner.type.isList = false := by
  obtain ⟨_, ran⟩ := designates.named
  cases Scope.resolves_of_resolve ran with
  | whole found => exact single
  | member found list chosen =>
    have object := Scope.isObject_of_attribute? chosen
    simp only [Bool.false_eq_true, if_false, Ty.isObject, Bool.and_eq_true,
      Bool.not_eq_true'] at object
    exact object.2

/-- A use of a variable reads the designated part of its slots. -/
theorem Holding.read_whole (typed : holding.Typed resolved.owner.type)
    (single : resolved.type.isList = false) :
    ∃ part, (holding.read none >>= fun datum => datum.select field) = .ok part ∧
      part.Typed resolved.type.element ∧
      part.slots = (holding.slots.drop resolved.offset).take
        resolved.type.slotCount := by
  have ownerSingle := single_owner designates single
  obtain ⟨_, ran⟩ := designates.named
  cases typed with
  | single _ typed =>
    exact Datum.select_of_resolves (Scope.resolves_of_resolve ran) typed single
  | list list =>
    rw [ownerSingle] at list
    cases list

/-- Assigning to a variable replaces the designated part of its slots. -/
theorem Holding.update_whole {source : Element}
    (typed : holding.Typed resolved.owner.type)
    (single : resolved.type.isList = false)
    (newTyped : new.Typed source)
    (takes : Value.Takes resolved.type.element source) :
    ∃ changed,
      (holding.update none fun old => old.assign field new) = .ok changed ∧
      changed.Typed resolved.owner.type ∧
      changed.slots = splice holding.slots resolved.offset
        (Memory.conform resolved.type.element new.slots) := by
  have ownerSingle := single_owner designates single
  obtain ⟨_, ran⟩ := designates.named
  cases typed with
  | @single datum _ _ typed =>
    obtain ⟨changed, assigned, changedTyped, slots⟩ :=
      Datum.assign_of_resolves (Scope.resolves_of_resolve ran) typed
        newTyped takes
    refine ⟨.single changed, ?_, .single ownerSingle changedTyped, slots⟩
    simp only [Holding.update, Holding.read, bind, Except.bind, assigned]
    rfl
  | list list =>
    rw [ownerSingle] at list
    cases list

end

variable {number : Int64}

section

variable (designates : context.Designates name true field resolved
  first location) (typed : holding.Typed resolved.owner.type)
include designates typed

/-- The item of a list of which a use designates a part. -/
theorem Holding.item (atLeast : 0 ≤ number.toInt)
    (below : number.toInt < resolved.owner.type.size) :
    ∃ data datum, holding = .list data ∧
      data[number.toInt.toNat]? = some datum ∧
      holding.read (some number) = .ok datum ∧
      datum.Typed (baseOf resolved.owner true).element ∧
      (∀ datum ∈ data, datum.Typed resolved.owner.type.element) ∧
      data.length = resolved.owner.type.size := by
  obtain ⟨_, ran⟩ := designates.named
  have list := (Scope.resolves_of_resolve ran).list
  cases typed with
  | single single =>
    rw [single] at list
    cases list
  | @list data _ _ length typed =>
    have inside : number.toInt.toNat < data.length := by omega
    refine ⟨data, data[number.toInt.toNat], rfl,
      List.getElem?_eq_getElem inside, ?_, typed _ (List.getElem_mem inside),
      typed, length⟩
    have inRange : 0 ≤ number.toInt ∧ number.toInt < (data.length : Int) := by
      omega
    simp only [Holding.read, Holding.place, if_pos inRange, bind, Except.bind,
      List.getElem?_eq_getElem inside]

/-- A list has no item outside of its bounds. -/
theorem Holding.read_outside
    (outside : ¬ (0 ≤ number.toInt ∧ number.toInt < resolved.owner.type.size)) :
    holding.read (some number) =
      .error (.indexOutOfBounds number resolved.owner.type.size) := by
  obtain ⟨_, ran⟩ := designates.named
  have list := (Scope.resolves_of_resolve ran).list
  cases typed with
  | single single =>
    rw [single] at list
    cases list
  | list _ length =>
    rw [← length] at outside ⊢
    simp only [Holding.read, Holding.place, if_neg outside, bind, Except.bind]

/-- A use of an item reads the designated part of the slots of the list. -/
theorem Holding.read_item (single : resolved.type.isList = false)
    (atLeast : 0 ≤ number.toInt)
    (below : number.toInt < resolved.owner.type.size) :
    ∃ part, (holding.read (some number) >>= fun datum =>
      datum.select field) = .ok part ∧ part.Typed resolved.type.element ∧
      part.slots = (holding.slots.drop (resolved.offset +
        number.toInt.toNat * resolved.owner.type.element.slotWidth)).take
          resolved.type.slotCount := by
  obtain ⟨_, datum, rfl, listed, read, datumTyped, typed, _⟩ :=
    Holding.item designates typed atLeast below
  obtain ⟨_, ran⟩ := designates.named
  obtain ⟨part, selected, partTyped, slots⟩ :=
    Datum.select_of_resolves (Scope.resolves_of_resolve ran) datumTyped single
  refine ⟨part, ?_, partTyped, ?_⟩
  · rw [read]
    exact selected
  · have room := designates.item_room
    rw [slots, ← Datum.slots_item typed listed, List.drop_take, List.drop_drop,
      List.take_take, Nat.min_eq_left (by omega), Nat.add_comm]
    rfl

/-- Assigning to an item replaces that part of the slots of the list. -/
theorem Holding.update_item {source : Element}
    (newTyped : new.Typed source)
    (takes : Value.Takes resolved.type.element source)
    (narrow : new.slots.length = resolved.type.slotCount)
    (atLeast : 0 ≤ number.toInt)
    (below : number.toInt < resolved.owner.type.size) :
    ∃ changed,
      (holding.update (some number) fun old => old.assign field new) =
      .ok changed ∧ changed.Typed resolved.owner.type ∧
      changed.slots = splice holding.slots (resolved.offset +
        number.toInt.toNat * resolved.owner.type.element.slotWidth)
          (Memory.conform resolved.type.element new.slots) := by
  obtain ⟨data, datum, rfl, listed, read, datumTyped, typed, length⟩ :=
    Holding.item designates typed atLeast below
  obtain ⟨_, ran⟩ := designates.named
  have resolves := Scope.resolves_of_resolve ran
  obtain ⟨changed, assigned, changedTyped, slots⟩ :=
    Datum.assign_of_resolves resolves datumTyped newTyped takes
  have inside := (List.getElem?_eq_some_iff.mp listed).1
  refine ⟨.list (data.set number.toInt.toNat changed), ?_, ?_, ?_⟩
  · simp only [Holding.update, read, bind, Except.bind, assigned]
    rfl
  · refine .list resolves.list (by simp [length]) fun other member => ?_
    rcases List.mem_or_eq_of_mem_set member with old | rfl
    · exact typed other old
    · exact changedTyped
  · have room := designates.item_room
    have itemWidth : datum.slots.length =
        resolved.owner.type.element.slotWidth :=
      datumTyped.length
    change (data.set number.toInt.toNat changed).flatMap Datum.slots = _
    rw [Datum.slots_set typed changedTyped inside, slots,
      splice_splice, Nat.add_comm]
    · rfl
    · rw [itemWidth]
      exact Datum.slots_item typed listed
    · rw [Datum.length_flatMap_slots typed, itemWidth, ← Nat.succ_mul]
      exact Nat.mul_le_mul_right _ inside
    · rw [Memory.length_conform, narrow, itemWidth]
      exact room

end

end

end Easel.Meaning
