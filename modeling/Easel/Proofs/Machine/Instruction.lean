import Easel.Proofs.Code.Layout
import Easel.Proofs.Memory.Contents
import Easel.Proofs.Session.Run

/-!
# Instructions on well-kinded memory

Each instruction that is generated works on places of the types that it
needs.  The equations of this module give the outcome of such an instruction
and the machine that it leaves, in terms of the contents of the places.
-/

namespace Easel

variable {value : Value} {operator : Operator} {builtin : Builtin}

/-- Addresses of slots are small numbers. -/
theorem locate?_bounds {address : Address} {location : Location}
    (located : locate? address = some location) :
    0 ≤ address ∧ address < 50000 := by
  obtain ⟨_, start, rfl, inside⟩ := segmentBase?_of_locate? located
  obtain ⟨_, segment, rfl⟩ := segmentBase?_eq_some start
  have segmentBound := segment?_lt segment
  have regionBound : location.region.index ≤ 4 := by
    cases location.region <;> decide
  rw [segmentSize_eq] at inside
  unfold Address
  omega

def Value.pointer (address : Address) : Value :=
  .int (Int64.ofInt address)

theorem Value.typed_pointer (address : Address) :
    (pointer address).Typed .int :=
  .int _

theorem Cell.pointer_eq {slot address : Address} {location : Location}
    (located : locate? address = some location) :
    Cell.pointer ⟨slot, .pointer address⟩ = .ok address := by
  obtain ⟨_, _⟩ := locate?_bounds located
  have number : (Int64.ofInt address).toInt = address := by
    unfold Address at *
    rw [Int64.toInt_ofInt_of_le] <;> omega
  have small : Address.wrap address = address := by
    unfold Address Address.wrap at *
    rw [Int.bmod_eq_of_le] <;> omega
  simp only [pointer, Value.pointer, Value.int?, Option.bind_some,
    number, small, if_true, expect]

namespace Exec

variable {machine : Machine} {address result : Address}
  {location place : Location}
variable {type : Ty}

theorem fetch_eq (located : locate? address = some location) :
    fetch address machine =
      .ok ⟨address, machine.memory.contents address⟩ machine := by
  simp only [fetch, Memory.read_eq located, bind, EStateM.bind, get_run,
    MonadExcept.ofExcept, pure, EStateM.pure]

variable {truth : Bool} {number : Int64}

theorem fetchTruth_eq (located : locate? address = some location)
    (holds : machine.memory.contents address = .bool truth) :
    fetchTruth address machine = .ok truth machine := by
  simp only [fetchTruth, bind, EStateM.bind, fetch_eq located, holds,
    Cell.truth, Cell.expect, Value.bool?, MonadExcept.ofExcept,
    pure, EStateM.pure]

theorem fetchInteger_eq (located : locate? address = some location)
    (holds : machine.memory.contents address = .int number) :
    fetchInteger address machine = .ok number machine := by
  simp only [fetchInteger, bind, EStateM.bind, fetch_eq located,
    holds, Cell.integer, Cell.expect, Value.int?, MonadExcept.ofExcept,
    pure, EStateM.pure]

theorem fetchPointer_eq {target : Address} {found : Location}
    (located : locate? address = some location)
    (holds : machine.memory.contents address = .pointer target)
    (targetLocated : locate? target = some found) :
    fetchPointer address machine = .ok target machine := by
  simp only [fetchPointer, bind, EStateM.bind, fetch_eq located, holds,
    Cell.pointer_eq targetLocated, MonadExcept.ofExcept, pure, EStateM.pure]

theorem store_eq (machine : Machine)
    (located : locate? address = some location)
    (writable : location.region ≠ .constant)
    (typed : value.Typed location.kind) :
    store address value machine =
      .ok () { machine with
        memory := machine.memory.fill location.region address [value] } := by
  simp only [store, storing,
    Memory.write_eq machine.memory located writable typed.fit?_self]
  rfl

theorem jumpTarget_eq (machine : Machine) (target : Nat) :
    jumpTarget (target : Int) machine = .ok target machine := by
  unfold jumpTarget
  rw [if_neg (Int.not_lt.mpr (Int.natCast_nonneg target))]
  rfl

theorem execute_jump (machine : Machine) (target : Nat) :
    execute (Context.jump target) machine = .ok (.jump target) machine := by
  simp only [execute, Context.jump, branch, bind, EStateM.bind,
    jumpTarget_eq, pure, EStateM.pure, if_true]

theorem execute_jumpUnless {value : Operand}
    (target : Nat)
    (located : locate? value.address = some location)
    (holds : machine.memory.contents value.address = .bool truth) :
    execute (Context.jumpUnless value target) machine =
      .ok (if truth then .next else .jump target) machine := by
  simp only [execute, Context.jumpUnless, branch, bind, EStateM.bind,
    jumpTarget_eq, pure, EStateM.pure, Functor.map, EStateM.map,
    fetchTruth_eq located holds]
  cases truth <;> rfl

/-! ## Moving values -/

section

variable {source target pointer : Address} {targetType : Ty} {found : Location}

/-- The machine after a single value was copied from one place to another. -/
def copied (machine : Machine)
    (source : Address)
    (type : Ty)
    (target : Address)
    (targetType : Ty)
    (region : Region) : Machine :=
  { machine with
    memory := machine.memory.fill region target
      (Memory.conform targetType.element
        (machine.memory.block source type.slotCount)) }

/-- A single value can be copied from one place to another. -/
structure Copies (source : Address)
    (type : Ty)
    (target : Address)
    (targetType : Ty)
    (region : Region) : Prop where
  source : ∃ location, Place source type location
  target : ∃ location, Place target targetType location ∧
    location.region = region
  varies : region.isVariable = true
  single : type.isList = false
  targetSingle : targetType.isList = false
  takes : Value.Takes targetType.element type.element

variable {region : Region}

theorem Copies.narrow (copies : Copies source type target targetType region) :
    type.slotCount = targetType.slotCount :=
  Ty.slotCount_of_takes copies.targetSingle copies.single copies.takes

/-- A value that was copied can be read at both places if they are apart. -/
theorem block_copied (copies : Copies source type target targetType region)
    (differs : targetType.element ≠ type.element)
    (machine : Machine) :
    (copied machine source type target targetType region).memory.block target
        targetType.slotCount =
      Memory.conform targetType.element
        ((copied machine source type target targetType region).memory.block
          source targetType.slotCount) := by
  obtain ⟨_, place⟩ := copies.source
  obtain ⟨_, targetPlace, rfl⟩ := copies.target
  have narrow := copies.narrow
  have length : (Memory.conform targetType.element
      (machine.memory.block source type.slotCount)).length =
        targetType.slotCount := by
    rw [Memory.length_conform, Memory.length_block, narrow]
  have one : targetType.slotCount = 1 := by
    have takes := copies.takes
    rw [Ty.slotCount, copies.targetSingle]
    generalize targetType.element = kind at *
    generalize type.element = other at *
    cases takes with
    | same => exact (differs rfl).elim
    | widened => rfl
  unfold copied
  rw [Memory.block_fill _ targetPlace length, Memory.block_fill_apart, narrow]
  intro index inside position bound same
  rw [length, one] at bound
  rw [one] at inside
  obtain rfl : index = 0 := by omega
  obtain rfl : position = 0 := by omega
  have sameSlot : source = target := by simpa using same
  subst sameSlot
  have sameLocation := place.located.symm.trans targetPlace.located
  cases sameLocation
  exact differs (targetPlace.kind.symm.trans place.kind)

section

variable (kinded : machine.memory.Kinded)
include kinded

theorem copy_eq (copies : Copies source type target targetType region) :
    storing (Memory.copy source target) machine =
      .ok () (copied machine source type target targetType region) := by
  obtain ⟨_, sourcePlace⟩ := copies.source
  obtain ⟨_, targetPlace, rfl⟩ := copies.target
  have suits := Memory.suits_block kinded sourcePlace (Nat.le_refl _)
  have wrote := Memory.writeBlock_place machine.memory targetPlace
    (Region.not_constant copies.varies) suits
    copies.takes (Nat.le_of_eq copies.narrow)
  simp only [storing,
    Memory.copy_of_read (Memory.readWhole_place sourcePlace copies.single),
    wrote, copied]

theorem execute_assign (copies : Copies source type target targetType region) :
    execute ⟨.assign, source, .unused, target⟩ machine =
      .ok .next (copied machine source type target targetType region) := by
  simp only [execute, move, bind, EStateM.bind, copy_eq kinded copies,
    pure, EStateM.pure]

theorem execute_assignIndex (located : locate? pointer = some location)
    (holds : machine.memory.contents pointer = .pointer target)
    (copies : Copies source type target targetType region) :
    execute ⟨.assignIndex, source, .unused, pointer⟩ machine =
      .ok .next (copied machine source type target targetType region) := by
  obtain ⟨_, targetPlace, _⟩ := copies.target
  simp only [execute, move, bind, EStateM.bind,
    fetchPointer_eq located holds targetPlace.located, copy_eq kinded copies,
    pure, EStateM.pure]

theorem execute_assignIndexInverse (located : locate? pointer = some location)
    (holds : machine.memory.contents pointer = .pointer source)
    (copies : Copies source type target targetType region) :
    execute ⟨.assignIndexInverse, pointer, .unused, target⟩ machine =
      .ok .next (copied machine source type target targetType region) := by
  obtain ⟨_, sourcePlace⟩ := copies.source
  simp only [execute, move, bind, EStateM.bind,
    fetchPointer_eq located holds sourcePlace.located, copy_eq kinded copies,
    pure, EStateM.pure]

end

end

theorem execute_checkBound {index : Address}
    (size : Address)
    (located : locate? index = some location)
    (holds : machine.memory.contents index = .int number) :
    execute ⟨.checkBound, size, .unused, index⟩ machine =
      if 0 ≤ number.toInt ∧ number.toInt < size then .ok .next machine
      else .error (.indexOutOfBounds number size) machine := by
  simp only [execute, move, checkIndex, bind, EStateM.bind,
    fetchInteger_eq located holds]
  by_cases inside : 0 ≤ number.toInt ∧ number.toInt < size
  · rw [if_pos inside, if_pos inside]
    rfl
  · rw [if_neg inside, if_neg inside]
    rfl

theorem execute_addAddress {base index pointer : Address} {found : Location}
    (located : locate? index = some location)
    (holds : machine.memory.contents index = .int number)
    (baseLocated : locate? base = some found)
    (pointerPlace : Place pointer (.basic .int) place)
    (writable : place.region ≠ .constant) :
    execute ⟨.addAddress, base, index, pointer⟩ machine =
      .ok .next { machine with
        memory := machine.memory.fill place.region pointer
          [.pointer (base + number.toInt * found.element.slotWidth)] } := by
  have typed :
      (Value.pointer (base + number.toInt * found.element.slotWidth)).Typed
      place.kind := by
    rw [pointerPlace.kind]
    exact .int _
  have stored := store_eq machine pointerPlace.located writable typed
  unfold Value.pointer at stored
  simp only [execute, move, pointTo, bind, EStateM.bind,
    fetchInteger_eq located holds, locate, baseLocated, MonadExcept.ofExcept,
    pure, EStateM.pure, stored, Value.pointer]

/-- The number of slots of a declaration, by the fields of its instruction. -/
theorem declared_count (fits : type.Fits) :
    max (if type.isList then Address.wrap type.size else 1).toNat 1 *
      type.element.slotWidth = type.slotCount := by
  cases list : type.isList with
  | false => simp [Ty.slotCount, list]
  | true =>
    have small := fits.small
    have filled := fits.filled list
    have sizeSmall : type.size ≤ segmentSize := by
      rw [Ty.slotCount_of_list list] at small
      exact Nat.le_trans (Nat.le_mul_of_pos_right _ type.element.slotWidth_pos)
        small
    rw [if_pos rfl, Address.wrap_of_small sizeSmall, Int.toNat_natCast,
      Ty.slotCount_of_list list, Nat.max_eq_left filled]

/-- A declared variable reads as zero. -/
theorem execute_init (declared : Place address type location)
    (writable : location.region ≠ .constant)
    (fits : type.Fits) :
    execute (initQuad address type) machine =
      .ok .next { machine with
        memory :=
          machine.memory.erase location.region address type.slotCount } := by
  simp only [execute, initQuad, move, declare, Element.ofCode?_code,
    bind, EStateM.bind, declared_count fits, storing, pure, EStateM.pure,
    Memory.clear_eq machine.memory declared.located writable fits.small]

section

variable {left right : Address} {leftPlace rightPlace : Location}
  (leftLocated : locate? left = some leftPlace)
  (rightLocated : locate? right = some rightPlace)
include leftLocated rightLocated

theorem execute_operator (located : locate? result = some location)
    (writable : location.region ≠ .constant)
    (typed : value.Typed location.kind)
    (computed : Calculation.binary machine.position operator.operation ⟨left,
      machine.memory.contents left⟩ ⟨right, machine.memory.contents right⟩ =
      .ok value) :
    execute ⟨operator.operation, left, right, result⟩ machine =
      .ok .next { machine with
        memory := machine.memory.fill location.region result [value] } := by
  have calculates : execute ⟨operator.operation, left, right, result⟩ =
      calculate ⟨operator.operation, left, right, result⟩ := by
    cases operator <;> rfl
  simp only [calculates, calculate, evaluate, bind, EStateM.bind,
    fetch_eq leftLocated, Calculation.unary?_operator, fetch_eq rightLocated,
    get_run, computed, MonadExcept.ofExcept, pure, EStateM.pure,
    store_eq machine located writable typed]

theorem execute_operator_error {fault : Fault}
    (computed : Calculation.binary machine.position operator.operation ⟨left,
      machine.memory.contents left⟩ ⟨right, machine.memory.contents right⟩ =
      .error fault) :
    execute ⟨operator.operation, left, right, result⟩ machine =
      .error fault machine := by
  have calculates : execute ⟨operator.operation, left, right, result⟩ =
      calculate ⟨operator.operation, left, right, result⟩ := by
    cases operator <;> rfl
  simp only [calculates, calculate, evaluate, bind, EStateM.bind,
    fetch_eq leftLocated, Calculation.unary?_operator, fetch_eq rightLocated,
    get_run, computed, MonadExcept.ofExcept, throw_run]

end

theorem execute_not (located : locate? address = some location)
    (holds : machine.memory.contents address = .bool truth)
    (resultPlace : Place result (.basic .bool) place)
    (writable : place.region ≠ .constant) :
    execute ⟨.not, address, .unused, result⟩ machine =
      .ok .next { machine with
        memory := machine.memory.fill place.region result [.bool !truth] } := by
  have typed : (Value.bool !truth).Typed place.kind := by
    rw [resultPlace.kind]
    exact .bool _
  simp only [execute, calculate, evaluate, bind, EStateM.bind,
    fetch_eq located, holds, Calculation.unary?, Cell.truth, Cell.expect,
    Value.bool?, Except.bind, pure, Except.pure, MonadExcept.ofExcept,
    EStateM.pure, store_eq machine resultPlace.located writable typed]

theorem fetchDrawing_eq (kinded : machine.memory.Kinded)
    (drawn : Place address type location)
    (object : type.isObject = true) :
    fetchDrawing address machine =
      .ok (Drawing.ofSlots (machine.memory.block address type.slotCount))
        machine := by
  simp only [fetchDrawing, bind, EStateM.bind, get_run,
    Memory.readDrawing_eq kinded drawn object, MonadExcept.ofExcept,
    pure, EStateM.pure]

theorem printed_eq (kinded : machine.memory.Kinded)
    (shown : Place address type location)
    (single : type.isList = false) :
    printed address machine =
      .ok (textOfSlots (machine.memory.block address type.slotCount))
        machine := by
  have typed := kinded.contents shown.located
  rw [shown.kind] at typed
  obtain ⟨_, first⟩ := machine.memory.block_eq_cons address single
  cases isObject : type.element.isObject with
  | true =>
    have object : type.isObject = true := by
      simp [Ty.isObject, isObject, single]
    have drawing := fetchDrawing_eq kinded shown object
    rw [typed.eq_object isObject] at first
    rw [first] at drawing ⊢
    simp only [printed, bind, EStateM.bind, fetch_eq shown.located,
      typed.eq_object isObject, drawing, pure, EStateM.pure, textOfSlots]
  | false =>
    rw [first]
    cases holds : machine.memory.contents address with
    | object kind =>
      rw [holds] at typed
      cases typed with
      | object other =>
        rw [isObject] at other
        cases other
    | _ =>
      simp only [printed, bind, EStateM.bind, fetch_eq shown.located,
        holds, pure, EStateM.pure, textOfSlots]

theorem execute_print (kinded : machine.memory.Kinded)
    (shown : Place address type location)
    (single : type.isList = false) :
    execute ⟨.print, .unused, .unused, address⟩ machine =
      .ok .next { machine with
        screen := machine.screen.print
          (textOfSlots (machine.memory.block address type.slotCount)) } := by
  simp only [execute, interact, bind, EStateM.bind,
    printed_eq kinded shown single, onScreen, modify_run, pure, EStateM.pure]

end Exec

/-! ## Built-in functions -/

/-- What a built-in function gives back: a value, or a change of the canvas. -/
inductive Reply where
  | value (value : Value)
  | stroke (stroke : Stroke)

def Screen.record (screen : Screen) : Stroke → Screen
  | .draw shape drawing => screen.draw shape drawing
  | .clear => screen.clear
  | .update => screen.update

namespace Builtin

def numberIn (slots : List Value) : Float :=
  (slots.head?.bind Value.number?).getD 0.0

def textIn (slots : List Value) : String :=
  (slots.head?.bind Value.string?).getD ""

/-- What a built-in function makes of its arguments and the keys held. -/
def reply (builtin : Builtin)
    (held : List String)
    (arguments : List (List Value)) : Reply :=
  let first := arguments[0]?.getD []
  let second := arguments[1]?.getD []
  match builtin.operation with
  | .keyPressed => .value (.bool (held.contains (textIn first)))
  | .checkCollision =>
    .value (.bool ((Drawing.ofSlots first).overlaps (Drawing.ofSlots second)))
  | .pow => .value (.float ((numberIn first).pow (numberIn second)))
  | .sqrt => .value (.float (numberIn first).sqrt)
  | .render =>
    let drawing := Drawing.ofSlots first
    .stroke (.draw (Shape.ofElement drawing.kind) drawing)
  | .clear => .stroke .clear
  | _ => .stroke .update

end Builtin

/-- The machine after an instruction that stored a value or drew something. -/
def Machine.replied (machine : Machine) (result : Address) : Reply → Machine
  | .value value =>
    { machine with memory := machine.memory.fill .temp result [value] }
  | .stroke stroke => { machine with screen := machine.screen.record stroke }

def Memory.slots (memory : Memory) (operand : Operand) : List Value :=
  memory.block operand.address operand.type.slotCount

/-- A reply of the type that a built-in function returns. -/
inductive Reply.Typed : Reply → Element → Prop where
  | value {value : Value} {element : Element} (typed : value.Typed element) :
      Typed (.value value) element
  | stroke (stroke : Stroke) : Typed (.stroke stroke) .void

theorem Builtin.find?_mem {name : String} (found : find? name = some builtin) :
    builtin ∈ all :=
  List.mem_of_find?_eq_some found

theorem Builtin.reply_typed (member : builtin ∈ all)
    (held : List String)
    (arguments : List (List Value)) :
    (builtin.reply held arguments).Typed builtin.returns := by
  simp only [all, List.mem_cons, List.not_mem_nil, or_false] at member
  rcases member with rfl | rfl | rfl | rfl | rfl | rfl | rfl
  · exact .value (.bool _)
  · exact .value (.bool _)
  · exact .value (.float _)
  · exact .value (.float _)
  · exact .stroke _
  · exact .stroke _
  · exact .stroke _

section

variable {machine : Machine} {operand : Operand} {location : Location}

/-- The number in the slots of a numeric operand. -/
theorem number_of_slots (kinded : machine.memory.Kinded)
    (place : Place operand.address operand.type location)
    (numeric : operand.type.isNumeric = true) :
    Cell.number ⟨operand.address, machine.memory.contents operand.address⟩ =
      .ok (Builtin.numberIn (machine.memory.slots operand)) := by
  simp only [Ty.isNumeric, Bool.and_eq_true, Bool.not_eq_true'] at numeric
  obtain ⟨rest, first⟩ := machine.memory.block_eq_cons operand.address numeric.2
  have typed := kinded.contents place.located
  rw [place.kind] at typed
  obtain ⟨number, isNumber⟩ : ∃ number,
      Cell.number ⟨operand.address, machine.memory.contents operand.address⟩ =
        .ok number :=
    Calculation.number_ok typed numeric.1
  rw [isNumber, Builtin.numberIn, Memory.slots, first]
  simp only [Cell.number, Cell.expect] at isNumber
  split at isNumber
  · rename_i found holds
    cases isNumber
    simp only [List.head?_cons, Option.bind_some, holds, Option.getD_some]
  · cases isNumber

namespace Exec

variable {other : Operand} {otherLocation place : Location}
  {result right : Address}

section

variable (kinded : machine.memory.Kinded)
include kinded

theorem execute_keyPressed (key : Place operand.address operand.type location)
    (isText : (Ty.basic .string).accepts operand.type = true)
    (resultPlace : Place result (.basic .bool) place)
    (temporary : place.region = .temp) :
    execute ⟨.keyPressed, operand.address, right, result⟩ machine =
      .ok .next (machine.replied result (.value (.bool
        (machine.screen.held.contains
          (Builtin.textIn (machine.memory.slots operand)))))) := by
  have textual : operand.type.element = .string ∧
      operand.type.isList = false := by
    simp only [Ty.accepts, Ty.agrees, Ty.basic, Bool.or_eq_true,
      Bool.and_eq_true, beq_iff_eq] at isText
    rcases isText with ⟨element, depth⟩ | ⟨⟨_, isFloat⟩, _⟩
    · exact ⟨element.symm, by simp [Ty.isList, ← depth]⟩
    · cases isFloat
  obtain ⟨_, first⟩ := machine.memory.block_eq_cons operand.address textual.2
  have typed := kinded.contents key.located
  rw [key.kind, textual.1] at typed
  obtain ⟨text, holds⟩ := typed.eq_string
  have answerTyped : (Value.bool (machine.screen.keyPressed text)).Typed
      place.kind := by
    rw [resultPlace.kind]
    exact .bool _
  have writable : place.region ≠ .constant := by
    rw [temporary]
    decide
  rw [Memory.slots, first, holds]
  simp only [execute, interact, bind, EStateM.bind, fetch_eq key.located,
    holds, Cell.string, Cell.expect, Value.string?, MonadExcept.ofExcept, pure,
    EStateM.pure, get_run,
    store_eq machine resultPlace.located writable answerTyped, temporary]
  rfl

theorem execute_checkCollision
    (firstPlace : Place operand.address operand.type location)
    (firstObject : operand.type.isObject = true)
    (secondPlace : Place other.address other.type otherLocation)
    (secondObject : other.type.isObject = true)
    (resultPlace : Place result (.basic .bool) place)
    (temporary : place.region = .temp) :
    execute ⟨.checkCollision, operand.address, other.address, result⟩ machine =
      .ok .next (machine.replied result (.value (.bool
        ((Drawing.ofSlots (machine.memory.slots operand)).overlaps
          (Drawing.ofSlots (machine.memory.slots other)))))) := by
  have answerTyped : ∀ truth, (Value.bool truth).Typed place.kind := by
    intro truth
    rw [resultPlace.kind]
    exact .bool _
  have writable : place.region ≠ .constant := by
    rw [temporary]
    decide
  simp only [execute, interact, bind, EStateM.bind,
    fetchDrawing_eq kinded firstPlace firstObject,
    fetchDrawing_eq kinded secondPlace secondObject,
    store_eq machine resultPlace.located writable (answerTyped _), temporary,
    pure, EStateM.pure]
  rfl

theorem execute_pow (basePlace : Place operand.address operand.type location)
    (baseNumeric : operand.type.isNumeric = true)
    (exponentPlace : Place other.address other.type otherLocation)
    (exponentNumeric : other.type.isNumeric = true)
    (resultPlace : Place result (.basic .float) place)
    (temporary : place.region = .temp) :
    execute ⟨.pow, operand.address, other.address, result⟩ machine =
      .ok .next (machine.replied result (.value (.float
        ((Builtin.numberIn (machine.memory.slots operand)).pow
          (Builtin.numberIn (machine.memory.slots other)))))) := by
  have answerTyped : ∀ number, (Value.float number).Typed place.kind := by
    intro number
    rw [resultPlace.kind]
    exact .float _
  have writable : place.region ≠ .constant := by
    rw [temporary]
    decide
  simp only [execute, calculate, evaluate, bind, EStateM.bind,
    fetch_eq basePlace.located, Calculation.unary?,
    fetch_eq exponentPlace.located, get_run, Calculation.binary,
    Calculation.power, number_of_slots kinded basePlace baseNumeric,
    number_of_slots kinded exponentPlace exponentNumeric, Except.bind, pure,
    Except.pure, MonadExcept.ofExcept, EStateM.pure,
    store_eq machine resultPlace.located writable (answerTyped _), temporary]
  rfl

theorem execute_sqrt
    (operandPlace : Place operand.address operand.type location)
    (numeric : operand.type.isNumeric = true)
    (resultPlace : Place result (.basic .float) place)
    (temporary : place.region = .temp) :
    execute ⟨.sqrt, operand.address, right, result⟩ machine =
      .ok .next (machine.replied result (.value (.float
        (Builtin.numberIn (machine.memory.slots operand)).sqrt))) := by
  have answerTyped : ∀ number, (Value.float number).Typed place.kind := by
    intro number
    rw [resultPlace.kind]
    exact .float _
  have writable : place.region ≠ .constant := by
    rw [temporary]
    decide
  simp only [execute, calculate, evaluate, bind, EStateM.bind,
    fetch_eq operandPlace.located, Calculation.unary?,
    number_of_slots kinded operandPlace numeric, Except.bind, pure, Except.pure,
    MonadExcept.ofExcept, EStateM.pure,
    store_eq machine resultPlace.located writable (answerTyped _), temporary]
  rfl

theorem execute_render
    (operandPlace : Place operand.address operand.type location)
    (object : operand.type.isObject = true) :
    execute ⟨.render, operand.address, right, result⟩ machine =
      .ok .next (machine.replied result (.stroke
        (.draw (Shape.ofElement
          (Drawing.ofSlots (machine.memory.slots operand)).kind)
          (Drawing.ofSlots (machine.memory.slots operand))))) := by
  simp only [execute, interact, bind, EStateM.bind,
    fetchDrawing_eq kinded operandPlace object, onScreen, modify_run,
    pure, EStateM.pure]
  rfl

end

theorem eq_pair_of_length {items : List α} (count : items.length = 2) :
    ∃ first second, items = [first, second] := by
  match items, count with
  | [first, second], _ => exact ⟨first, second, rfl⟩

/-- A built-in function on operands that it accepts. -/
theorem execute_builtin {operands : List Operand}
    (member : builtin ∈ Builtin.all)
    (kinded : machine.memory.Kinded)
    (takes : builtin.Takes operands)
    (placed : ∀ operand ∈ operands, ∃ location,
      Place operand.address operand.type location)
    (stored : builtin.returns ≠ .void →
      ∃ place, Place result (.basic builtin.returns) place ∧
      place.region = .temp) :
    execute (builtin.quad operands result) machine =
      .ok .next (machine.replied result
        (builtin.reply machine.screen.held
          (operands.map machine.memory.slots))) := by
  obtain ⟨count, accepted⟩ := takes
  simp only [Builtin.all, List.mem_cons, List.not_mem_nil, or_false] at member
  rcases member with rfl | rfl | rfl | rfl | rfl | rfl | rfl
  · obtain ⟨key, rfl⟩ := List.length_eq_one_iff.mp count
    obtain ⟨_, keyPlace⟩ := placed key (by simp)
    obtain ⟨_, resultPlace, temporary⟩ := stored (by decide)
    exact execute_keyPressed kinded keyPlace (accepted 0 _ key rfl rfl)
      resultPlace temporary
  · obtain ⟨first, second, rfl⟩ := eq_pair_of_length count
    obtain ⟨_, firstPlace⟩ := placed first (by simp)
    obtain ⟨_, secondPlace⟩ := placed second (by simp)
    obtain ⟨_, resultPlace, temporary⟩ := stored (by decide)
    exact execute_checkCollision kinded firstPlace (accepted 0 _ first rfl rfl)
      secondPlace (accepted 1 _ second rfl rfl) resultPlace temporary
  · obtain ⟨base, exponent, rfl⟩ := eq_pair_of_length count
    obtain ⟨_, basePlace⟩ := placed base (by simp)
    obtain ⟨_, exponentPlace⟩ := placed exponent (by simp)
    obtain ⟨_, resultPlace, temporary⟩ := stored (by decide)
    exact execute_pow kinded basePlace (accepted 0 _ base rfl rfl) exponentPlace
      (accepted 1 _ exponent rfl rfl) resultPlace temporary
  · obtain ⟨operand, rfl⟩ := List.length_eq_one_iff.mp count
    obtain ⟨_, operandPlace⟩ := placed operand (by simp)
    obtain ⟨_, resultPlace, temporary⟩ := stored (by decide)
    exact execute_sqrt kinded operandPlace (accepted 0 _ operand rfl rfl)
      resultPlace temporary
  · obtain ⟨operand, rfl⟩ := List.length_eq_one_iff.mp count
    obtain ⟨_, operandPlace⟩ := placed operand (by simp)
    exact execute_render kinded operandPlace (accepted 0 _ operand rfl rfl)
  · rfl
  · rfl

end Exec

end

end Easel
