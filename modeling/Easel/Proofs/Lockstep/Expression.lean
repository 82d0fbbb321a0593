import Easel.Proofs.Lockstep.Call

/-!
# Expressions in lockstep

Two machines that hold the same in every slot that an expression looks at
compute it in lockstep, and then hold the same in the slots of its value.
Calls in the expression are assumed to be in lockstep for fewer steps.
-/

namespace Easel

variable {target pointer : Address} {argument : Expr} {start : Point}
variable {name : String} {field : Option String} {targetType : Ty}
variable {frame : Frame}

/-- The value of an expression can be copied to a place that accepts it. -/
theorem Exec.Copies.of_accepts {value : Operand} {type : Ty}
    {location : Location}
    (placed : value.Placed)
    (place : Place target type location)
    (varies : location.region.isVariable = true)
    (single : type.isList = false)
    (accepts : type.accepts value.type = true) :
    Exec.Copies value.address value.type target type location.region := by
  obtain ⟨valueSingle, takes⟩ := Ty.takes_of_accepts single accepts
  have stored : type.element ≠ .void := by
    have isValue := place.stored
    simpa [Ty.isVoid, single] using isValue
  obtain ⟨_, valuePlace⟩ :=
    placed.place (by simp [Ty.isVoid, takes.stored stored])
  exact ⟨⟨_, valuePlace⟩, ⟨_, place, rfl⟩, varies, valueSingle, single, takes⟩

/-- An argument that is widened can be copied to the new temporary. -/
theorem Exec.Copies.of_widening {parameter : Ty} {operand : Operand}
    {address : Address} {temps : Element → Nat}
    (takes : takesArgument parameter argument operand.type = true)
    (differs : parameter.agrees operand.type = false)
    (placed : operand.Placed)
    (fits : parameter.Fits)
    (aligned : start.Aligned)
    (fresh : Space.Fresh start.temps parameter address temps) :
    Exec.Copies operand.address operand.type address parameter .temp := by
  obtain ⟨single, accepts⟩ := takesArgument_differs takes differs
  obtain ⟨_, place, inTemp⟩ := (fresh.receives aligned single).place
    (by simp [Ty.isVoid, fits.stored])
  have copies := of_accepts placed place (by rw [inTemp]; rfl) single accepts
  rwa [inTemp] at copies

namespace Scene

variable (scene : Scene)

/-- The slots on which the runs agree include the readable variables. -/
structure Covers (locals : Table Variable)
    (readable : String → Bool)
    (slots : Slots) : Prop extends scene.Wide slots where
  named : ∀ name found address, readable name = true →
    locals.find? name = some found → found.address = some address →
    (Slots.range address found.type.slotCount).Within slots

/-- A check to be passed only if the runs agree on some slots, not on all. -/
def Permits (check : (String → Bool) → Bool) : Prop :=
  ∀ names, scene.settled = some names → check (callableAmong names) = true

/-- The context is that of a function of the program. -/
structure Hosts (context : Context) : Prop where
  functions : context.functions = scene.functions
  arranged : context.Arranged
  single : context.returns.isList = false
  entries : ∀ name routine address, scene.functions.find? name = some routine →
    scene.image.entryOf name = some address →
      ∃ entry : Nat, address = (entry : Int)
  room : ∀ name routine, scene.functions.find? name = some routine →
    ∀ (index : Nat) (type : Ty), routine.parameters[index]? = some type →
      slotsOf (routine.parameters.take index) type.element +
        type.slotCount ≤ segmentSize

variable {scene}
variable {active : Activation × Activation} {slots wider : Slots}
  {first second : Machine}
variable {count position : Nat} {context : Context} {locals : Table Variable}
variable {readable : String → Bool}

theorem Covers.mono (covers : scene.Covers locals readable slots)
    (within : slots.Within wider) :
    scene.Covers locals readable wider :=
  ⟨covers.toWide.mono within,
      fun name found address isReadable known hasAddress =>
    (covers.named name found address isReadable known hasAddress).trans within⟩

theorem Hosts.singleReturns (hosts : scene.Hosts context) :
    context.SingleReturns :=
  fun name routine found => (hosts.arranged.signatures name routine found).1

variable {resolved : Resolved} {address : Address}
  {location : Location} {type : Ty}
  {region : Region} {element : Element} {operand : Operand}

theorem Covers.designated {indexed : Bool}
    (covers : scene.Covers context.scope.locals readable slots)
    (arranged : context.Arranged)
    (designates : context.Designates name indexed field resolved
      address location)
    (permitted : scene.Permits fun _ => readable name) :
    (Slots.range address resolved.owner.type.slotCount).Within slots := by
  cases isSettled : scene.settled with
  | none => exact fun slot _ => covers.every isSettled slot
  | some names =>
    obtain ⟨_, ran⟩ := designates.named
    have found := (Scope.resolves_of_resolve ran).found
    cases inside : context.scope.locals.find? name with
    | some owner =>
      have isOwner : owner = resolved.owner := by
        simpa [Scope.find?, inside] using found
      subst isOwner
      exact covers.named name _ address (permitted names isSettled) inside
        designates.address
    | none =>
      have outside : context.scope.globals.find? name =
          some resolved.owner := by
        simpa [Scope.find?, inside] using found
      obtain ⟨_, _, _, hasAddress, place, isGlobal⟩ :=
        place_of_find? arranged.globals arranged.fitGlobals outside
      rw [designates.address] at hasAddress
      cases hasAddress
      exact covers.toWide.place place (by rw [isGlobal]; rfl)

section

variable (matched : scene.Matched active slots first second)
include matched

theorem Matched.copied {source : Address}
    (copies : Exec.Copies source type target targetType region)
    (known : (Slots.range source type.slotCount).Within slots) :
    scene.Matched active (slots.union (.range target targetType.slotCount))
      (Exec.copied first source type target targetType region)
      (Exec.copied second source type target targetType region) := by
  obtain ⟨_, place⟩ := copies.source
  obtain ⟨_, targetPlace, rfl⟩ := copies.target
  have same := matched.agrees.block known place (Nat.le_refl _)
  have suits := (Memory.suits_block matched.firstRuns.kinded place
    (Nat.le_refl _)).conform copies.takes
  unfold Exec.copied
  rw [← same]
  rw [copies.narrow] at suits ⊢
  exact matched.fill targetPlace copies.varies suits (Nat.le_refl _)

theorem Matched.stored {value : Value}
    (place : Place address (.basic element) location)
    (varies : location.region.isVariable = true)
    (scalar : element.isObject = false)
    (typed : value.Typed element) :
    scene.Matched active
      (slots.union (.range address (Ty.basic element).slotCount)) { first with
        memory := first.memory.fill location.region address [value] }
      { second with
        memory := second.memory.fill location.region address [value] } := by
  have suits := Memory.suits_single typed
  rw [← Space.slotCount_scalar scalar] at suits
  exact matched.fill place varies suits (Nat.le_refl _)

theorem Matched.contents (place : Place operand.address operand.type location)
    (isElement : operand.type.element = element)
    (single : operand.type.isList = false)
    (known : operand.slots.Within slots) :
    (first.memory.contents operand.address).Typed element ∧
      second.memory.contents operand.address =
        first.memory.contents operand.address := by
  have firstSlot : operand.slots operand.address := by
    refine ⟨0, ?_, (Int.add_zero _).symm⟩
    rw [Ty.slotCount_of_single single]
    exact Element.slotWidth_pos _
  constructor
  · rw [← isElement, ← place.kind]
    exact matched.firstRuns.kinded.contents place.located
  · exact (matched.agrees.contents (known _ firstSlot) place.located).symm

end

/-! ## Items of lists -/

/-- Both memories hold the same address of an item or attribute. -/
def Points (owner : Address)
    (resolved : Resolved)
    (region : Region)
    (pointer : Address)
    (first second : Memory) : Prop :=
  ∃ target location, first.contents pointer = .pointer target ∧
    second.contents pointer = .pointer target ∧
    Place target resolved.type location ∧ location.region = region ∧
    (Slots.range target resolved.type.slotCount).Within
      (.range owner resolved.owner.type.slotCount)

/-- The two instructions that find an item keep machines in lockstep. -/
theorem Onward.of_pointer {index : Operand} {stop : Point}
    (code : PointerCode scene.image context name field index resolved
      pointer start stop)
    (aligned : start.Aligned)
    (placed : index.Placed)
    (known : index.slots.Within slots)
    (onward : ∀ owner location,
      context.Designates name true field resolved owner location →
      scene.OnwardWhen (Points owner resolved location.region pointer) count
      stop.position active slots) :
    scene.Onward count start.position active slots := by
  obtain ⟨owner, location, designates, add⟩ := code.designated
  obtain ⟨isInt, single⟩ := Ty.eq_of_agrees code.whole
  obtain ⟨_, indexPlace⟩ := placed.place (by simp [Ty.isVoid, isInt])
  have pointerPlace := code.fresh.basic aligned (by decide)
  obtain ⟨base, baseLocated, baseElement⟩ := designates.base
  have list : resolved.owner.type.isList = true := by
    obtain ⟨_, ran⟩ := designates.named
    exact (Scope.resolves_of_resolve ran).list
  have sizeSmall : resolved.owner.type.size ≤ segmentSize := by
    have small := designates.fits.small
    rw [Ty.slotCount_of_list list] at small
    exact Nat.le_trans (Nat.le_mul_of_pos_right _ (Element.slotWidth_pos _))
      small
  -- The second instruction can rely on what the first has checked.
  have added : scene.OnwardWhen (fun memory _ => ∃ number : Int64,
      memory.contents index.address = .int number ∧ 0 ≤ number.toInt ∧
        number.toInt < resolved.owner.type.size) count (start.position + 1)
        active slots := by
    refine OnwardWhen.of_steps add (by simp) (by simp) ?_
    rintro wider first second within stands ⟨number, holds, atLeast, below⟩
    obtain ⟨_, same⟩ := stands.toMatched.contents indexPlace isInt single
      (known.trans within)
    have bound : number.toInt.toNat < resolved.owner.type.size := by omega
    obtain ⟨found, itemPlace, inRegion⟩ := designates.item bound
    have inside := designates.item_inside bound
    have target : owner + (resolved.offset : Int) + number.toInt *
        base.element.slotWidth = owner + resolved.offset +
          (number.toInt.toNat * resolved.owner.type.element.slotWidth :
            Nat) := by
      rw [baseElement, Int.natCast_mul, Int.toNat_of_nonneg atLeast]
    have firstRan := Exec.execute_addAddress indexPlace.located holds
      baseLocated pointerPlace (by simp)
    have secondRan := Exec.execute_addAddress indexPlace.located
      (same.trans holds) baseLocated pointerPlace (by simp)
    rw [target] at firstRan secondRan
    have matched := fun address =>
      (stands.toMatched.stored pointerPlace rfl rfl
        (Value.typed_pointer address)).mono
        (within.trans (Slots.within_left _ _))
    refine .move firstRan secondRan rfl (matched _) ?_
      (code.position ▸ onward owner location designates)
    refine ⟨_, found, Memory.contents_fill_single pointerPlace.located,
      Memory.contents_fill_single pointerPlace.located,
      itemPlace, inRegion, ?_⟩
    rw [Int.add_assoc, ← Int.natCast_add]
    exact Slots.range_within inside
  have check := code.check
  rw [Address.wrap_of_small sizeSmall] at check
  refine Onward.of_steps check (by simp) (by simp) ?_
  intro wider first second within stands
  obtain ⟨typed, same⟩ := stands.toMatched.contents indexPlace isInt single
    (known.trans within)
  obtain ⟨number, holds⟩ := typed.eq_int
  have firstRan := Exec.execute_checkBound resolved.owner.type.size
    indexPlace.located holds
  have secondRan := Exec.execute_checkBound resolved.owner.type.size
    indexPlace.located (same.trans holds)
  by_cases inBounds : 0 ≤ number.toInt ∧ number.toInt < resolved.owner.type.size
  · exact .move (firstRan.trans (if_pos inBounds))
      (secondRan.trans (if_pos inBounds)) rfl (stands.toMatched.mono within)
      ⟨number, holds, inBounds⟩ added
  · exact .fault rfl (firstRan.trans (if_neg inBounds))
      (secondRan.trans (if_neg inBounds))

variable {value : Address}

/-- The item that a pointer points to is loaded. -/
theorem OnwardWhen.of_load {owner : Address}
    (load : scene.image.Has position
      ⟨.assignIndexInverse, pointer, .unused, value⟩)
    (located : locate? pointer = some location)
    (single : resolved.type.isList = false)
    (receives : Receives resolved.type value)
    (known : (Slots.range owner resolved.owner.type.slotCount).Within slots)
    (onward : scene.Onward count (position + 1) active
      (slots.union (.range value resolved.type.slotCount))) :
    scene.OnwardWhen (Points owner resolved region pointer) count position
      active slots := by
  refine OnwardWhen.of_steps load (by simp) (by simp) ?_
  rintro wider first second within stands ⟨target, found, firstHolds,
    secondHolds, place, _, inside⟩
  obtain ⟨valueLocation, valuePlace, inTemp⟩ := receives.place place.stored
  have copies : Exec.Copies target resolved.type value resolved.type .temp :=
    ⟨⟨found, place⟩, ⟨valueLocation, valuePlace, inTemp⟩, rfl, single,
      single, .same _⟩
  exact .next (Exec.execute_assignIndexInverse stands.firstRuns.kinded located
    firstHolds copies)
    (Exec.execute_assignIndexInverse stands.secondRuns.kinded located
      secondHolds copies)
      (stands.toMatched.copied copies ((inside.trans known).trans within))
    (onward.mono (within.union_left _))

/-! ## Operators and built-in functions -/

theorem Onward.of_operator {operator : Operator} {left right : Operand}
    (apply : scene.image.Has position ⟨operator.operation, left.address,
      right.address, value⟩)
    (typed : operator.type? left.type right.type = some (.basic element))
    (leftPlaced : left.Placed)
    (rightPlaced : right.Placed)
    (receives : Receives (.basic element) value)
    (leftKnown : left.slots.Within slots)
    (rightKnown : right.slots.Within slots)
    (onward : scene.Onward count (position + 1) active
      (slots.union (.range value (Ty.basic element).slotCount))) :
    scene.Onward count position active slots := by
  obtain ⟨leftSingle, rightSingle, accepted⟩ := Operator.type?_eq_some typed
  obtain ⟨leftStored, rightStored, scalar, stored⟩ :=
    Operator.element?_scalar accepted
  obtain ⟨_, leftPlace⟩ := leftPlaced.place (by simp [Ty.isVoid, leftStored])
  obtain ⟨_, rightPlace⟩ := rightPlaced.place (by simp [Ty.isVoid, rightStored])
  obtain ⟨location, place, inTemp⟩ :=
    receives.place (by simp [Ty.isVoid, stored])
  have varies : location.region.isVariable = true := by
    rw [inTemp]
    rfl
  have writable := Region.not_constant varies
  refine Onward.of_steps apply (by cases operator <;> simp [Operator.operation])
    (by cases operator <;> simp [Operator.operation]) ?_
  intro wider first second within stands
  obtain ⟨leftTyped, leftSame⟩ :=
    stands.toMatched.contents leftPlace rfl leftSingle (leftKnown.trans within)
  obtain ⟨rightTyped, rightSame⟩ :=
    stands.toMatched.contents rightPlace rfl rightSingle
      (rightKnown.trans within)
  have computes : Calculation.Computes first.position element
      (Calculation.binary first.position operator.operation
        ⟨left.address, first.memory.contents left.address⟩
        ⟨right.address, first.memory.contents right.address⟩) :=
    Calculation.binary_computes leftTyped rightTyped accepted
  have secondComputes : Calculation.binary second.position operator.operation
      ⟨left.address, second.memory.contents left.address⟩
      ⟨right.address, second.memory.contents right.address⟩ =
        Calculation.binary first.position operator.operation
          ⟨left.address, first.memory.contents left.address⟩
          ⟨right.address, first.memory.contents right.address⟩ := by
    rw [stands.firstPosition, stands.secondPosition, leftSame, rightSame]
  generalize firstComputes : Calculation.binary first.position
    operator.operation ⟨left.address, first.memory.contents left.address⟩
    ⟨right.address, first.memory.contents right.address⟩ =
      result at computes secondComputes
  cases computes with
  | divided =>
    exact .fault rfl
      (Exec.execute_operator_error leftPlace.located rightPlace.located
        firstComputes)
      (Exec.execute_operator_error leftPlace.located rightPlace.located
        secondComputes)
  | value resultTyped =>
    have fits := resultTyped
    rw [← Ty.element_basic element, ← place.kind] at fits
    exact .next
      (Exec.execute_operator leftPlace.located rightPlace.located
        place.located writable fits firstComputes)
      (Exec.execute_operator leftPlace.located rightPlace.located
        place.located writable fits secondComputes)
      (stands.toMatched.stored place varies scalar resultTyped)
      (onward.mono (within.union_left _))

theorem Onward.of_not
    (negate : scene.image.Has position ⟨.not, operand.address, .unused, value⟩)
    (truth : operand.type.agrees (.basic .bool) = true)
    (placed : operand.Placed)
    (receives : Receives (.basic .bool) value)
    (known : operand.slots.Within slots)
    (onward : scene.Onward count (position + 1) active
      (slots.union (.range value (Ty.basic .bool).slotCount))) :
    scene.Onward count position active slots := by
  obtain ⟨isBool, single⟩ := Ty.eq_of_agrees truth
  obtain ⟨_, operandPlace⟩ := placed.place (by simp [Ty.isVoid, isBool])
  obtain ⟨location, place, inTemp⟩ := receives.place rfl
  have varies : location.region.isVariable = true := by
    rw [inTemp]
    rfl
  have writable := Region.not_constant varies
  refine Onward.of_steps negate (by simp) (by simp) ?_
  intro wider first second within stands
  obtain ⟨typed, same⟩ :=
    stands.toMatched.contents operandPlace isBool single (known.trans within)
  obtain ⟨value, holds⟩ := typed.eq_bool
  exact .next (Exec.execute_not operandPlace.located holds place writable)
    (Exec.execute_not operandPlace.located (same.trans holds) place writable)
    (stands.toMatched.stored place varies rfl (.bool _))
    (onward.mono (within.union_left _))

def slotsOfAll (operands : List Operand) : Slots := fun slot =>
  ∃ operand ∈ operands, operand.slots slot

/-- Both machines store the same reply, or draw the same. -/
theorem Matched.replied {reply : Reply}
    (matched : scene.Matched active slots first second)
    (typed : reply.Typed element)
    (scalar : element.isObject = false)
    (receives : Receives (.basic element) value) :
    scene.Matched active
      (slots.union (.range value (Ty.basic element).slotCount))
      (first.replied value reply) (second.replied value reply) := by
  cases typed with
  | value typed =>
    obtain ⟨_, place, inTemp⟩ :=
      receives.place (by simp [Ty.isVoid, typed.not_void])
    rw [Machine.replied, Machine.replied, ← inTemp]
    exact matched.stored place (by rw [inTemp]; rfl) scalar typed
  | stroke stroke =>
    rcases receives with ⟨isVoid, rfl⟩ | ⟨stored, _⟩
    · have shown := matched.shown (matched.alike.record stroke)
      exact ⟨shown.firstRuns, shown.secondRuns,
        shown.agrees.union_unused isVoid, shown.alike⟩
    · cases stored

theorem Onward.of_builtin {builtin : Builtin} {operands : List Operand}
    (apply : scene.image.Has position (builtin.quad operands value))
    (member : builtin ∈ Builtin.all)
    (takes : builtin.Takes operands)
    (placed : ∀ operand ∈ operands, operand.Placed)
    (receives : Receives (.basic builtin.returns) value)
    (known : (slotsOfAll operands).Within slots)
    (onward : scene.Onward count (position + 1) active
      (slots.union (.range value (Ty.basic builtin.returns).slotCount))) :
    scene.Onward count position active slots := by
  have places : ∀ operand ∈ operands,
      ∃ location, Place operand.address operand.type location :=
    fun operand listed =>
    (placed operand listed).place (takes.stored member operand listed)
  have stored : builtin.returns ≠ .void →
      ∃ location, Place value (.basic builtin.returns) location ∧
      location.region = .temp :=
    fun isValue => receives.place (by simp [Ty.isVoid, isValue])
  have proper : ∀ builtin ∈ Builtin.all,
      builtin.operation ≠ .call ∧ builtin.operation ≠ .ret := by
    decide
  refine Onward.of_steps apply (proper builtin member).1
    (proper builtin member).2 ?_
  intro wider first second within stands
  have sameSlots : operands.map second.memory.slots = operands.map
      first.memory.slots := by
    refine List.map_congr_left fun operand listed => ?_
    obtain ⟨_, place⟩ := places operand listed
    refine (stands.agrees.block ?_ place (Nat.le_refl _)).symm
    exact fun slot inside => within slot (known slot ⟨operand, listed, inside⟩)
  have firstRan := Exec.execute_builtin member stands.firstRuns.kinded
    takes places stored
  have secondRan := Exec.execute_builtin member stands.secondRuns.kinded
    takes places stored
  rw [sameSlots, ← stands.alike.held] at secondRan
  exact .next firstRan secondRan
    (stands.toMatched.replied (Builtin.reply_typed member _ _)
      (Builtin.returns_scalar member) receives)
    (onward.mono (within.union_left _))

theorem Onward.of_copy {source : Address}
    (assign : scene.image.Has position ⟨.assign, source, .unused, target⟩)
    (copies : Exec.Copies source type target targetType region)
    (known : (Slots.range source type.slotCount).Within slots)
    (onward : scene.Onward count (position + 1) active
      (slots.union (.range target targetType.slotCount))) :
    scene.Onward count position active slots := by
  refine Onward.of_steps assign (by simp) (by simp) ?_
  intro wider first second within stands
  exact .next (Exec.execute_assign stands.firstRuns.kinded copies)
    (Exec.execute_assign stands.secondRuns.kinded copies)
    (stands.toMatched.copied copies (known.trans within))
    (onward.mono (within.union_left _))

theorem Onward.of_announce {footprint : Address}
    (announce : scene.image.Has position ⟨.era, footprint, .unused, .unused⟩)
    (onward : scene.Onward count (position + 1)
      (announced active { footprint := footprint.toNat }) slots) :
    scene.Onward count position active slots := by
  refine Onward.of_steps announce (by simp) (by simp) ?_
  intro wider first second within stands
  have firstRan := Exec.execute_era first footprint
  have secondRan := Exec.execute_era second footprint
  rw [stands.firstRuns.pending] at firstRan
  rw [stands.secondRuns.pending] at secondRan
  exact .next firstRan secondRan (stands.toMatched.announce rfl rfl)
    (onward.mono within)

variable {done : List Ty} {parameter : Ty}

theorem Onward.of_param
    (pass : scene.image.Has position
      ⟨.param, address, Context.argumentSize type, .unused⟩)
    (place : Place address parameter location)
    (fits : parameter.Fits)
    (sameDepth : type.isList = parameter.isList)
    (sameSize : parameter.isList = true → type.size = parameter.size)
    (known : (Slots.range address parameter.slotCount).Within slots)
    (carries : frame.Carries done)
    (room : slotsOf done parameter.element + parameter.slotCount ≤ segmentSize)
    (onward : ∀ staged : Frame, staged.Carries (done ++ [parameter]) →
      scene.Onward count (position + 1) (announced active staged) slots) :
    scene.Onward count position (announced active frame) slots := by
  refine Onward.of_steps pass (by simp) (by simp) ?_
  intro wider first second within stands
  obtain ⟨staged, passed, stagedCarries⟩ := carries.stage fits.stored room
    (Memory.suits_block stands.firstRuns.kinded place (Nat.le_refl _))
  have secondPassed := passed
  rw [stands.agrees.block (known.trans within) place
    (Nat.le_refl _)] at secondPassed
  exact .next
    (Exec.execute_param stands.firstRuns.pending place fits sameDepth
      sameSize passed)
    (Exec.execute_param stands.secondRuns.pending place fits sameDepth
      sameSize secondPassed)
    (stands.toMatched.announce rfl rfl)
    ((onward staged stagedCarries).mono within)

/-- An argument gets the type of its parameter and is passed. -/
theorem Onward.of_argument {computed widened : Point}
    (takes : takesArgument parameter argument operand.type = true)
    (widening : Widening scene.image parameter operand address computed widened)
    (pass : scene.image.Has widened.position
      ⟨.param, address, Context.argumentSize operand.type, .unused⟩)
    (aligned : computed.Aligned)
    (placed : operand.Placed)
    (fits : parameter.Fits)
    (known : operand.slots.Within slots)
    (carries : frame.Carries done)
    (room : slotsOf done parameter.element + parameter.slotCount ≤ segmentSize)
    (onward : ∀ staged : Frame, staged.Carries (done ++ [parameter]) →
      scene.Onward count (widened.position + 1)
      (announced active staged) slots) :
    scene.Onward count computed.position (announced active frame) slots := by
  cases widening with
  | same agrees =>
    obtain ⟨sameElement, sameDepth, sameSize⟩ :=
      takesArgument_agrees takes agrees
    obtain ⟨_, place⟩ :=
      placed.place (by simp [Ty.isVoid, sameElement, fits.stored])
    have wholePlace := place.of_shape sameElement sameDepth sameSize
    refine Onward.of_param pass wholePlace fits sameDepth sameSize ?_
      carries room onward
    rw [← Ty.slotCount_of_shape sameElement sameDepth sameSize]
    exact known
  | widened differs fresh assign =>
    have copies := Exec.Copies.of_widening takes differs placed
      fits aligned fresh
    obtain ⟨_, targetPlace, _⟩ := copies.target
    have single := copies.targetSingle
    refine Onward.of_copy assign copies known ?_
    refine Onward.of_param pass targetPlace fits
      (copies.single.trans single.symm) (by simp [single])
      (Slots.within_right _ _) carries room ?_
    intro staged stagedCarries
    exact (onward staged stagedCarries).mono (Slots.within_left _ _)

/-! ## Expressions -/

/-- There is room for arguments behind those that have been passed. -/
structure Room (done parameters : List Ty) : Prop where
  fits : ∀ parameter ∈ parameters, parameter.Fits
  space : ∀ (index : Nat) (type : Ty), parameters[index]? = some type →
    slotsOf (done ++ parameters.take index) type.element +
      type.slotCount ≤ segmentSize

theorem Room.rest {parameters : List Ty}
    (room : Room done (parameter :: parameters)) :
    Room (done ++ [parameter]) parameters := by
  refine ⟨fun other member =>
    room.fits other (List.mem_cons_of_mem _ member), ?_⟩
  intro index type listed
  have later := room.space (index + 1) type listed
  rwa [List.take_succ_cons, List.append_cons] at later

theorem Permits.split {check left right : (String → Bool) → Bool}
    (permitted : scene.Permits check)
    (splits : ∀ callable, check callable = (left callable && right callable)) :
    scene.Permits left ∧ scene.Permits right := by
  constructor
  · intro names isSettled
    have passed := permitted names isSettled
    rw [splits, Bool.and_eq_true] at passed
    exact passed.1
  · intro names isSettled
    have passed := permitted names isSettled
    rw [splits, Bool.and_eq_true] at passed
    exact passed.2

/-- Code for a phrase keeps machines in lockstep, from one point to another. -/
def Advances (scene : Scene)
    (count : Nat)
    (context : Context)
    (start stop : Point) : Phrase → Prop
  | .value expression operand =>
    ∀ active slots readable, scene.Deep active →
      scene.Covers context.scope.locals readable slots →
      scene.Permits (expression.uses readable) →
      scene.Onward count stop.position active (slots.union operand.slots) →
        scene.Onward count start.position active slots
  | .operands expressions found =>
    ∀ active slots readable, scene.Deep active →
      scene.Covers context.scope.locals readable slots →
      scene.Permits (usesAll readable · expressions) →
      scene.Onward count stop.position active (slots.union (slotsOfAll found)) →
        scene.Onward count start.position active slots
  | .arguments expressions parameters =>
    ∀ active slots readable (done : List Ty) (frame : Frame),
      scene.Deep active → scene.Covers context.scope.locals readable slots →
      scene.Permits (usesAll readable · expressions) →
      Room done parameters →
      frame.Carries done →
      (∀ passed : Frame, passed.Carries (done ++ parameters) →
        scene.Onward count stop.position (announced active passed) slots) →
        scene.Onward count start.position (announced active frame) slots

/-- The code for an expression keeps machines in lockstep. -/
theorem advances_of_code {phrase : Phrase} {stop : Point}
    (hosts : scene.Hosts context)
    (calls : ∀ fewer < count, scene.CallsOnward fewer)
    (code : ExprCode scene.image context phrase start stop)
    (aligned : start.Aligned) :
    scene.Advances count context start stop phrase := by
  have returns := hosts.singleReturns
  induction code with
  | literal known place =>
    intro active slots readable deep covers permitted onward
    exact onward.mono
      (Slots.union_within (.refl _) (covers.toWide.place place rfl))
  | access designates =>
    intro active slots readable deep covers permitted onward
    refine onward.mono (Slots.union_within (.refl _) ?_)
    exact (Slots.range_within designates.whole_inside).trans
      (covers.designated hosts.arranged designates permitted)
  | @item name index field line operand resolved pointer value start afterIndex
      afterPointer temps indexed pointed fresh load induction =>
    intro active slots readable deep covers permitted onward
    obtain ⟨isReadable, indexPermitted⟩ := permitted.split fun _ => rfl
    obtain ⟨between, placed⟩ := indexed.placed returns aligned
    refine induction aligned active slots readable deep covers indexPermitted ?_
    refine Onward.of_pointer pointed between placed (Slots.within_right _ _) ?_
    intro owner location designates
    refine OnwardWhen.of_load load
      (pointed.fresh.basic between (by decide)).located pointed.single
      (fresh.receives (pointed.aligned between) pointed.single) ?_ ?_
    · exact (covers.designated hosts.arranged designates isReadable).trans
        (Slots.within_left _ _)
    · exact onward.mono (Slots.Within.union_left (Slots.within_left _ _) _)
  | builtin found computed takes fresh apply induction =>
    intro active slots readable deep covers permitted onward
    obtain ⟨between, placed⟩ := computed.placed returns aligned
    refine induction aligned active slots readable deep covers
      (permitted.split fun _ => rfl).2 ?_
    refine Onward.of_builtin apply (Builtin.find?_mem found) takes placed
      (fresh.receives between rfl) (Slots.within_right _ _) ?_
    exact onward.mono (Slots.Within.union_left (Slots.within_left _ _) _)
  | @call name arguments line routine entry value start stop temps user found
      located announce passed fresh enter induction =>
    intro active slots readable deep covers permitted onward
    obtain ⟨callable, argumentsPermitted⟩ := permitted.split fun _ => rfl
    rw [hosts.functions] at found
    have signature := hosts.arranged.signatures name routine
      (hosts.functions ▸ found)
    obtain ⟨entry, rfl⟩ := hosts.entries name routine entry found located
    have isListed : ∀ names, scene.settled = some names → name ∈ names := by
      intro names isSettled
      simpa [callableAmong, user] using callable names isSettled
    refine Onward.of_announce announce ?_
    refine induction aligned active slots readable [] _ deep covers
      argumentsPermitted ⟨signature.2, hosts.room name routine found⟩
      (Frame.carries_nil _) ?_
    intro frame carries
    exact Onward.of_call found located isListed signature enter carries
      (fresh.receives (passed.placed returns aligned).1 signature.1)
      covers.toWide deep calls onward
  | not computed truth fresh negate induction =>
    intro active slots readable deep covers permitted onward
    obtain ⟨between, placed⟩ := computed.placed returns aligned
    refine induction aligned active slots readable deep covers permitted ?_
    refine Onward.of_not negate truth placed (fresh.receives between rfl)
      (Slots.within_right _ _) ?_
    exact onward.mono (Slots.Within.union_left (Slots.within_left _ _) _)
  | group computed induction => exact induction aligned
  | binary leftCode rightCode typed fresh apply leftInduction rightInduction =>
    intro active slots readable deep covers permitted onward
    obtain ⟨leftPermitted, rightPermitted⟩ := permitted.split fun _ => rfl
    obtain ⟨leftAligned, leftPlaced⟩ := leftCode.placed returns aligned
    obtain ⟨rightAligned, rightPlaced⟩ := rightCode.placed returns leftAligned
    refine leftInduction aligned active slots readable deep covers
      leftPermitted ?_
    refine rightInduction leftAligned active _ readable deep
      (covers.mono (Slots.within_left _ _)) rightPermitted ?_
    refine Onward.of_operator apply typed leftPlaced rightPlaced
      (fresh.receives rightAligned rfl)
      ((Slots.within_right _ _).trans (Slots.within_left _ _))
      (Slots.within_right _ _) ?_
    exact onward.mono (Slots.Within.union_left
      ((Slots.within_left _ _).trans (Slots.within_left _ _)) _)
  | noOperands =>
    intro active slots readable deep covers permitted onward
    refine onward.mono (Slots.union_within (.refl _) ?_)
    rintro slot ⟨operand, member, _⟩
    cases member
  | operand computed others first rest =>
    intro active slots readable deep covers permitted onward
    obtain ⟨firstPermitted, restPermitted⟩ := permitted.split fun _ => rfl
    refine first aligned active slots readable deep covers firstPermitted ?_
    refine rest (computed.placed returns aligned).1 active _ readable deep
      (covers.mono (Slots.within_left _ _)) restPermitted ?_
    refine onward.mono (Slots.union_within
      ((Slots.within_left _ _).trans (Slots.within_left _ _)) ?_)
    rintro slot ⟨other, member, inside⟩
    rcases List.mem_cons.mp member with rfl | later
    · exact .inl (.inr inside)
    · exact .inr ⟨other, later, inside⟩
  | noArguments =>
    intro active slots readable done frame deep covers permitted room
      carries onward
    exact onward frame (by rwa [List.append_nil])
  | @argument argument rest parameter parameters operand address start computed
      widened stop code takes widening pass others first later =>
    intro active slots readable done frame deep covers permitted room
      carries onward
    obtain ⟨firstPermitted, restPermitted⟩ := permitted.split fun _ => rfl
    obtain ⟨between, placed⟩ := code.placed returns aligned
    have space := room.space 0 parameter rfl
    rw [List.take_zero, List.append_nil] at space
    refine first aligned (announced active frame) slots readable
      ⟨deep.1, deep.2⟩ covers firstPermitted ?_
    refine Onward.of_argument takes widening pass between placed
      (room.fits parameter List.mem_cons_self) (Slots.within_right _ _)
      carries space ?_
    intro staged stagedCarries
    refine later (widening.aligned between) active _ readable
      (done ++ [parameter]) staged deep (covers.mono (Slots.within_left _ _))
      restPermitted room.rest stagedCarries ?_
    intro passed passedCarries
    rw [← List.append_cons] at passedCarries
    exact (onward passed passedCarries).mono (Slots.within_left _ _)

end Scene

end Easel
