import Easel.Proofs.Machine.Load
import Easel.Proofs.Meaning.Operations

/-!
# The values of expressions

The code for an expression that calls only built-in functions leaves the value
of the expression where its operand is, or comes to the mishap to which the
evaluation comes.  It uses only new temporaries, so the operands that were
computed earlier keep their values.
-/

namespace Easel

variable {element : Element} {constant : Constant} {point : Point}
variable {temps : Element → Nat} {builtin : Builtin} {operands : List Operand}
variable {data : List Datum}

/-- There are literals for plain values only. -/
theorem Value.scalar_of_ofLiteral? {text : String} {value : Value}
    (stands : ofLiteral? text element = some value) :
    element.isObject = false := by
  cases element with
  | square | circle | image | text | background => cases stands
  | _ => rfl

/-- Memory that keeps the constants of a program holds its literals. -/
theorem Memory.Keeps.literal {memory : Memory} {constants : List Constant}
    (keeps : memory.Keeps constants)
    (literals : ∃ space : Space, space.Literals ∧ space.constants = constants)
    (known : constant ∈ constants) :
    Value.ofLiteral? constant.text constant.element =
      some (memory.contents constant.address) := by
  obtain ⟨space, literals, rfl⟩ := literals
  obtain ⟨_, isLoaded, same, _⟩ := keeps
  obtain ⟨_, _, holds⟩ := Memory.loadConstants_ok (fun _ => literals.houses)
    literals.distinct Memory.kinded_empty isLoaded
  obtain ⟨_, place⟩ := literals.houses known
  rw [holds constant known]
  refine congrArg some (Memory.contents_congr place.located ?_)
  rw [same]

namespace Meaning.Stage

variable {stage : Stage} {world : World} {machine : Machine} {datum : Datum}
variable {name : String} {field : Option String} {resolved : Resolved}
  {first : Address}
variable {location : Location}

theorem Shows.literal (shows : stage.Shows world machine)
    (known : constant ∈ stage.image.constants) :
    Value.ofLiteral? constant.text constant.element =
      some (machine.memory.contents constant.address) :=
  shows.runs.intact.keeps.literal stage.literals known

/-- A use of a variable reads the datum that lies in the designated storage. -/
theorem Shows.reads (shows : stage.Shows world machine)
    (designates : stage.context.Designates name false field resolved
      first location)
    (single : resolved.type.isList = false) :
    ∃ part,
      (do
        let datum ← (← world.store.holding name).read none
        datum.select field) = .ok part ∧
      part.LiesAt ⟨first + resolved.offset, resolved.type⟩ machine.memory := by
  obtain ⟨_, held, typed, block⟩ := shows.store.lookup designates
  obtain ⟨part, read, partTyped, slots⟩ :=
    Holding.read_whole designates typed single
  refine ⟨part, ?_, partTyped, ?_⟩
  · rw [held]
    exact read
  · rw [slots, ← block]
    exact machine.memory.block_part first designates.whole_inside

/-! ## Items of lists -/

section

variable {index : Operand} {pointer : Address} {start stop : Point}
  {number : Int64}

/-- The place of the item that an index designates, or of an attribute of it. -/
def itemAt (resolved : Resolved) (number : Int64) : Nat :=
  resolved.offset + number.toInt.toNat * resolved.owner.type.element.slotWidth

theorem place_item
    (designates : stage.context.Designates name true field resolved
      first location)
    (atLeast : 0 ≤ number.toInt)
    (below : number.toInt < resolved.owner.type.size) :
    ∃ found,
      Place (first + (itemAt resolved number : Int)) resolved.type found ∧
      found.region = location.region := by
  have bound : number.toInt.toNat < resolved.owner.type.size := by omega
  obtain ⟨found, place, region⟩ := designates.item bound
  refine ⟨found, ?_, region⟩
  rw [itemAt, Int.natCast_add, ← Int.add_assoc]
  exact place

/-- The items of a list, and their attributes, are values. -/
theorem stored_item
    (designates : stage.context.Designates name true field resolved
      first location) :
    resolved.type.isVoid = false := by
  obtain ⟨_, ran⟩ := designates.named
  have filled := designates.fits.filled (Scope.resolves_of_resolve ran).list
  obtain ⟨_, place, _⟩ := designates.item filled
  exact place.stored

theorem checks
    (code : PointerCode stage.image stage.context name field index resolved
      pointer start stop)
    (placed : index.Placed)
    (lies : (Datum.plain (.int number)).LiesAt index machine.memory) :
    stage.image.Has start.position
        ⟨.checkBound, resolved.owner.type.size, .unused, index.address⟩ ∧
      Exec.execute ⟨.checkBound, resolved.owner.type.size, .unused,
        index.address⟩ machine = if 0 ≤ number.toInt ∧
        number.toInt < resolved.owner.type.size then .ok .next machine
        else .error (.indexOutOfBounds number resolved.owner.type.size)
        machine := by
  obtain ⟨isInt, single⟩ := Ty.eq_of_agrees code.whole
  obtain ⟨_, indexPlace⟩ := placed.place (by simp [Ty.isVoid, isInt])
  obtain ⟨_, _, designates, _⟩ := code.designated
  have list : resolved.owner.type.isList = true := by
    obtain ⟨_, ran⟩ := designates.named
    exact (Scope.resolves_of_resolve ran).list
  have sizeSmall : resolved.owner.type.size ≤ segmentSize := by
    have small := designates.fits.small
    rw [Ty.slotCount_of_list list] at small
    exact Nat.le_trans (Nat.le_mul_of_pos_right _ (Element.slotWidth_pos _))
      small
  have check := code.check
  rw [Address.wrap_of_small sizeSmall] at check
  exact ⟨check,
    Exec.execute_checkBound _ indexPlace.located (lies.contents single)⟩

section

variable (stands : stage.Stands world start.position machine)
  (code : PointerCode stage.image stage.context name field index resolved
    pointer start stop)
include stands code

/-- The check of an index that is out of bounds fails. -/
theorem Stands.misses (placed : index.Placed)
    (lies : (Datum.plain (.int number)).LiesAt index machine.memory)
    (outside : ¬ (0 ≤ number.toInt ∧ number.toInt < resolved.owner.type.size)) :
    machine.Fails (.indexOutOfBounds number resolved.owner.type.size) := by
  obtain ⟨check, ran⟩ := checks code placed lies
  rw [if_neg outside] at ran
  exact ⟨_, stands.fetched check, by simp, by simp, ran⟩

/-- The address of an item is stored. -/
theorem Stands.points
    (designates : stage.context.Designates name true field resolved
      first location)
    (add : stage.image.Has (start.position + 1)
      ⟨.addAddress, first + resolved.offset, index.address, pointer⟩)
    (aligned : start.Aligned)
    (placed : index.Placed)
    (lies : (Datum.plain (.int number)).LiesAt index machine.memory)
    (atLeast : 0 ≤ number.toInt)
    (below : number.toInt < resolved.owner.type.size) :
    stage.Yields world start.temps stop.position machine
      (fun (_ : Unit) memory =>
        memory.contents pointer =
          .pointer (first + (itemAt resolved number : Int)))
      (.ok ()) := by
  obtain ⟨check, checked⟩ := checks code placed lies
  rw [if_pos ⟨atLeast, below⟩] at checked
  obtain ⟨next, goes, memory, standsNext⟩ :=
    stands.executes check checked stands.toShows
  obtain ⟨isInt, single⟩ := Ty.eq_of_agrees code.whole
  obtain ⟨_, indexPlace⟩ := placed.place (by simp [Ty.isVoid, isInt])
  obtain ⟨base, baseLocated, baseElement⟩ := designates.base
  have pointerPlace := code.fresh.basic aligned (by decide)
  have holds : next.memory.contents index.address = .int number := by
    rw [memory]
    exact lies.contents single
  have target : first + (resolved.offset : Int) + number.toInt *
      base.element.slotWidth = first + (itemAt resolved number : Int) := by
    rw [baseElement, itemAt, Int.natCast_add, Int.natCast_mul,
      Int.toNat_of_nonneg atLeast, Int.add_assoc]
  have ran := Exec.execute_addAddress indexPlace.located holds baseLocated
    pointerPlace (by simp)
  rw [target] at ran
  have position : stop.position = start.next.position + 1 := code.position
  rw [position]
  have stored : stage.Yields world start.next.temps
      (start.next.position + 1) next (fun (datum : Datum) memory =>
        datum.LiesAt ⟨pointer, .basic .int⟩ memory)
      (.ok (.plain (.pointer (first + (itemAt resolved number : Int))))) :=
    .of_fill standsNext add code.fresh aligned rfl rfl
      (.plain rfl (Value.typed_pointer _)) ran
  refine Yields.behind goes ?_ (stored.imp fun _ lies => lies.contents rfl)
    (.refl _)
  rw [memory]
  exact .refl _ _

end

section

variable (shows : stage.Shows world machine)
  (designates : stage.context.Designates name true field resolved
    first location)
include shows designates

/-- What a pointer points to lies inside its list. -/
theorem Shows.item (single : resolved.type.isList = false)
    (atLeast : 0 ≤ number.toInt)
    (below : number.toInt < resolved.owner.type.size) :
    ∃ part, (do
        let datum ← (← world.store.holding name).read (some number)
        datum.select field) = .ok part ∧
      part.LiesAt ⟨first + (itemAt resolved number : Int),
        resolved.type⟩ machine.memory := by
  obtain ⟨_, held, typed, block⟩ := shows.store.lookup designates
  obtain ⟨part, read, partTyped, slots⟩ :=
    Holding.read_item designates typed single atLeast below
  have bound : number.toInt.toNat < resolved.owner.type.size := by omega
  refine ⟨part, ?_, partTyped, ?_⟩
  · rw [held]
    exact read
  · rw [slots, ← block]
    exact machine.memory.block_part first (designates.item_inside bound)

/-- There is no item outside of the bounds of a list. -/
theorem Shows.outside
    (outside : ¬ (0 ≤ number.toInt ∧ number.toInt < resolved.owner.type.size)) :
    ∃ holding, world.store.holding name = .ok holding ∧
      holding.read (some number) =
        .error (.indexOutOfBounds number resolved.owner.type.size) := by
  obtain ⟨holding, held, typed, _⟩ := shows.store.lookup designates
  exact ⟨holding, held, Holding.read_outside designates typed outside⟩

end

/-- A datum to which a pointer points is loaded. -/
theorem Stands.loads {source value : Address} {found : Location} {type : Ty}
    (stands : stage.Stands world point.position machine)
    (load : stage.image.Has point.position
      ⟨.assignIndexInverse, pointer, .unused, value⟩)
    (fresh : Space.Fresh point.temps type value temps)
    (aligned : point.Aligned)
    (pointed : ∃ place, locate? pointer = some place)
    (holds : machine.memory.contents pointer = .pointer source)
    (place : Place source type found)
    (single : type.isList = false)
    (lies : datum.LiesAt ⟨source, type⟩ machine.memory) :
    stage.Yields world point.temps (point.position + 1) machine
      (fun datum memory => datum.LiesAt ⟨value, type⟩ memory) (.ok datum) := by
  obtain ⟨_, located⟩ := pointed
  obtain ⟨valueLocation, valuePlace, inTemp⟩ :=
    (fresh.receives aligned single).place place.stored
  have copies : Exec.Copies source type value type .temp :=
    ⟨⟨found, place⟩, ⟨valueLocation, valuePlace, inTemp⟩, rfl, single,
      single, .same _⟩
  refine .of_fill stands load fresh aligned single place.stored lies.typed ?_
  rw [Exec.execute_assignIndexInverse stands.runs.kinded located holds copies,
    Exec.copied]
  have slots : machine.memory.block source type.slotCount = datum.slots :=
    lies.slots
  rw [slots, lies.typed.suits.conform_self]

end

theorem Stands.operates {operator : Operator} {left right : Operand}
    {value : Address} {one other : Datum}
    (stands : stage.Stands world point.position machine)
    (apply : stage.image.Has point.position ⟨operator.operation, left.address,
      right.address, value⟩)
    (typed : operator.type? left.type right.type = some (.basic element))
    (fresh : Space.Fresh point.temps (.basic element) value temps)
    (aligned : point.Aligned)
    (leftPlaced : left.Placed)
    (rightPlaced : right.Placed)
    (leftLies : one.LiesAt left machine.memory)
    (rightLies : other.LiesAt right machine.memory) :
    stage.Yields world point.temps (point.position + 1) machine
      (fun datum memory => datum.LiesAt ⟨value, .basic element⟩ memory)
      (one.operate operator other) := by
  obtain ⟨leftSingle, rightSingle, accepted⟩ := Operator.type?_eq_some typed
  obtain ⟨leftStored, rightStored, scalar, stored⟩ :=
    Operator.element?_scalar accepted
  obtain ⟨leftScalar, rightScalar⟩ := Operator.operands_scalar accepted
  obtain ⟨_, leftPlace⟩ := leftPlaced.place (by simp [Ty.isVoid, leftStored])
  obtain ⟨_, rightPlace⟩ := rightPlaced.place (by simp [Ty.isVoid, rightStored])
  obtain ⟨_, rfl, firstTyped⟩ := leftLies.typed.plain_of_scalar leftScalar
  obtain ⟨_, rfl, secondTyped⟩ := rightLies.typed.plain_of_scalar rightScalar
  have proper : operator.operation ≠ .call ∧ operator.operation ≠ .ret := by
    cases operator <;> simp [Operator.operation]
  rcases Datum.operate_of_steady
      (Calculation.binary_steady firstTyped secondTyped accepted) with
    ⟨result, resultTyped, operated, computed⟩ | ⟨operated, divided⟩
  · rw [operated]
    have place := fresh.basic aligned stored
    refine .of_fill stands apply fresh aligned rfl (by simp [Ty.isVoid, stored])
      (.plain scalar resultTyped) ?_
    have fits := resultTyped
    rw [← Ty.element_basic element, ← place.kind] at fits
    refine Exec.execute_operator leftPlace.located rightPlace.located
      place.located (by simp) fits ?_
    rw [leftLies.contents leftSingle, rightLies.contents rightSingle]
    exact computed _ _ _
  · rw [operated]
    refine .of_error stands apply proper ?_ (.divisionByZero machine.position)
    refine Exec.execute_operator_error leftPlace.located rightPlace.located ?_
    rw [leftLies.contents leftSingle, rightLies.contents rightSingle]
    exact divided _ _ _

theorem Stands.negates {operand : Operand} {value : Address}
    (stands : stage.Stands world point.position machine)
    (negate : stage.image.Has point.position
      ⟨.not, operand.address, .unused, value⟩)
    (truth : operand.type.agrees (.basic .bool) = true)
    (fresh : Space.Fresh point.temps (.basic .bool) value temps)
    (aligned : point.Aligned)
    (placed : operand.Placed)
    (lies : datum.LiesAt operand machine.memory) :
    stage.Yields world point.temps (point.position + 1) machine
      (fun (datum : Datum) memory => datum.LiesAt ⟨value, .basic .bool⟩ memory)
      (do return .plain (.bool !(← datum.truth))) := by
  obtain ⟨isBool, single⟩ := Ty.eq_of_agrees truth
  obtain ⟨_, operandPlace⟩ := placed.place (by simp [Ty.isVoid, isBool])
  have typed := lies.typed
  rw [isBool] at typed
  obtain ⟨_, rfl, heldTyped⟩ := typed.plain_of_scalar rfl
  obtain ⟨_, rfl⟩ := heldTyped.eq_bool
  have place := fresh.basic aligned (by decide)
  exact .of_fill stands negate fresh aligned rfl rfl (.plain rfl (.bool _))
    (Exec.execute_not operandPlace.located (lies.contents single)
      place (by simp))

/-- The instruction of a built-in function gives the answer of the function. -/
theorem Shows.applies {value : Address}
    (shows : stage.Shows world machine)
    (member : builtin ∈ Builtin.all)
    (takes : builtin.Takes operands)
    (placed : ∀ operand ∈ operands, operand.Placed)
    (receives : Receives (.basic builtin.returns) value)
    (lie : LieAt data operands machine.memory) :
    ∃ answered, answer stage.origin.held builtin data = .ok answered ∧
      (replyOf answered).Typed builtin.returns ∧
      Exec.execute (builtin.quad operands value) machine =
        .ok .next (machine.replied value (replyOf answered)) := by
  obtain ⟨answered, isAnswer, replied⟩ :=
    answer_eq member takes lie stage.origin.held
  have typed := Builtin.reply_typed member stage.origin.held
    (operands.map machine.memory.slots)
  have ran : Exec.execute (builtin.quad operands value) machine =
      .ok .next (machine.replied value
        (builtin.reply machine.screen.held
          (operands.map machine.memory.slots))) :=
    Exec.execute_builtin member shows.runs.kinded takes
      (fun operand listed =>
        (placed operand listed).place (takes.stored member operand listed))
      (fun stored => receives.place (by simp [Ty.isVoid, stored]))
  rw [shows.held, replied] at ran
  rw [replied] at typed
  exact ⟨answered, isAnswer, typed, ran⟩

/-- The value of a built-in function is stored. -/
theorem Stands.answers {value : Address}
    (stands : stage.Stands world point.position machine)
    (apply : stage.image.Has point.position (builtin.quad operands value))
    (member : builtin ∈ Builtin.all)
    (takes : builtin.Takes operands)
    (fresh : Space.Fresh point.temps (.basic builtin.returns) value temps)
    (aligned : point.Aligned)
    (stored : builtin.returns ≠ .void)
    (placed : ∀ operand ∈ operands, operand.Placed)
    (lie : LieAt data operands machine.memory) :
    stage.Yields world point.temps (point.position + 1) machine
      (fun (datum : Datum) memory =>
        datum.LiesAt ⟨value, .basic builtin.returns⟩ memory)
      (do
        match ← answer stage.origin.held builtin data with
        | .inl value => return .plain value
        | .inr _ => .error .meaningless) := by
  obtain ⟨answered, isAnswer, typed, ran⟩ :=
    stands.toShows.applies member takes placed (fresh.receives aligned rfl) lie
  rw [isAnswer]
  cases answered with
  | inl result =>
    cases typed with
    | value typed =>
      exact .of_fill stands apply fresh aligned rfl
        (by simp [Ty.isVoid, stored])
        (.plain (Builtin.returns_scalar member) typed) ran
  | inr stroke =>
    generalize builtin.returns = returns at typed stored
    cases typed
    exact (stored rfl).elim

/-! ## Expressions -/

/-- The code for a phrase computes what the phrase means. -/
def Computes (stage : Stage) (start stop : Point) : Phrase → Prop
  | .value expression operand =>
    expression.selfContained = true → operand.type.isVoid = false →
    operand.type.isList = false →
      ∀ world machine, stage.Stands world start.position machine →
      stage.Yields world start.temps stop.position machine
        (fun datum memory => datum.LiesAt operand memory)
        (value stage.origin.held world.store expression)
  | .operands expressions operands =>
    usesAll (fun _ => true) Builtin.isReserved expressions = true →
    (∀ operand ∈ operands, operand.type.isVoid = false ∧
      operand.type.isList = false) →
    ∀ world machine, stage.Stands world start.position machine →
      stage.Yields world start.temps stop.position machine
        (fun data memory => LieAt data operands memory)
        (values stage.origin.held world.store expressions)
  | .arguments _ _ => True

/-- The code for an expression computes its value. -/
theorem computes_of_code {phrase : Phrase} {start stop : Point}
    (code : ExprCode stage.image stage.context phrase start stop)
    (aligned : start.Aligned) :
    stage.Computes start stop phrase := by
  have returns := stage.arranged.singleReturns
  induction code with
  | @literal literal line address point offset known place =>
    intro _ _ _ world machine stands
    have stands' := stands.toShows.literal known
    have scalar := Value.scalar_of_ofLiteral? stands'
    simp only [value, stands']
    refine .here stands ⟨.plain scalar (Value.typed_of_ofLiteral? stands'), ?_⟩
    simp only [Memory.slots, Space.slotCount_scalar scalar]
    simp [Memory.block, Datum.slots]
  | access designates =>
    intro _ _ single world machine stands
    obtain ⟨part, read, lies⟩ := stands.toShows.reads designates single
    simp only [value]
    rw [read]
    exact .here stands lies
  | @item name index field line operand resolved pointer address start
      afterIndex afterPointer temps indexed pointed fresh load induction =>
    intro selfContained stored single world machine stands
    obtain ⟨isInt, indexSingle⟩ := Ty.eq_of_agrees pointed.whole
    obtain ⟨between, placed⟩ := indexed.placed returns aligned
    have indexContained : index.selfContained = true := by
      simpa [Expr.selfContained, Expr.uses] using selfContained
    simp only [value]
    refine (induction aligned indexContained (by simp [Ty.isVoid, isInt])
      indexSingle world machine stands).bind indexed.le ?_
    intro datum next standsNext _ lies
    have typed := lies.typed
    rw [isInt] at typed
    obtain ⟨held, rfl, heldTyped⟩ := typed.plain_of_scalar rfl
    obtain ⟨number, rfl⟩ := heldTyped.eq_int
    obtain ⟨first, _, designates, add⟩ := pointed.designated
    change stage.Yields _ _ _ _ _ (do
      let datum ← (← world.store.holding name).read (some number)
      datum.select field)
    by_cases inBounds : 0 ≤ number.toInt ∧
      number.toInt < resolved.owner.type.size
    · obtain ⟨atLeast, below⟩ := inBounds
      refine (standsNext.points pointed designates add between placed lies
        atLeast below).onward pointed.le ?_
      intro last standsLast _ points
      obtain ⟨part, read, partLies⟩ := standsLast.toShows.item designates
        single atLeast below
      obtain ⟨found, place, _⟩ := place_item designates atLeast below
      rw [read]
      exact standsLast.loads load fresh (pointed.aligned between)
        ⟨_, (pointed.fresh.basic between (by decide)).located⟩ points place
        single partLies
    · obtain ⟨_, held, missed⟩ := standsNext.toShows.outside designates inBounds
      simp only [held, missed, bind, Except.bind]
      exact .mishap (.refl _) standsNext.toShows
        (standsNext.misses pointed placed lies inBounds)
        (.indexOutOfBounds number _)
  | @builtin name arguments line builtin operands address start stop temps found
      computed takes fresh apply induction =>
    intro selfContained stored single world machine stands
    have member := Builtin.find?_mem found
    obtain ⟨between, placed⟩ := computed.placed returns aligned
    have argumentsContained : usesAll (fun _ => true) Builtin.isReserved
        arguments = true := by
      simp only [Expr.selfContained, Expr.uses,
        Bool.and_eq_true] at selfContained
      exact selfContained.2
    simp only [value, found]
    refine (induction aligned argumentsContained
      (fun operand listed => ⟨takes.stored member operand listed,
        takes_single takes operand listed⟩) world machine stands).bind
        computed.le ?_
    intro data next standsNext _ lie
    exact standsNext.answers apply member takes fresh between
      (by simpa [Ty.isVoid] using stored) placed lie
  | @call name arguments line routine entry address start stop temps user =>
    intro selfContained
    simp [Expr.selfContained, Expr.uses, Builtin.isReserved,
      user] at selfContained
  | not computed truth fresh negate induction =>
    intro selfContained stored single world machine stands
    obtain ⟨isBool, operandSingle⟩ := Ty.eq_of_agrees truth
    obtain ⟨between, placed⟩ := computed.placed returns aligned
    simp only [value]
    refine (induction aligned selfContained (by simp [Ty.isVoid, isBool])
      operandSingle world machine stands).bind computed.le ?_
    intro datum next standsNext _ lies
    exact standsNext.negates negate truth fresh between placed lies
  | group computed induction => exact induction aligned
  | @binary operator left right leftValue rightValue element address start
      between stop temps leftCode rightCode typed fresh apply leftInduction
      rightInduction =>
    intro selfContained stored single world machine stands
    obtain ⟨leftContained, rightContained⟩ :
        left.selfContained = true ∧ right.selfContained = true := by
      simpa [Expr.selfContained, Expr.uses] using selfContained
    obtain ⟨leftSingle, rightSingle, accepted⟩ := Operator.type?_eq_some typed
    obtain ⟨leftStored, rightStored, _, _⟩ := Operator.element?_scalar accepted
    obtain ⟨leftAligned, leftPlaced⟩ := leftCode.placed returns aligned
    obtain ⟨rightAligned, rightPlaced⟩ := rightCode.placed returns leftAligned
    simp only [value]
    refine (leftInduction aligned leftContained
      (by simp [Ty.isVoid, leftStored]) leftSingle world machine stands).bind
      leftCode.le ?_
    intro one next standsNext _ leftLies
    refine (rightInduction leftAligned rightContained
      (by simp [Ty.isVoid, rightStored]) rightSingle world next standsNext).bind
      rightCode.le ?_
    intro other last standsLast changes rightLies
    exact standsLast.operates apply typed fresh rightAligned
      leftPlaced rightPlaced (leftLies.keeps changes leftCode.before) rightLies
  | noOperands =>
    intro _ _ world machine stands
    exact .here stands (.nil _)
  | @operand head tail operand operands start between stop computed
      others first rest =>
    intro selfContained proper world machine stands
    obtain ⟨headContained, tailContained⟩ : head.selfContained = true ∧
        usesAll (fun _ => true) Builtin.isReserved tail = true := by
      simpa [Expr.selfContained, usesAll] using selfContained
    obtain ⟨stored, single⟩ := proper operand List.mem_cons_self
    simp only [values]
    refine (first aligned headContained stored single world machine stands).bind
      computed.le ?_
    intro datum next standsNext _ lies
    refine (rest (computed.placed returns aligned).1 tailContained
      (fun other member => proper other (List.mem_cons_of_mem _ member))
      world next standsNext).bind others.le ?_
    intro data last standsLast changes lie
    exact .here standsLast (.cons (lies.keeps changes computed.before) lie)
  | noArguments => trivial
  | argument => trivial

end Meaning.Stage

end Easel
