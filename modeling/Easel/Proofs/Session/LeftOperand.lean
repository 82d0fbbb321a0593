import Easel.Proofs.Machine.Reset
import Easel.Proofs.Session.OwnStorage
import Mathlib.Data.List.Nodup

/-!
# The left operand of an operation

An operator is applied when both of its operands have been computed.  The code
for the right operand writes new temporaries only, and the functions that it
calls have storage of their own, which is given back when they return.  So the
value of the left operand is still there, unless it lies in a global variable:
a variable is not copied, and a function may have assigned it in between.
-/

namespace Easel

variable {machine : Machine} {exit : Quad} {outcome : Outcome}
variable {outer : List Frame} {steps line : Nat} {image : Image}
variable {expression : Expr} {name : String}

section

variable {site : Site} {older : Element → Nat} {position : Nat} {quad : Quad}

theorem Work.straight (work : Work site older position quad)
    (notCall : quad.operation ≠ .call) :
    quad.operation.isStraight = true ∧ quad.operation ≠ .ret := by
  cases work with
  | silent isSilent =>
    cases operation : quad.operation <;>
      simp_all [Operation.isSilent, Operation.isStraight, Operation.isJump]
  | result isResult =>
    cases operation : quad.operation <;>
      simp_all [Operation.isResult, Operation.isStraight, Operation.isJump]
  | copy | point | load => exact ⟨rfl, by simp⟩
  | call => exact (notCall rfl).elim

theorem Work.of_call (work : Work site older position quad)
    (isCall : quad.operation = .call) :
    ∃ name routine, site.context.functions.find? name = some routine ∧
      site.image.entryOf name = some quad.left ∧
      (quad.result = .unused ∨
        (Slots.range quad.result routine.returns.slotCount).Within
          (laterTemps older)) := by
  cases work with
  | call found located _ received =>
    exact ⟨_, _, found, located,
      received.imp_right (·.trans fun _ member => member.2)⟩
  | silent isSilent =>
    rw [isCall] at isSilent
    cases isSilent
  | result isResult =>
    rw [isCall] at isResult
    cases isResult
  | copy | point | load => cases isCall

/-- An instruction of an expression that is no call writes new temporaries. -/
theorem Plan.writes_later {plan : Plan} {function : Function}
    {routine : Routine} {extent : Extent}
    (ready : machine.Ready plan.image)
    (has : plan.image.Has machine.position quad)
    (work : Work (plan.site function routine extent) older
      machine.position quad)
    (notCall : quad.operation ≠ .call) :
    (machine.writes quad).Within (laterTemps older) := by
  have isLater : ((plan.site function routine extent).scratch older).Within
      (laterTemps older) :=
    fun _ member => member.2
  cases work with
  | silent isSilent => exact machine.writes_silent isSilent _
  | result isResult _ inside => exact machine.writes_result isResult inside.2
  | copy inside => exact machine.writes_assign (inside.trans isLater)
  | point reaches _ later =>
    exact machine.writes_result rfl (laterTemps_within later _
      (reaches.pointed.fresh.later (by decide) _ (Slots.range_one _)))
  | load reaches here inside =>
    obtain ⟨_, _, rfl, designates, follows⟩ :=
      follows_of_reaches ready reaches here has rfl
    obtain ⟨_, place⟩ := designates.item_place follows.inRange
    exact (writes_load follows (place.widthAt reaches.pointed.single)).trans
      (inside.trans isLater)
  | call => exact (notCall rfl).elim

end

/-- The variables and older temporaries are the same in two memories. -/
def Memory.Lasts (older : Element → Nat) (before after : Memory) : Prop :=
  ∀ slot location, locate? slot = some location →
    location.region.isPrivate = true → ¬ laterTemps older slot →
    after.contents slot = before.contents slot

namespace Memory.Lasts

variable {older : Element → Nat} {before between after : Memory}

theorem changes (lasts : before.Lasts older between)
    (changes : ChangesOnly (laterTemps older) between after) :
    before.Lasts older after := fun slot location located isPrivate outside =>
  (changes.contents outside).trans
    (lasts slot location located isPrivate outside)

theorem restore (lasts : before.Lasts older between) (memory : Memory) :
    before.Lasts older (memory.restore between.snapshot) := by
  intro slot location located isPrivate outside
  rw [← lasts slot location located isPrivate outside]
  refine contents_congr located (congrArg (·[slot]?) (bank_restore_snapshot ?_))
  cases region : location.region <;> simp_all [Region.isPrivate]

end Memory.Lasts

/-- A return that leaves the frames below a call is that of the callee. -/
theorem Machine.Inside.top {left : Machine} {position : Nat} {waiting : Frame}
    (inside : machine.Inside position (waiting :: outer))
    (isReturn : exit.operation = .ret)
    (ran : Exec.execute exit machine = .ok outcome left)
    (back : left.frames.length = outer.length + 1) :
    ∃ callee, machine.frames = callee :: waiting :: outer ∧
      callee.calledFrom = position := by
  obtain ⟨above, callee, frames, called⟩ := inside
  rw [Exec.execute_ret isReturn] at ran
  rcases Exec.leave_ok ran with
    ⟨_, _, _, rfl⟩ | ⟨_, _, _, _, _, _, _, stack, _, _, _, _, _, rfl⟩
  · simp at back
  · have sizes := congrArg List.length (frames.symm.trans stack)
    simp only [List.length_append, List.length_cons] at sizes back
    cases List.eq_nil_of_length_eq_zero (show above.length = 0 by omega)
    exact ⟨callee, frames, called⟩

/-! ## From one operand to the next -/

/--
The right operand of an operation is being computed.  The machine is in its
code, in the invocation in which the left operand was computed, or in a call
that was made there.
-/
inductive Term.Amid (term : Term) (origin machine : Machine) : Prop where
  | here (frames : machine.frames = origin.frames)
      (above : term.between.position ≤ machine.position)
      (below : machine.position ≤ term.ends.position)
      (lasts : origin.memory.Lasts term.between.temps machine.memory)
  | away {position : Nat} {caller : Frame} {outer : List Frame}
      {memory : Memory} (frames : origin.frames = caller :: outer)
      (above : term.between.position ≤ position)
      (below : position < term.ends.position)
      (inside : machine.Inside position (Exec.suspended caller memory :: outer))
      (lasts : origin.memory.Lasts term.between.temps memory)

section

variable {plan : Plan} {scene : Scene} {function : Function} {routine : Routine}
  {extent : Extent}
variable {term : Term} {session next last : Session} {origin : Machine}

/-- A function is laid out under its name. -/
theorem Plan.Valid.laid (valid : plan.Valid)
    (houses : plan.Houses function routine extent) :
    ∃ start,
      function.Laid routine plan.image plan.functions plan.globals start := by
  obtain ⟨_, member, named, laid⟩ :=
    valid.linked.routines _ routine houses.found
  have distinct := valid.outline.unique
  rw [valid.outline.functions.names] at distinct
  cases List.inj_on_of_nodup_map distinct member houses.member named
  exact laid

/-- The code of the right operand writes no temporary in use before it. -/
theorem Plan.Valid.works (valid : plan.Valid)
    (houses : plan.Houses function routine extent)
    (computes : (plan.site function routine extent).Computes term) :
    (plan.site function routine extent).Filled
      (Work (plan.site function routine extent) term.between.temps)
        term.right.parts
      term.between.position term.ends.position := by
  obtain ⟨_, laid⟩ := valid.laid houses
  exact computes.rightCode.works laid.arranged
    (computes.leftCode.placed laid.arranged.singleReturns computes.aligned).1
    trivial (.refl _) computes.bounded
    (computes.apply.opens term.operator.operation_plain) computes.accesses

section

variable (valid : plan.Valid) (prepared : session.Prepared plan scene)
  (unsaved : origin.Unsaved) (houses : plan.Houses function routine extent)
  (computes : (plan.site function routine extent).Computes term)
include valid prepared unsaved houses computes

/-- A call in the code of the right operand returns. -/
theorem Plan.Valid.comes_back {left : Machine} {position target : Nat}
    {caller : Frame} {memory : Memory}
    (frames : origin.frames = caller :: outer)
    (above : term.between.position ≤ position)
    (below : position < term.ends.position)
    (inside : session.machine.Inside position
      (Exec.suspended caller memory :: outer))
    (lasts : origin.memory.Lasts term.between.temps memory)
    (executes : session.Executes exit outcome left)
    (leads : outcome.destination? left.position = some target)
    (isReturn : exit.operation = .ret)
    (back : left.frames.length = outer.length + 1) :
    term.Amid origin (left.arrived target) := by
  have sameCode := prepared.onTrack.sameCode
  obtain ⟨_, stack, calledFrom⟩ := inside.top isReturn executes.ran back
  rcases prepared.onTrack.place with ⟨_, _, _, alone⟩
    | ⟨_, _, _, owned, contains⟩
  · rw [stack] at alone
    cases alone
  obtain ⟨_, _, _, running, isOwner, within⟩ :=
    valid.inside owned.member contains
  have handedOver := (valid.role running within
    (Image.has_of_code sameCode executes.fetched)).of_return isReturn
  have ran := executes.ran
  rw [Exec.execute_ret isReturn] at ran
  rcases Exec.leave_ok ran with
    ⟨_, alone, _⟩ | ⟨_, _, _, _, site, _, _, found, kept, called, handed,
      stored, rfl, rfl⟩
  · rw [stack] at alone
    cases alone
  rw [stack] at owned found
  cases found
  cases kept
  cases leads
  cases owned with
  | call _ calledAt isCall _ _ leadsTo =>
    cases called.symm.trans calledAt
    rw [calledFrom] at called
    obtain ⟨_, has, work⟩ := (valid.works houses computes).duties
      position above below
    cases (Image.has_of_code sameCode called).symm.trans has
    obtain ⟨name, _, isFound, located, received⟩ := work.of_call isCall
    -- The function that returns is the one that the call was generated for.
    have startsHere : plan.image.entryOf name = _ := located
    rw [leadsTo, ← isOwner] at startsHere
    cases valid.linked.apart _ _ _ startsHere running.located
    cases isFound.symm.trans running.found
    have changes := Plan.changesOnly_handOver handed stored
        fun hasValue hasResult => by
      rw [handedOver.resolve_left hasValue]
      exact received.resolve_left hasResult
    refine .here ?_ ?_ ?_ ((lasts.restore _).changes changes)
    · have nothing := unsaved.running caller (by rw [frames]; rfl)
      rw [frames]
      cases caller
      cases nothing
      rfl
    · rw [calledFrom]
      exact Nat.le_succ_of_le above
    · rw [calledFrom]
      exact below

/-- One step on the way from the left operand to the operator. -/
theorem Term.Amid.step (amid : term.Amid origin session.machine)
    (notYet : session.machine.frames = origin.frames →
      session.machine.position ≠ term.ends.position)
    (stepped : session.step = .running next) :
    term.Amid origin next.machine := by
  obtain ⟨quad, _, left, _, executes, leads, rfl⟩ :=
    Session.step_running stepped
  have fetched := Image.has_of_code prepared.onTrack.sameCode executes.fetched
  cases amid with
  | here frames above below lasts =>
    have inside := Nat.lt_of_le_of_ne below (notYet frames)
    obtain ⟨_, has, work⟩ := (valid.works houses computes).duties _ above inside
    cases fetched.symm.trans has
    by_cases isCall : quad.operation = .call
    · obtain ⟨caller, outer, stack, entered⟩ :=
        Exec.inside_of_call isCall executes.ran
      exact .away (frames.symm.trans stack) above inside entered lasts
    · obtain ⟨straight, notReturn⟩ := work.straight isCall
      have same := Exec.sameControl_of_execute isCall notReturn executes.ran
      rw [Exec.next_of_execute straight notReturn executes.ran] at leads
      cases leads
      have keeps := (Exec.execute_keeps session.machine isCall notReturn).mono
        (Plan.writes_later prepared.ready has work isCall)
      rw [Exec.leaves_of_ok executes.ran] at keeps
      refine .here (same.frames.trans frames) ?_ ?_ (lasts.changes keeps)
      · exact Nat.le_trans above (same.position ▸ Nat.le_succ _)
      · exact same.position ▸ inside
  | @away position caller outer memory frames above below inside lasts =>
    by_cases back : quad.operation = .ret ∧
      left.frames.length = outer.length + 1
    · exact valid.comes_back prepared unsaved houses computes frames above
        below inside lasts executes leads back.1 back.2
    · have still := Exec.inside_of_execute inside executes.ran
        fun isReturn length => back ⟨isReturn, length⟩
      exact .away frames above below still lasts

end

/--
A session that has computed the left operand of an operation gets to the
operator, at the same depth of calls and for the first time.
-/
structure Session.Completes (session : Session)
    (term : Term)
    (steps : Nat)
    (last : Session) : Prop where
  begins : session.machine.position = term.between.position
  goesOn : session.runFor steps = .running last
  ends : last.machine.position = term.ends.position
  depth : last.machine.frames.length = session.machine.frames.length
  first : ∀ fewer < steps, ∀ earlier, session.runFor fewer = .running earlier →
    earlier.machine.frames.length = session.machine.frames.length →
      earlier.machine.position ≠ term.ends.position

/-- What the left operand left is there when the operator is applied. -/
theorem Session.Completes.lasts (completes : session.Completes term steps last)
    (valid : plan.Valid)
    (prepared : session.Prepared plan scene)
    (unsaved : session.machine.Unsaved)
    (houses : plan.Houses function routine extent)
    (computes : (plan.site function routine extent).Computes term) :
    session.machine.memory.Lasts term.between.temps last.machine.memory := by
  have amid : ∀ taken ≤ steps, ∀ reached,
      session.runFor taken = .running reached →
      term.Amid session.machine reached.machine := by
    intro taken
    induction taken with
    | zero =>
      rintro _ reached ⟨⟩
      exact .here rfl (Nat.le_of_eq completes.begins.symm)
        (completes.begins ▸ (valid.works houses computes).ordered)
        fun _ _ _ _ _ => rfl
    | succ taken induction =>
      intro isTaken reached goesOn
      obtain ⟨before, goesBefore, stepped⟩ := runFor_succ_running goesOn
      exact (induction (Nat.le_of_lt isTaken) before goesBefore).step valid
        (prepared.runFor valid goesBefore) unsaved houses computes
        (fun same =>
          completes.first taken isTaken before goesBefore (congrArg _ same))
          stepped
  cases amid steps (Nat.le_refl _) last completes.goesOn with
  | here _ _ _ lasts => exact lasts
  | away frames _ _ inside =>
    obtain ⟨_, _, stack, _⟩ := inside
    have sizes := completes.depth
    rw [stack, frames] at sizes
    simp only [List.length_append, List.length_cons] at sizes
    omega

end

/-! ## Values -/

/-- Whether an expression is no global variable, nor attribute of one. -/
def Function.owns (function : Function) : Expr → Bool
  | .access name _ _ => function.localNames.contains name
  | .group inner _ => function.owns inner
  | _ => true

/-- What a function owns is a constant or private to its invocation. -/
theorem ExprCode.owned {function : Function} {routine : Routine}
    {functions : Table Routine} {globals : Table Variable} {phrase : Phrase}
    {operand : Operand} {start stop : Point} {location : Location}
    (code : ExprCode image (routine.context functions globals)
      phrase start stop)
    (isValue : phrase = .value expression operand)
    (arranged : (routine.context functions globals).Arranged)
    (declared : ∀ name ∈ function.localNames, ∃ found,
      routine.locals.find? name = some found)
    (owns : function.owns expression = true)
    (located : locate? operand.address = some location) :
    location.region = .constant ∨ location.region.isPrivate = true := by
  -- A temporary is private.
  have inTemps : ∀ {before after : Element → Nat} {type : Ty},
      type.isList = false → Space.Fresh before type operand.address after →
      location.region.isPrivate = true := by
    intro before after type single fresh
    have positive : 0 < type.slotCount := by
      rw [Ty.slotCount_of_single single]
      exact type.element.slotWidth_pos
    rcases fresh.slot ⟨0, positive, (Int.add_zero _).symm⟩ with nowhere
      | ⟨_, _, found, _⟩
    · rw [nowhere] at located
      cases located
    · rw [found] at located
      cases located
      rfl
  induction code generalizing expression with
  | literal _ place =>
    cases isValue
    cases place.located.symm.trans located
    exact .inl rfl
  | @access name _ _ resolved _ _ _ designates =>
    cases isValue
    obtain ⟨found, isLocal⟩ :=
      declared name (by simpa [Function.owns] using owns)
    obtain ⟨_, resolves⟩ := designates.named
    have isFound := (Scope.resolves_of_resolve resolves).found
    obtain rfl : found = resolved.owner := by
      simpa [Scope.find?, Routine.context, isLocal] using isFound
    obtain ⟨_, _, _, hasAddress, place, region⟩ :=
      place_of_find? arranged.locals arranged.fitLocals isLocal
    cases designates.address.symm.trans hasAddress
    cases designates.place.located.symm.trans place.located
    obtain ⟨_, wholePlace, sameRegion⟩ := designates.whole
    cases wholePlace.located.symm.trans located
    right
    rw [sameRegion, region]
    rfl
  | group _ induction =>
    cases isValue
    exact induction rfl owns
  | item _ pointed fresh =>
    cases isValue
    exact .inr (inTemps pointed.single fresh)
  | call _ found _ _ _ fresh =>
    cases isValue
    exact .inr (inTemps (arranged.signatures _ _ found).1 fresh)
  | builtin _ _ _ fresh | not _ _ fresh | binary _ _ _ fresh =>
    cases isValue
    exact .inr (inTemps rfl fresh)
  | noOperands | operand | noArguments | argument => cases isValue

/-- The left operand keeps its value until the operator is applied. -/
theorem Session.Completes.contents {plan : Plan} {scene : Scene}
    {function : Function} {routine : Routine} {extent : Extent} {term : Term}
    {session last : Session}
    (completes : session.Completes term steps last)
    (valid : plan.Valid)
    (prepared : session.Prepared plan scene)
    (unsaved : session.machine.Unsaved)
    (houses : plan.Houses function routine extent)
    (computes : (plan.site function routine extent).Computes term)
    (owns : function.owns term.left = true) :
    last.machine.memory.contents term.leftValue.address =
      session.machine.memory.contents term.leftValue.address := by
  obtain ⟨_, laid⟩ := valid.laid houses
  have declared : ∀ name ∈ function.localNames, ∃ found,
      routine.locals.find? name = some found := by
    intro name isLocal
    refine Option.ne_none_iff_exists'.mp fun missing => ?_
    refine Table.find?_eq_none_iff.mp missing ?_
    have names := congrArg (List.map Prod.fst) laid.locals
    simp only [typed, typedDeclarations, List.map_map] at names
    rw [Table.names]
    exact names ▸ isLocal
  obtain ⟨_, _, isTyped, _⟩ := computes.typed
  obtain ⟨single, _, accepted⟩ := Operator.type?_eq_some isTyped
  have stored := (Operator.element?_scalar accepted).1
  obtain ⟨location, place⟩ := Operand.Placed.place
    (computes.leftCode.placed laid.arranged.singleReturns computes.aligned).2
    (by simp [Ty.isVoid, stored])
  rcases ExprCode.owned computes.leftCode rfl laid.arranged declared owns
      place.located with
    isConstant | isPrivate
  · exact (sameProgram_of_runFor completes.goesOn).contents
      place.located isConstant
  · refine completes.lasts valid prepared unsaved houses computes _ location
      place.located isPrivate
      (Slots.Before.apart computes.leftCode.before _ ⟨0, ?_,
        (Int.add_zero _).symm⟩)
    rw [Ty.slotCount_of_single single]
    exact Element.slotWidth_pos _

/-- Applying the operator to two values stores the value that it gives. -/
def Machine.Applies (machine : Machine) (term : Term) (first second : Value) :
    Prop :=
  match Calculation.binary machine.position term.operator.operation
    ⟨term.leftValue.address, first⟩ ⟨term.rightValue.address, second⟩ with
  | .ok value => ∃ after, Exec.execute term.quad machine = .ok .next after ∧
      after.memory.read term.result = .ok value
  | .error fault => Exec.execute term.quad machine = .error fault machine

/-- An operator is applied to what its operands hold. -/
theorem Machine.applies_of_computes {site : Site} {term : Term}
    (computes : site.Computes term)
    (arranged : site.context.Arranged)
    (kinded : machine.memory.Kinded) :
    machine.Applies term (machine.memory.contents term.leftValue.address)
      (machine.memory.contents term.rightValue.address) := by
  obtain ⟨element, _, typed, fresh⟩ := computes.typed
  obtain ⟨betweenAligned, leftPlaced⟩ :=
    computes.leftCode.placed arranged.singleReturns computes.aligned
  obtain ⟨endsAligned, rightPlaced⟩ :=
    computes.rightCode.placed arranged.singleReturns betweenAligned
  obtain ⟨_, _, accepted⟩ := Operator.type?_eq_some typed
  obtain ⟨leftStored, rightStored, _, stored⟩ :=
    Operator.element?_scalar accepted
  obtain ⟨_, leftPlace⟩ := leftPlaced.place (by simp [Ty.isVoid, leftStored])
  obtain ⟨_, rightPlace⟩ := rightPlaced.place (by simp [Ty.isVoid, rightStored])
  have place := fresh.basic endsAligned stored
  have leftTyped := leftPlace.kind ▸ kinded.contents leftPlace.located
  have rightTyped := rightPlace.kind ▸ kinded.contents rightPlace.located
  have writable : Region.temp ≠ .constant := by decide
  have computed : Calculation.Computes machine.position element
      (Calculation.binary machine.position term.operator.operation
        ⟨term.leftValue.address, machine.memory.contents term.leftValue.address⟩
        ⟨term.rightValue.address,
          machine.memory.contents term.rightValue.address⟩) :=
    Calculation.binary_computes leftTyped rightTyped accepted
  unfold Applies
  generalize calculated : Calculation.binary machine.position _ _ _ =
    result at computed ⊢
  cases computed with
  | divided =>
    exact Exec.execute_operator_error leftPlace.located
      rightPlace.located calculated
  | value resultTyped =>
    have fits := resultTyped
    rw [← Ty.element_basic element, ← place.kind] at fits
    refine ⟨_, Exec.execute_operator leftPlace.located rightPlace.located
      place.located writable fits calculated, ?_⟩
    rw [Memory.read_eq place.located, Memory.contents_fill_single place.located]

theorem Operator.operation_ne_ret (operator : Operator) :
    operator.operation ≠ .ret := by
  cases operator <;> decide

/-- An operator that is reached is applied to what its operands hold. -/
theorem Session.Completes.applies {plan : Plan} {scene : Scene}
    {function : Function} {routine : Routine} {extent : Extent} {term : Term}
    {session last : Session}
    (completes : session.Completes term steps last)
    (valid : plan.Valid)
    (prepared : session.Prepared plan scene)
    (houses : plan.Houses function routine extent)
    (computes : (plan.site function routine extent).Computes term) :
    last.machine.Applies term
      (last.machine.memory.contents term.leftValue.address)
      (last.machine.memory.contents term.rightValue.address) := by
  obtain ⟨_, laid⟩ := valid.laid houses
  have arrives := prepared.runFor valid completes.goesOn
  have applied : last.machine.code[last.machine.position]? =
      some term.quad := by
    rw [arrives.onTrack.sameCode, completes.ends]
    exact computes.apply
  exact Machine.applies_of_computes computes laid.arranged
    (arrives.sound.kinded_at applied term.operator.operation_ne_ret)

/-- What an operator stores is the value that it gives, and no other. -/
theorem Machine.Applies.agree {term : Term}
    {first second other value result : Value}
    (applies : machine.Applies term first second)
    (applied : machine.Applies term other second)
    (calculated : Calculation.binary machine.position term.operator.operation
      ⟨term.leftValue.address, first⟩ ⟨term.rightValue.address, second⟩ =
      .ok value)
    (computed : Calculation.binary machine.position term.operator.operation
      ⟨term.leftValue.address, other⟩ ⟨term.rightValue.address, second⟩ =
      .ok result) :
    value = result := by
  rw [Applies, calculated] at applies
  rw [Applies, computed] at applied
  obtain ⟨_, executed, stored⟩ := applies
  obtain ⟨_, same, holds⟩ := applied
  cases executed.symm.trans same
  cases stored.symm.trans holds
  rfl

/--
An operator is applied to the values that its operands had when they were
computed.  Let a program compile whose variables are of sizes that can be
counted.  Then there is code for every binary operation in it.  Whenever a
session has come to the end of the code for the left operand, and then, in the
same invocation and for the first time, to the operator, the operator is
applied to the value that the left operand had at the former moment and the
right operand has at the latter.  Only if the left operand is a global
variable, or an attribute of one, it is the value that the variable has at the
latter moment.
-/
theorem Session.operators_apply {source entry : String} {program : Program}
    {executable : Executable} {screen : Screen} {machine : Machine}
    (limit : Option Nat)
    (parsed : Program.parse source = .ok program)
    (countable : program.Countable)
    (compiled : program.compile entry = .ok executable)
    (loaded : Machine.load executable screen = .ok machine) :
    ∃ (placed : Checked) (image : Image) (segments : List Segment),
      let plan : Plan :=
  ⟨program, entry, image, placed.functions, placed.globals, segments⟩
      program.layout? entry = some placed ∧ image.code = executable.code ∧
      image.constants = executable.constants ∧
      ∀ function ∈ program.functions, ∃ routine extent,
      plan.Houses function routine extent ∧
        (∀ operator left right,
          .binary operator left right ∈ partsIn function.body →
          ∃ term, term.expression = .binary operator left right ∧
            (plan.site function routine extent).Computes term) ∧
        ∀ term, (plan.site function routine extent).Computes term →
          ∀ moment session steps last,
          Session.runFor moment { machine, limit } = .running session →
            session.Completes term steps last →
              last.machine.Applies term
                ((if function.owns term.left then session
                  else last).machine.memory.contents term.leftValue.address)
                (last.machine.memory.contents term.rightValue.address) := by
  have listsFit := Program.listsFit_of_compile parsed countable compiled
  obtain ⟨image, placed, segments, layout, sameCode, sameConstants,
      valid, complete, begins⟩ :=
      Plan.complete_of_compile limit parsed listsFit compiled loaded
  refine ⟨placed, image, segments, layout, sameCode, sameConstants, ?_⟩
  intro function member
  obtain ⟨routine, extent, houses⟩ := complete function member
  refine ⟨routine, extent, houses, (valid.filled houses).terms, ?_⟩
  intro term computes moment session steps last reached completes
  have prepared := begins.runFor valid reached
  have applies := completes.applies valid prepared houses computes
  split
  · rename_i owns
    have unsaved := unsaved_of_runFor (Machine.unsaved_of_load loaded) reached
    rwa [completes.contents valid prepared unsaved houses computes
      owns] at applies
  · exact applies

/-- A call without arguments is announced and made. -/
theorem ExprCode.announces {context : Context} {value : Operand}
    {start stop : Point}
    (code : ExprCode image context (.value (.call name [] line) value)
      start stop)
    (user : Builtin.find? name = none) :
    stop.position = start.position + 2 := by
  cases code with
  | builtin found => rw [user] at found; cases found
  | @call _ _ _ routine _ _ _ _ _ _ _ _ _ passed =>
    generalize routine.parameters = parameters at passed
    cases passed
    rfl

/-- The parts of a sum whose second operand is a call without arguments. -/
def Expr.sumWithCall? : Expr → Option (Expr × String × Nat)
  | .binary .add left (.call name [] line) => some (left, name, line)
  | _ => none

theorem Expr.eq_of_sumWithCall? {left : Expr}
    (found : expression.sumWithCall? = some (left, name, line)) :
    expression = .binary .add left (.call name [] line) := by
  unfold sumWithCall? at found
  split at found
  · cases found
    rfl
  · cases found

/-- The positions at which an executable adds. -/
def Executable.sums (executable : Executable) : List Nat :=
  (List.range executable.code.size).filter fun index =>
    executable.code[index]?.any (Quad.operation · == Operation.add)

/-- Where the only sum of a program is, if its right operand is a call. -/
theorem Site.Computes.sum_position {site : Site} {left : Expr} {position : Nat}
    {term : Term} {executable : Executable}
    (computes : site.Computes term)
    (isSum : term.expression = .binary .add left (.call name [] line))
    (user : (Builtin.find? name).isNone = true)
    (sameCode : site.image.code = executable.code)
    (only : executable.sums = [position]) :
    term.between.position + 2 = position ∧ term.ends.position = position := by
  obtain ⟨_, _, _, _, _, _, _, between, stop⟩ := term
  cases isSum
  have two : stop.position = between.position + 2 :=
    computes.rightCode.announces (Option.isNone_iff_eq_none.mp user)
  have has : site.image.code[stop.position]? = some _ := computes.apply
  rw [sameCode] at has
  have listed : stop.position ∈ executable.sums := by
    rw [Executable.sums, List.mem_filter, List.mem_range]
    exact ⟨(Array.getElem?_eq_some_iff.mp has).1, by rw [has]; rfl⟩
  rw [only] at listed
  have last := List.mem_singleton.mp listed
  exact ⟨two.symm.trans last, last⟩

/-- A session comes to an operator that it has not met before. -/
theorem Session.completes_of_runFor {session : Session} {term : Term}
    {position : Nat}
    (begins : session.machine.position + 2 = position)
    (sum : term.between.position + 2 = position ∧ term.ends.position = position)
    (goesOn : (session.runFor steps).goesOn = true)
    (ends : (session.runFor steps).session.machine.position = position)
    (depth : (session.runFor steps).session.machine.frames.length =
      session.machine.frames.length)
    (notYet : ∀ fewer ∈ List.range steps,
      (session.runFor fewer).session.machine.position ≠ position) :
    session.Completes term steps (session.runFor steps).session where
  begins := by omega
  goesOn := Progress.eq_running goesOn
  ends := ends.trans sum.2.symm
  depth := depth
  first fewer isFewer earlier ran _ same := by
    have apart := notYet fewer (List.mem_range.mpr isFewer)
    rw [ran] at apart
    exact apart (same.trans sum.2)

/-- The left operand uses a variable that the right operand assigns. -/
def readsBefore : String :=
  "program p;var int g;func int f()\x7bg=7;return 1;\x7d" ++
    "func void main()\x7bg=1;write g*1+f();\x7d"

theorem Session.operators_apply_readsBefore :
    ∃ (program : Program) (executable : Executable)
      (machine : Machine) (term : Term) (session last : Session),
      Program.parse readsBefore = .ok program ∧ program.Countable ∧
      program.compile "main" = .ok executable ∧
        Machine.load executable {} = .ok machine ∧
      Session.runFor 4 { machine } = .running session ∧
        session.Completes term 4 last ∧
      last.machine.Applies term
        (session.machine.memory.contents term.leftValue.address)
        (last.machine.memory.contents term.rightValue.address) := by
  have evaluated : (do
      let program ← (Program.parse readsBefore).toOption
      let executable ← (program.compile "main").toOption
      let machine ← (Machine.load executable {}).toOption
      let session := ({ machine } : Session).runFor 4
      let last := session.session.runFor 4
      let function ← program.functions[1]?
      let part ← (partsIn function.body)[1]?
      let shape ← part.sumWithCall?
      if program.Countable ∧ session.goesOn ∧ last.goesOn ∧
          session.session.machine.position + 2 = 9 ∧
          last.session.machine.position = 9 ∧
          last.session.machine.frames.length =
            session.session.machine.frames.length ∧
          (∀ fewer ∈ List.range 4,
            (session.session.runFor fewer).session.machine.position ≠ 9) ∧
          executable.sums = [9] ∧ function.owns shape.1 ∧
          (Builtin.find? shape.2.1).isNone then
        some ()
      else none).isSome = true := by
    decide +kernel
  simp only [Option.isSome_iff_exists, bind, Option.bind_eq_some_iff,
    toOption_eq_some, Option.ite_none_right_eq_some] at evaluated
  obtain ⟨_, program, parsed, executable, compiled, machine, loaded, function,
    isFunction, part, isPart, ⟨left, _, _⟩, shape,
    ⟨countable, goesOn, goesOnLater, begins, ends, depth, notYet, only, owns,
      user⟩, _⟩ := evaluated
  cases Expr.eq_of_sumWithCall? shape
  have reached := Progress.eq_running goesOn
  obtain ⟨_, _, _, _, sameCode, _, all⟩ := operators_apply none parsed countable
    compiled loaded
  obtain ⟨_, _, _, terms, applies⟩ :=
    all function (List.mem_of_getElem? isFunction)
  obtain ⟨term, isTerm, computes⟩ := terms _ _ _ (List.mem_of_getElem? isPart)
  have completes := completes_of_runFor begins
    (computes.sum_position isTerm user sameCode only) goesOnLater
    ends depth notYet
  have applied := applies term computes 4 _ 4 _ reached completes
  rw [show term.left = left from (Expr.binary.inj isTerm).2.1,
    if_pos owns] at applied
  exact ⟨program, executable, machine, term, _, _, parsed, countable, compiled,
    loaded, reached, completes, applied⟩

/-- The left operand is a variable that the right operand assigns. -/
def readsAfter : String :=
  "program p;var int g;func int f()\x7bg=7;return 1;\x7d" ++
    "func void main()\x7bg=1;write g+f();\x7d"

/--
The left operand is a variable that is one when the code for it has finished.
The operator is not applied to that value: the sum is eight and not two.
-/
theorem Session.left_operand_changes :
    ∃ (program : Program) (executable : Executable) (machine : Machine)
      (placed : Checked) (image : Image) (segments : List Segment)
      (function : Function) (routine : Routine) (extent : Extent) (term : Term)
      (session last : Session),
      let plan : Plan :=
        ⟨program, "main", image, placed.functions, placed.globals, segments⟩
      Program.parse readsAfter = .ok program ∧ program.Countable ∧
      program.compile "main" = .ok executable ∧
      Machine.load executable {} = .ok machine ∧
      program.layout? "main" = some placed ∧ image.code = executable.code ∧
      image.constants = executable.constants ∧
      plan.Houses function routine extent ∧
      (plan.site function routine extent).Computes term ∧
      Session.runFor 3 { machine } = .running session ∧
      session.Completes term 4 last ∧
      ¬ last.machine.Applies term
        (session.machine.memory.contents term.leftValue.address)
        (last.machine.memory.contents term.rightValue.address) := by
  have evaluated : (do
      let program ← (Program.parse readsAfter).toOption
      let executable ← (program.compile "main").toOption
      let machine ← (Machine.load executable {}).toOption
      let session := ({ machine } : Session).runFor 3
      let last := session.session.runFor 4
      let function ← program.functions[1]?
      let part ← (partsIn function.body)[1]?
      let shape ← part.sumWithCall?
      let quad ← executable.code[8]?
      let sumWith := fun (memory : Memory) =>
        Calculation.binary last.session.machine.position quad.operation
          ⟨quad.left, memory.contents quad.left⟩
          ⟨quad.right, last.session.machine.memory.contents quad.right⟩
      let earlier ← (sumWith session.session.machine.memory).toOption
      let later ← (sumWith last.session.machine.memory).toOption
      if program.Countable ∧ session.goesOn ∧ last.goesOn ∧
          session.session.machine.position + 2 = 8 ∧
          last.session.machine.position = 8 ∧
          last.session.machine.frames.length =
            session.session.machine.frames.length ∧
          (∀ fewer ∈ List.range 4,
            (session.session.runFor fewer).session.machine.position ≠ 8) ∧
          executable.sums = [8] ∧ (Builtin.find? shape.2.1).isNone ∧
          earlier ≠ later then
        some ()
      else none).isSome = true := by
    decide +kernel
  simp only [Option.isSome_iff_exists, bind, Option.bind_eq_some_iff,
    toOption_eq_some, Option.ite_none_right_eq_some] at evaluated
  obtain ⟨_, program, parsed, executable, compiled, machine, loaded, function,
    isFunction, part, isPart, ⟨_, _, _⟩, shape, quad, isQuad, earlier,
    before, later, after, ⟨countable, goesOn, goesOnLater, begins, ends, depth,
    notYet, only, user, differ⟩, _⟩ := evaluated
  cases Expr.eq_of_sumWithCall? shape
  have listsFit := Program.listsFit_of_compile parsed countable compiled
  obtain ⟨image, placed, segments, layout, sameCode, sameConstants, valid,
    complete, prepared⟩ :=
    Plan.complete_of_compile none parsed listsFit compiled loaded
  obtain ⟨routine, extent, houses⟩ :=
    complete function (List.mem_of_getElem? isFunction)
  obtain ⟨term, isTerm, computes⟩ :=
    (valid.filled houses).terms _ _ _ (List.mem_of_getElem? isPart)
  have sum := computes.sum_position isTerm user sameCode only
  have reached := Progress.eq_running goesOn
  have completes :=
    completes_of_runFor begins sum goesOnLater ends depth notYet
  obtain rfl : quad = term.quad := by
    have has : image.code[term.ends.position]? = some term.quad :=
      computes.apply
    rw [sameCode, sum.2, isQuad] at has
    exact Option.some.inj has
  refine ⟨program, executable, machine, placed, image, segments, function,
    routine, extent, term, _, _, parsed, countable, compiled, loaded, layout,
    sameCode, sameConstants, houses, computes, reached, completes, ?_⟩
  intro applies
  exact differ (applies.agree
    (completes.applies valid (prepared.runFor valid reached) houses computes)
    before after)

end Easel
