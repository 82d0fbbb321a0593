import Easel.Proofs.Code.Visits
import Easel.Proofs.Lockstep.Function
import Easel.Proofs.Machine.Delivery
import Easel.Proofs.Session.Confinement

/-!
# Arguments on their way

Between the instruction that announces a call and the call itself, arguments
are computed and passed, and computing one of them may make other calls.  The
calls that have been announced form a stack, so while the frame of a call
waits, the calls above it come and go.

This module follows a run through the code of a program and keeps account of
what waits in the frame of each announced call: for every argument the moment
at which it was passed.
-/

namespace Easel

variable {outcome : Outcome} {operand : Operand} {parameter : Ty}
variable {location : Location} {context : Context} {arguments : List Expr}
variable {done : List Ty}

namespace Session

/-- The machine after some steps, if the session has not stopped by then. -/
def At (start : Session) (moment : Nat) (machine : Machine) : Prop :=
  ∃ session, start.runFor moment = .running session ∧ session.machine = machine

variable {start : Session} {moment : Nat} {machine : Machine}

theorem At.unique {other : Machine}
    (reached : start.At moment machine)
    (otherwise : start.At moment other) :
    machine = other := by
  obtain ⟨_, ran, rfl⟩ := reached
  obtain ⟨_, otherRan, rfl⟩ := otherwise
  rw [ran] at otherRan
  cases otherRan
  rfl

/-- The step that led to a moment. -/
theorem At.previous {next : Machine} (reached : start.At (moment + 1) next) :
    ∃ machine, start.At moment machine ∧ machine.Continues next := by
  obtain ⟨_, ran, rfl⟩ := reached
  obtain ⟨before, earlier, stepped⟩ := runFor_succ_running ran
  obtain ⟨quad, outcome, left, position, executes, leads, rfl⟩ :=
    step_running stepped
  exact ⟨before.machine, ⟨before, earlier, rfl⟩, quad, outcome, left, position,
    executes.fetched, executes.ran, leads, rfl⟩

/-- A run has been at all earlier moments. -/
theorem At.earlier {later : Nat}
    (reached : start.At later machine)
    (isEarlier : moment ≤ later) :
    ∃ before, start.At moment before := by
  induction later generalizing machine with
  | zero =>
    cases Nat.le_zero.mp isEarlier
    exact ⟨machine, reached⟩
  | succ later induction =>
    rcases Nat.lt_or_eq_of_le isEarlier with isBefore | rfl
    · obtain ⟨_, reachedBetween, _⟩ := reached.previous
      exact induction reachedBetween (Nat.le_of_lt_succ isBefore)
    · exact ⟨machine, reached⟩

/-- The step that leads on from a moment. -/
theorem At.continues {next : Machine}
    (reached : start.At moment machine)
    (reachedNext : start.At (moment + 1) next) :
    machine.Continues next := by
  obtain ⟨_, reachedBefore, _⟩ := reachedNext.previous
  rwa [reached.unique reachedBefore]

/-- From one moment to another at least `depth` announced calls wait. -/
def Pends (start : Session) (since now depth : Nat) : Prop :=
  ∀ moment machine, since ≤ moment → moment ≤ now → start.At moment machine →
    depth ≤ machine.pending.length

namespace Pends

variable {since now depth : Nat}

theorem mono {fewer : Nat}
    (pends : start.Pends since now depth)
    (isFewer : fewer ≤ depth) :
    start.Pends since now fewer := fun moment machine after before reached =>
  Nat.le_trans isFewer (pends moment machine after before reached)

theorem single (reached : start.At now machine)
    (deep : depth ≤ machine.pending.length) :
    start.Pends now now depth := by
  intro moment other after before otherwise
  cases Nat.le_antisymm before after
  rwa [← reached.unique otherwise]

theorem trans {middle next : Nat}
    (before : start.Pends since middle depth)
    (after : start.Pends next now depth)
    (adjacent : next ≤ middle + 1) :
    start.Pends since now depth := by
  intro moment machine above below reached
  rcases Nat.lt_or_ge middle moment with isLater | isEarlier
  · exact after moment machine (Nat.le_trans adjacent isLater) below reached
  · exact before moment machine above isEarlier reached

end Pends

end Session

/-- Nothing but storage and the screen differs between two machines. -/
structure Machine.SameCalls (before after : Machine) : Prop where
  code : after.code = before.code
  position : after.position = before.position
  frames : after.frames = before.frames
  pending : after.pending = before.pending

theorem sameCalls_allowed : AllowsStoring Machine.SameCalls where
  refl _ := ⟨rfl, rfl, rfl, rfl⟩
  trans _ _ _ left right :=
    ⟨right.code.trans left.code, right.position.trans left.position,
      right.frames.trans left.frames, right.pending.trans left.pending⟩
  stored _ _ _ _ _ _ _ _ := ⟨rfl, rfl, rfl, rfl⟩
  cleared _ _ _ _ _ := ⟨rfl, rfl, rfl, rfl⟩
  shown _ _ := ⟨rfl, rfl, rfl, rfl⟩

theorem Exec.sameCalls_of_execute {quad : Quad} {machine left : Machine}
    (quiet : quad.operation.isQuiet = true)
    (ran : execute quad machine = .ok outcome left) :
    machine.SameCalls left := by
  have respected := execute_quiet_respects sameCalls_allowed quad quiet machine
  rwa [leaves_of_ok ran] at respected

/-! ## What is passed -/

/-- An argument in the code of a call. -/
structure Passage where
  /-- Where the value of the argument lies. -/
  operand : Operand
  /-- The type of the parameter. -/
  parameter : Ty
  /-- The position of the instruction that passes the argument. -/
  position : Nat

/-- An integer as a floating point number; other values as they are. -/
def Value.widened : Value → Value
  | .int number => .float (Float.ofInt number.toInt)
  | value => value

/-- The slots of the argument; an integer for a `Float` is converted. -/
def Passage.values (passage : Passage) (memory : Memory) : List Value :=
  let slots := memory.block passage.operand.address passage.parameter.slotCount
  if passage.operand.type.element = .int ∧
      passage.parameter.element = .float then
    slots.map Value.widened
  else slots

/-- Slots of the type of the parameter are passed as they are. -/
theorem Passage.values_of_same (position : Nat)
    (memory : Memory)
    (same : operand.type.element = parameter.element) :
    values ⟨operand, parameter, position⟩ memory =
      memory.block operand.address parameter.slotCount := by
  unfold values
  refine if_neg ?_
  rintro ⟨isInt, isFloat⟩
  dsimp only at isInt isFloat
  rw [isInt, isFloat] at same
  cases same

/-- What a slot of the parameter takes, where the types differ. -/
theorem Passage.values_of_takes {memory : Memory}
    (position : Nat)
    (differs : parameter.element ≠ operand.type.element)
    (takes : Value.Takes parameter.element operand.type.element)
    (single : parameter.isList = false)
    (place : Place operand.address operand.type location)
    (kinded : memory.Kinded) :
    values ⟨operand, parameter, position⟩ memory =
      Memory.conform parameter.element
        (memory.block operand.address parameter.slotCount) := by
  obtain ⟨isFloat, isInt⟩ : parameter.element = .float ∧
      operand.type.element = .int := by
    generalize parameter.element = target at *
    generalize operand.type.element = source at *
    cases takes with
    | same => exact (differs rfl).elim
    | widened => exact ⟨rfl, rfl⟩
  have one : parameter.slotCount = 1 := by
    rw [Ty.slotCount, single, isFloat]
    rfl
  have typed := kinded.contents place.located
  rw [place.kind, isInt] at typed
  obtain ⟨number, holds⟩ := typed.eq_int
  have slots : memory.block operand.address parameter.slotCount =
      [.int number] := by
    rw [one, Memory.block, List.range_one, List.map_singleton,
      Int.natCast_zero, Int.add_zero, holds]
  simp only [values, isInt, isFloat, slots]
  rfl

/-- The code that computes and passes the arguments of a call. -/
inductive Passages (image : Image) (context : Context) :
    List Expr → List Ty → List Passage → Point → Point → Prop where
  | nil {point : Point} : Passages image context [] [] [] point point
  | cons {argument : Expr} {rest : List Expr} {parameter : Ty}
      {parameters : List Ty}
      {operand : Operand} {address : Address} {passages : List Passage}
      {start computed widened stop : Point}
      (code : ExprCode image context (.value argument operand) start computed)
      (widening : Widening image parameter operand address computed widened)
      (pass : image.Has widened.position
        ⟨.param, address, Context.argumentSize operand.type, .unused⟩)
      (others : Passages image context rest parameters passages
        widened.next stop) :
      Passages image context (argument :: rest) (parameter :: parameters)
        (⟨operand, parameter, widened.position⟩ :: passages) start stop

/-- Every parameter gets an argument. -/
theorem Passages.getElem? {image : Image} {parameters : List Ty}
    {passages : List Passage} {begins ends : Point} {index : Nat}
    (code : Passages image context arguments parameters passages begins ends)
    (listed : parameters[index]? = some parameter) :
    ∃ passage, passages[index]? = some passage ∧
      passage.parameter = parameter := by
  induction code generalizing index with
  | nil => cases listed
  | cons _ _ _ _ induction =>
    cases index with
    | zero =>
      cases listed
      exact ⟨_, rfl, rfl⟩
    | succ index => exact induction listed

/--
At a moment the session passes an argument of a call.  So many calls have been
announced, it is the last of them, and `index` of its arguments were passed
before.
-/
def Session.Passes (start : Session)
    (moment depth index : Nat)
    (passage : Passage)
    (values : List Value) : Prop :=
  ∃ machine frame outer, start.At moment machine ∧
    machine.position = passage.position ∧ machine.pending = frame :: outer ∧
    outer.length + 1 = depth ∧ frame.staged.length = index ∧
    passage.values machine.memory = values

/-- A run of a program, in which memory is in order wherever the run goes on. -/
structure Timeline where
  start : Session
  program : Program
  image : Image
  functions : Table Routine
  globals : Table Variable
  kinded : ∀ moment machine next, start.At moment machine →
    start.At (moment + 1) next → machine.memory.Kinded

namespace Timeline

variable (line : Timeline)

/-- An expression is part of the function that the context belongs to. -/
def Contains (context : Context) (expression : Expr) : Prop :=
  ∃ function ∈ line.program.functions, ∃ routine,
    line.functions.find? function.name = some routine ∧
    context = routine.context line.functions line.globals ∧
    expression ∈ partsIn function.body

/--
Account of the frame of a call that was announced while `depth` others waited.
The others have been waiting since `base`.  Each of the arguments of the call
was passed at a moment since which the call has been waiting too.
-/
structure Account (base since depth : Nat)
    (frame : Frame)
    (passages : List Passage) : Prop where
  began : base ≤ since
  waited : line.start.Pends base since depth
  count : passages.length = frame.staged.length
  entries : ∀ (index : Nat) (passage : Passage),
    passages[index]? = some passage → ∃ moment address values, moment < since ∧
    line.start.Pends moment since (depth + 1) ∧
      frame.staged[index]? = some (address, values) ∧
      line.start.Passes moment (depth + 1) index passage values

/-- The machine is about to enter a function, its arguments accounted for. -/
inductive Calls (moment : Nat) (machine : Machine) : Prop where
  | intro {name : String} {routine : Routine} {entry : Nat} {result : Address}
      {activation : Activation} {frame : Frame} {context : Context}
      {arguments : List Expr}
      {textLine base since : Nat} {passages : List Passage}
      {begins ends : Point} (found : line.functions.find? name = some routine)
      (located : line.image.entryOf name = some (entry : Int))
      (fetched : machine.code[machine.position]? =
        some ⟨.call, (entry : Int), .unused, result⟩)
      (frames : machine.frames = activation.frames)
      (pending : machine.pending = frame :: activation.pending)
      (carries : frame.Carries routine.parameters)
      (written : line.Contains context (.call name arguments textLine))
      (code : Passages line.image context arguments routine.parameters
        passages begins ends)
      (reached : ends.position = machine.position)
      (account : line.Account base since activation.pending.length
        frame passages)
      (already : since ≤ moment)
      (waits : line.start.Pends since moment (activation.pending.length + 1)) :
      Calls moment machine

/-- A call that the machine is about to make is accounted for. -/
def Accounts (moment : Nat) (machine : Machine) : Prop :=
  ∀ quad, machine.code[machine.position]? = some quad → quad.operation = .call →
    line.Calls moment machine

/-- For a number of steps from a moment on, all calls are accounted for. -/
def Holds (moment steps : Nat) : Prop :=
  ∀ later machine, moment ≤ later → later ≤ moment + steps →
    line.start.At later machine → line.Accounts later machine

/-- At a moment the machine is at a position of an invocation. -/
structure Stands (position : Nat)
    (activation : Activation)
    (since moment : Nat)
    (machine : Machine) : Prop where
  reached : line.start.At moment machine
  position : machine.position = position
  code : machine.code = line.image.code
  frames : machine.frames = activation.frames
  pending : machine.pending = activation.pending
  already : since ≤ moment
  waits : line.start.Pends since moment activation.pending.length

/--
From a position on, all calls are accounted for in `count` steps, if the
machine gets there with memory as required.
-/
def OnwardWhen (related : Memory → Prop)
    (count position : Nat)
    (activation : Activation)
    (since : Nat) : Prop :=
  ∀ steps ≤ count, ∀ moment machine,
    line.Stands position activation since moment machine →
    related machine.memory → line.Holds moment steps

/-- From a position on, all calls are accounted for in `count` steps. -/
def Onward (count position : Nat) (activation : Activation) (since : Nat) :
    Prop :=
  line.OnwardWhen (fun _ => True) count position activation since

variable {line}
variable {count position since moment : Nat} {activation : Activation}
  {machine : Machine}
variable {quad : Quad}
variable {base fewer target : Nat} {frame : Frame} {passages : List Passage}
variable {related : Memory → Prop} {address : Address}

theorem OnwardWhen.le
    (onward : line.OnwardWhen related count position activation since)
    (noMore : fewer ≤ count) :
    line.OnwardWhen related fewer position activation since :=
  fun steps bound => onward steps (Nat.le_trans bound noMore)

theorem Onward.le (onward : line.Onward count position activation since)
    (noMore : fewer ≤ count) :
    line.Onward fewer position activation since :=
  OnwardWhen.le onward noMore

theorem Stands.fetched
    (stands : line.Stands position activation since moment machine)
    (has : line.image.Has position quad) :
    machine.code[machine.position]? = some quad := by
  rw [stands.code, stands.position]
  exact has

/-- The machine after a step that keeps an invocation's announced calls. -/
theorem Stands.next {left : Machine}
    (stands : line.Stands position activation since moment machine)
    (ran : Exec.execute quad machine = .ok outcome left)
    (frames : left.frames = activation.frames)
    (pending : left.pending = activation.pending)
    (reached : line.start.At (moment + 1) (left.arrived target)) :
    line.Stands target activation since (moment + 1) (left.arrived target) where
  reached := reached
  position := rfl
  code := (Exec.code_of_execute ran).1.trans stands.code
  frames := frames
  pending := pending
  already := Nat.le_succ_of_le stands.already
  waits :=
    stands.waits.trans
    (.single reached (Nat.le_of_eq (congrArg List.length pending.symm)))
    (Nat.le_refl _)

/-- All calls are accounted for if they are now and behind the next step. -/
theorem Holds.of_step {steps : Nat}
    (reached : line.start.At moment machine)
    (fetched : machine.code[machine.position]? = some quad)
    (here : quad.operation = .call → line.Calls moment machine)
    (later : ∀ fewer < steps, ∀ outcome left target,
      Exec.execute quad machine = .ok outcome left →
      outcome.destination? machine.position = some target →
      line.start.At (moment + 1) (left.arrived target) →
      line.Holds (moment + 1) fewer) :
    line.Holds moment steps := by
  intro after other isAfter bound reachedAfter
  rcases Nat.eq_or_lt_of_le isAfter with rfl | isLater
  · cases reached.unique reachedAfter
    intro found isFetched isCall
    rw [fetched] at isFetched
    cases isFetched
    exact here isCall
  · obtain ⟨_, reachedNext⟩ := reachedAfter.earlier isLater
    obtain ⟨found, outcome, left, target, isFetched, ran, leads, rfl⟩ :=
      reached.continues reachedNext
    rw [fetched] at isFetched
    cases isFetched
    rw [(Exec.code_of_execute ran).2] at leads
    cases steps with
    | zero => omega
    | succ steps =>
      exact later steps (Nat.lt_succ_self _) outcome left target ran leads
        reachedNext after other isLater (by omega) reachedAfter

/-- An instruction that is no call. -/
theorem OnwardWhen.of_step (has : line.image.Has position quad)
    (notCall : quad.operation ≠ .call)
    (steps : ∀ fewer < count, ∀ moment machine outcome left target,
      line.Stands position activation since moment machine →
      related machine.memory → Exec.execute quad machine = .ok outcome left →
      outcome.destination? position = some target →
      line.start.At (moment + 1) (left.arrived target) →
      line.Holds (moment + 1) fewer) :
    line.OnwardWhen related count position activation since := by
  intro taken bound moment machine stands holds
  refine .of_step stands.reached (stands.fetched has)
    (fun isCall => (notCall isCall).elim) ?_
  intro fewer isFewer outcome left target ran leads reached
  rw [stands.position] at leads
  exact steps fewer (Nat.lt_of_lt_of_le isFewer bound) moment machine outcome
    left target stands holds ran leads reached

/-- An instruction that only changes storage or the screen. -/
theorem Onward.of_quiet (has : line.image.Has position quad)
    (plain : quad.operation.isQuiet = true ∧ quad.operation.isStraight = true)
    (onward : line.Onward count (position + 1) activation since) :
    line.Onward count position activation since := by
  obtain ⟨quiet, straight⟩ := plain
  have notCall : quad.operation ≠ .call := by
    intro isCall
    rw [isCall] at quiet
    cases quiet
  have notReturn : quad.operation ≠ .ret := by
    intro isReturn
    rw [isReturn] at quiet
    cases quiet
  refine OnwardWhen.of_step has notCall ?_
  intro fewer isFewer moment machine outcome left target stands _
    ran leads reached
  have same := Exec.sameCalls_of_execute quiet ran
  cases Exec.next_of_execute straight notReturn ran
  cases leads
  exact onward fewer (Nat.le_of_lt isFewer) _ _
    (stands.next ran (same.frames.trans stands.frames)
      (same.pending.trans stands.pending) reached) trivial

/-- A jump may lead back if there are fewer steps to go from there. -/
theorem Onward.of_jump (has : line.image.Has position (Context.jump target))
    (onward : ∀ fewer < count, line.Onward fewer target activation since) :
    line.Onward count position activation since := by
  refine OnwardWhen.of_step has (by simp [Context.jump]) ?_
  intro fewer isFewer moment machine outcome left found stands _
    ran leads reached
  rw [Exec.execute_jump] at ran
  cases ran
  cases leads
  exact onward fewer isFewer fewer (Nat.le_refl _) _ _
    (stands.next (Exec.execute_jump machine target) stands.frames stands.pending
      reached) trivial

theorem Onward.of_guard {value : Operand}
    (has : line.image.Has position (Context.jumpUnless value target))
    (taken : line.Onward count (position + 1) activation since)
    (skipped : line.Onward count target activation since) :
    line.Onward count position activation since := by
  refine OnwardWhen.of_step has (by simp [Context.jumpUnless]) ?_
  intro fewer isFewer moment machine outcome left found stands _
    ran leads reached
  have same := Exec.sameCalls_of_execute rfl ran
  have next := stands.next ran (same.frames.trans stands.frames)
    (same.pending.trans stands.pending) reached
  rcases Exec.jump_of_execute rfl rfl ran with rfl | rfl
  · cases leads
    exact taken fewer (Nat.le_of_lt isFewer) _ _ next trivial
  · cases leads
    exact skipped fewer (Nat.le_of_lt isFewer) _ _ next trivial

/-! ## Arguments -/

theorem Onward.of_announce {footprint : Address}
    (announce : line.image.Has position ⟨.era, footprint, .unused, .unused⟩)
    (onward : ∀ next,
      line.Account since next activation.pending.length
      { footprint := footprint.toNat } [] →
      line.Onward count (position + 1)
      (activation.announce { footprint := footprint.toNat }) next) :
    line.Onward count position activation since := by
  refine OnwardWhen.of_step announce (by simp) ?_
  intro fewer isFewer moment machine outcome left target stands _
    ran leads reached
  rw [Exec.execute_era] at ran
  cases ran
  cases leads
  have waiting : { footprint := footprint.toNat } :: machine.pending =
      (activation.announce { footprint := footprint.toNat }).pending := by
    rw [stands.pending]
    rfl
  have deep := Nat.le_of_eq (congrArg List.length waiting.symm)
  have waited := stands.waits.trans
    ((Session.Pends.single reached deep).mono (Nat.le_succ _)) (Nat.le_refl _)
  have account : line.Account since (moment + 1) activation.pending.length
      { footprint := footprint.toNat } [] :=
    ⟨Nat.le_succ_of_le stands.already, waited,
      rfl, fun index passage listed => by cases listed⟩
  exact onward (moment + 1) account fewer (Nat.le_of_lt isFewer) _ _
    ⟨reached, rfl, stands.code, stands.frames, waiting, Nat.le_refl _,
      .single reached deep⟩ trivial

/-- The account of a call after one more of its arguments was passed. -/
theorem Account.pass {depth : Nat} {staged : Frame} {passage : Passage}
    {values : List Value} {next : Machine}
    (account : line.Account base since depth frame passages)
    (already : since ≤ moment)
    (waits : line.start.Pends since moment (depth + 1))
    (reached : line.start.At (moment + 1) next)
    (deep : depth + 1 ≤ next.pending.length)
    (passes : line.start.Passes moment (depth + 1) frame.staged.length
      passage values)
    (behind : staged.staged = frame.staged ++ [(address, values)]) :
    line.Account base (moment + 1) depth staged (passages ++ [passage]) := by
  have waitsOn := waits.trans (.single reached deep) (Nat.le_refl _)
  refine ⟨Nat.le_succ_of_le (Nat.le_trans account.began already),
    account.waited.trans (waitsOn.mono (Nat.le_succ _)) (Nat.le_succ _), ?_, ?_⟩
  · rw [behind, List.length_append, List.length_append, account.count]
    rfl
  · intro index found listed
    rcases Nat.lt_or_ge index passages.length with older | last
    · rw [List.getElem?_append_left older] at listed
      obtain ⟨earlier, slot, stored, isEarlier, waited, entry, passed⟩ :=
        account.entries index found listed
      refine ⟨earlier, slot, stored,
        Nat.lt_succ_of_lt (Nat.lt_of_lt_of_le isEarlier already),
        waited.trans waitsOn (Nat.le_succ _), ?_, passed⟩
      rw [behind, List.getElem?_append_left (account.count ▸ older), entry]
    · have bound := (List.getElem?_eq_some_iff.mp listed).1
      rw [List.length_append, List.length_singleton] at bound
      obtain rfl : index = passages.length := by omega
      rw [List.getElem?_concat_length, Option.some.injEq] at listed
      subst listed
      refine ⟨moment, address, values, Nat.lt_succ_self _, ?_, ?_,
        account.count ▸ passes⟩
      · intro later other after before reachedLater
        exact waitsOn later other (Nat.le_trans already after)
          before reachedLater
      · rw [behind, account.count, List.getElem?_concat_length]

theorem OnwardWhen.of_param {type : Ty}
    (pass : line.image.Has position
      ⟨.param, address, Context.argumentSize type, .unused⟩)
    (place : Place address parameter location)
    (fits : parameter.Fits)
    (sameDepth : type.isList = parameter.isList)
    (sameSize : parameter.isList = true → type.size = parameter.size)
    (lies : ∀ memory : Memory, memory.Kinded → related memory →
      memory.block address parameter.slotCount =
      Passage.values ⟨operand, parameter, position⟩ memory)
    (carries : frame.Carries done)
    (room : slotsOf done parameter.element + parameter.slotCount ≤ segmentSize)
    (account : line.Account base since activation.pending.length frame passages)
    (onward : ∀ staged next, Frame.Carries staged (done ++ [parameter]) →
      line.Account base next activation.pending.length staged (passages ++
      [⟨operand, parameter, position⟩]) →
      line.Onward count (position + 1) (activation.announce staged) next) :
    line.OnwardWhen related count position (activation.announce frame)
      since := by
  refine OnwardWhen.of_step pass (by simp) ?_
  intro fewer isFewer moment machine outcome left target stands holds
    ran leads reached
  have kinded := line.kinded moment machine _ stands.reached reached
  obtain ⟨staged, passed, stagedCarries⟩ := carries.stage fits.stored room
    (Memory.suits_block kinded place (Nat.le_refl _))
  rw [Exec.execute_param stands.pending place fits sameDepth sameSize
    passed] at ran
  cases ran
  cases leads
  obtain ⟨_, behind⟩ := Frame.staged_of_stage passed
  have passes : line.start.Passes moment (activation.pending.length + 1)
      frame.staged.length ⟨operand, parameter,
        position⟩ (machine.memory.block address parameter.slotCount) :=
    ⟨machine, frame, activation.pending, stands.reached, stands.position,
      stands.pending, rfl, rfl, (lies machine.memory kinded holds).symm⟩
  exact onward staged (moment + 1) stagedCarries
    (account.pass stands.already stands.waits reached (Nat.le_refl _)
      passes behind) fewer
    (Nat.le_of_lt isFewer) _ _
    ⟨reached, rfl, stands.code, stands.frames, rfl, Nat.le_refl _,
      .single reached (Nat.le_refl _)⟩ trivial

/-- An argument gets the type of its parameter and is passed. -/
theorem Onward.of_argument {argument : Expr} {computed widened : Point}
    (takes : takesArgument parameter argument operand.type = true)
    (widening : Widening line.image parameter operand address computed widened)
    (pass : line.image.Has widened.position
      ⟨.param, address, Context.argumentSize operand.type, .unused⟩)
    (aligned : computed.Aligned)
    (placed : operand.Placed)
    (fits : parameter.Fits)
    (carries : frame.Carries done)
    (room : slotsOf done parameter.element + parameter.slotCount ≤ segmentSize)
    (account : line.Account base since activation.pending.length frame passages)
    (onward : ∀ staged next, Frame.Carries staged (done ++ [parameter]) →
      line.Account base next activation.pending.length staged (passages ++
      [⟨operand, parameter, widened.position⟩]) →
      line.Onward count (widened.position + 1)
      (activation.announce staged) next) :
    line.Onward count computed.position (activation.announce frame) since := by
  cases widening with
  | same agrees =>
    obtain ⟨sameElement, sameDepth, sameSize⟩ :=
      takesArgument_agrees takes agrees
    obtain ⟨location, place⟩ :=
      placed.place (by simp [Ty.isVoid, sameElement, fits.stored])
    have wholePlace := place.of_shape sameElement sameDepth sameSize
    refine OnwardWhen.of_param pass wholePlace fits sameDepth sameSize ?_
      carries room account onward
    intro memory _ _
    exact (Passage.values_of_same _ memory sameElement).symm
  | widened differs fresh assign =>
    have copies := Exec.Copies.of_widening takes differs placed
      fits aligned fresh
    obtain ⟨location, place⟩ := copies.source
    obtain ⟨_, targetPlace, _⟩ := copies.target
    have single := copies.targetSingle
    have operandSingle := copies.single
    have elements : parameter.element ≠ operand.type.element := by
      intro same
      simp only [Ty.isList, decide_eq_false_iff_not, Nat.not_lt,
        Nat.le_zero] at single operandSingle
      simp [Ty.agrees, same, single, operandSingle] at differs
    refine OnwardWhen.of_step assign (by simp) ?_
    intro fewer isFewer moment machine outcome left found stands _
      ran leads reached
    have executed := Exec.execute_assign
      (line.kinded moment machine _ stands.reached reached) copies
    have same := executed.symm.trans ran
    cases same
    cases leads
    have later : line.OnwardWhen
        (fun memory => memory.block address parameter.slotCount =
          Memory.conform parameter.element
            (memory.block operand.address parameter.slotCount))
        count (computed.position + 1) (activation.announce frame) since :=
      OnwardWhen.of_param pass targetPlace fits
        (operandSingle.trans single.symm) (by simp [single])
        (fun _ kinded lies => lies.trans
          (Passage.values_of_takes _ elements copies.takes single
            place kinded).symm)
        carries room account onward
    exact later fewer (Nat.le_of_lt isFewer) _ _
      (stands.next executed stands.frames stands.pending reached)
      (Exec.block_copied copies elements machine)

/-! ## Calls -/

variable (line) in
/-- All calls are accounted for from a return on. -/
def Returning (count : Nat) (activation : Activation) (since : Nat) : Prop :=
  ∀ position address,
    line.image.Has position ⟨.ret, .unused, .unused, address⟩ →
    line.Onward count position activation since

variable (line) in
/-- All calls are accounted for from the start of a function on. -/
def CallsOnward (count : Nat) : Prop :=
  ∀ (name : String) (routine : Routine) (entry : Nat) (activation : Activation)
    (since : Nat), line.functions.find? name = some routine →
    line.image.entryOf name = some (entry : Int) →
    line.Returning count activation since →
      line.Onward count entry activation since

theorem Returning.le (returning : line.Returning count activation since)
    (noMore : fewer ≤ count) :
    line.Returning fewer activation since :=
  fun position address has => (returning position address has).le noMore

/-- A function that was called returns behind the call. -/
theorem Stands.returning
    (stands : line.Stands position (activation.announce frame) since
      moment machine)
    (unsaved : frame.saved = none)
    (account : line.Account base since activation.pending.length frame passages)
    (onward : line.Onward count (position + 1) activation base) :
    line.Returning count (Scene.invoked machine activation frame unsaved)
      (moment + 1) := by
  intro leaving address has
  refine OnwardWhen.of_step has (by simp) ?_
  intro fewer isFewer later other outcome left target inside _ ran leads reached
  rw [Exec.execute_ret rfl] at ran
  rcases Exec.leave_ok ran with ⟨callee, frames, _⟩ |
    ⟨callee, caller, outer, saved, site, values, memory, frames, _, _,
      _, _, rfl, rfl⟩
  · rw [inside.frames] at frames
    cases frames
  · rw [inside.frames] at frames
    cases frames
    cases leads
    -- The calls that were announced before have been waiting all the time.
    have waitedHere := account.waited.trans (stands.waits.mono (Nat.le_succ _))
      (Nat.le_succ _)
    have waitedInside := waitedHere.trans inside.waits (Nat.le_refl _)
    have waited := waitedInside.trans
      (.single reached
        (Nat.le_of_eq (congrArg List.length inside.pending.symm)))
      (Nat.le_refl _)
    have already : base ≤ later + 1 := Nat.le_trans account.began
      (Nat.le_trans stands.already
        (Nat.le_of_succ_le (Nat.le_succ_of_le inside.already)))
    refine onward fewer (Nat.le_of_lt isFewer) _ _
      ⟨reached, congrArg (· + 1) stands.position, inside.code, ?_,
        inside.pending, already, waited⟩ trivial
    exact congrArg (· :: activation.waiting)
      (activation.resumed_suspended machine.memory)

/-- A function is called with an account of its arguments. -/
theorem Onward.of_call {name : String} {routine : Routine} {entry : Nat}
    {result : Address} {textLine : Nat} {begins ends : Point}
    (found : line.functions.find? name = some routine)
    (located : line.image.entryOf name = some (entry : Int))
    (site : line.image.Has ends.position
      ⟨.call, (entry : Int), .unused, result⟩)
    (carries : frame.Carries routine.parameters)
    (written : line.Contains context (.call name arguments textLine))
    (code : Passages line.image context arguments routine.parameters
      passages begins ends)
    (account : line.Account base since activation.pending.length frame passages)
    (calls : ∀ fewer < count, line.CallsOnward fewer)
    (onward : line.Onward count (ends.position + 1) activation base) :
    line.Onward count ends.position (activation.announce frame) since := by
  intro steps bound moment machine stands _
  have fetched := stands.fetched site
  refine .of_step stands.reached fetched (fun _ => ?_) ?_
  · have frames : machine.frames = activation.frames := stands.frames
    exact .intro found located fetched frames stands.pending
      carries written code stands.position.symm account
      stands.already stands.waits
  · intro fewer isFewer outcome left target ran leads reached
    have returning := stands.returning carries.unsaved account
      (onward.le (Nat.le_of_lt (Nat.lt_of_lt_of_le isFewer bound)))
    rw [Exec.execute_call rfl] at ran
    obtain ⟨_, _, _, _, _, pending, frames, _, rfl, rfl⟩ :=
      Exec.enter_ok ran
    rw [stands.pending] at pending
    rw [stands.frames] at frames
    cases pending
    cases frames
    cases leads
    exact calls fewer (Nat.lt_of_lt_of_le isFewer bound) name routine entry _
      _ found located returning fewer (Nat.le_refl _) _ _
      ⟨reached, rfl, stands.code, rfl, rfl, Nat.le_refl _,
        .single reached (Nat.le_refl _)⟩
      trivial

end Timeline

end Easel
