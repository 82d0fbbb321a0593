import Easel.Proofs.Session.Run

/-!
# A call leaves its caller as it was

All functions share one local and one temporary region.  A call saves both
on the caller's frame and its return brings them back, so nothing that runs
in between can disturb the caller: not the callee, not calls of its own to
any depth, and not calls that were announced and never made.

The argument follows the stack.  From the call on, the stack has the callee's
frame somewhere and the suspended frame of the caller below it, and only the
return of the callee itself touches what lies below.
-/

namespace Easel

variable {session : Session} {fuel : Nat} {below : List Frame} {after : Memory}
variable {site : Quad} {called : Machine}

variable {quad : Quad} {machine left : Machine} {outcome : Outcome}

/-- Only storage, screen and announced calls differ between machines. -/
structure Machine.SameControl (before after : Machine) : Prop where
  code : after.code = before.code
  position : after.position = before.position
  frames : after.frames = before.frames
  unsaved : (∀ frame ∈ before.pending, frame.saved = none) →
    ∀ frame ∈ after.pending, frame.saved = none

variable {values : List Value}

theorem Frame.saved_of_stage {frame staged : Frame} {kind : Element}
    (passed : frame.stage kind values = .ok staged) :
    staged.saved = frame.saved := by
  unfold stage at passed
  split at passed
  · cases passed
  · split at passed
    · cases passed
    · cases passed
      rfl

theorem sameControl_allows : Allows Machine.SameControl where
  refl machine := ⟨rfl, rfl, rfl, id⟩
  trans first second third left right :=
    ⟨right.code.trans left.code, right.position.trans left.position,
      right.frames.trans left.frames, fun unsaved =>
      right.unsaved (left.unsaved unsaved)⟩
  stored machine address location value fitted located writable fits :=
    ⟨rfl, rfl, rfl, id⟩
  cleared machine address count memory ran := ⟨rfl, rfl, rfl, id⟩
  shown machine screen := ⟨rfl, rfl, rfl, id⟩
  announced machine footprint := by
    refine ⟨rfl, rfl, rfl, ?_⟩
    intro unsaved frame member
    rcases List.mem_cons.mp member with rfl | older
    · rfl
    · exact unsaved frame older
  passed machine frame staged outer kind values pending passed := by
    refine ⟨rfl, rfl, rfl, ?_⟩
    intro unsaved other member
    rw [pending] at unsaved
    rcases List.mem_cons.mp member with rfl | older
    · rw [Frame.saved_of_stage passed]
      exact unsaved frame (List.mem_cons_self)
    · exact unsaved other (List.mem_cons_of_mem frame older)

/-- An instruction that is neither a call nor a return stays in its function. -/
theorem Exec.sameControl_of_execute (notCall : quad.operation ≠ .call)
    (notReturn : quad.operation ≠ .ret)
    (ran : execute quad machine = .ok outcome left) :
    machine.SameControl left := by
  have respected := execute_respects sameControl_allows quad notCall
    notReturn machine
  rwa [leaves_of_ok ran] at respected

theorem Exec.execute_call (isCall : quad.operation = .call) :
    execute quad = enter quad.left := by
  simp only [execute, isCall]

theorem Exec.execute_ret (isReturn : quad.operation = .ret) :
    execute quad = leave quad.result := by
  simp only [execute, isReturn]

/-- No instruction changes the code or the machine's position. -/
theorem Exec.code_of_execute (ran : execute quad machine = .ok outcome left) :
    left.code = machine.code ∧ left.position = machine.position := by
  by_cases isCall : quad.operation = .call
  · rw [execute_call isCall] at ran
    obtain ⟨callee, _, caller, outer, memory, _, _, _, _, rfl⟩ := enter_ok ran
    exact ⟨rfl, rfl⟩
  · by_cases isReturn : quad.operation = .ret
    · rw [execute_ret isReturn] at ran
      rcases leave_ok ran with
        ⟨callee, _, _, rfl⟩ |
        ⟨callee, caller, outer, saved, site, values, memory, _, _,
          _, _, _, _, rfl⟩
      · exact ⟨rfl, rfl⟩
      · exact ⟨rfl, rfl⟩
    · have same := sameControl_of_execute isCall isReturn ran
      exact ⟨same.code, same.position⟩

/--
Every function that waits has saved slots.  Neither the running function nor
one that is still to be entered has any.
-/
structure Machine.Unsaved (machine : Machine) : Prop where
  running : ∀ frame ∈ machine.frames.head?, frame.saved = none
  pending : ∀ frame ∈ machine.pending, frame.saved = none
  waiting : ∀ frame ∈ machine.frames.tail, frame.saved.isSome = true

theorem Exec.unsaved_of_execute (unsaved : machine.Unsaved)
    (ran : execute quad machine = .ok outcome left) :
    left.Unsaved := by
  by_cases isCall : quad.operation = .call
  · rw [execute_call isCall] at ran
    obtain ⟨callee, _, caller, outer, memory, pending, frames, _, _, rfl⟩ :=
      enter_ok ran
    have older := unsaved.pending
    have below := unsaved.waiting
    rw [pending] at older
    rw [frames] at below
    refine ⟨?_, ?_, List.forall_mem_cons.mpr ⟨rfl, below⟩⟩
    · intro frame member
      cases member
      exact older callee List.mem_cons_self
    · intro frame member
      exact older frame (List.mem_cons_of_mem callee member)
  · by_cases isReturn : quad.operation = .ret
    · rw [execute_ret isReturn] at ran
      rcases leave_ok ran with
        ⟨callee, _, _, rfl⟩ |
        ⟨callee, caller, outer, saved, site, values, memory, frames, _,
          _, _, _, _, rfl⟩
      · exact ⟨nofun, unsaved.pending, nofun⟩
      · have below := unsaved.waiting
        rw [frames] at below
        refine ⟨?_, unsaved.pending, (List.forall_mem_cons.mp below).2⟩
        intro frame member
        cases member
        rfl
    · have same := sameControl_of_execute isCall isReturn ran
      refine ⟨?_, same.unsaved unsaved.pending, ?_⟩
      · rw [same.frames]
        exact unsaved.running
      · rw [same.frames]
        exact unsaved.waiting

variable {last : Session}

theorem Session.unsaved_of_runFor (unsaved : session.machine.Unsaved)
    (goesOn : session.runFor fuel = .running last) :
    last.machine.Unsaved := by
  refine runFor_invariant (fun session => session.machine.Unsaved) ?_
    unsaved goesOn
  intro before after kept stepped
  obtain ⟨_, _, _, _, executes, _, rfl⟩ := step_running stepped
  have settled := Exec.unsaved_of_execute kept executes.ran
  exact ⟨settled.running, settled.pending, settled.waiting⟩

theorem Machine.unsaved_of_load {executable : Executable} {screen : Screen}
    (loaded : load executable screen = .ok machine) : machine.Unsaved := by
  unfold load at loaded
  split at loaded
  · cases loaded
    refine ⟨?_, nofun, nofun⟩
    intro frame member
    cases member
    rfl
  · cases loaded

/-! ## From the call to its return -/

/-- The machine is inside a call made at `position`; `below` waits for it. -/
def Machine.Inside (position : Nat) (below : List Frame) (machine : Machine) :
    Prop :=
  ∃ above callee, machine.frames = above ++ callee :: below ∧
    callee.calledFrom = position

/-- The session's next instruction is a return that leaves `depth` frames. -/
def Session.ReturnsTo (session : Session) (depth : Nat) : Prop :=
  ∃ exit outcome left, session.Executes exit outcome left ∧
    exit.operation = .ret ∧ left.frames.length = depth

instance (session : Session) (depth : Nat) :
    Decidable (session.ReturnsTo depth) :=
  match fetched : session.machine.code[session.machine.position]? with
  | none => .isFalse fun ⟨_, _, _, executes, _⟩ => by
    simp [executes.fetched] at fetched
  | some quad =>
    match allowed : session.exhausted?, ran : Exec.execute quad
      session.machine with
    | none, .ok outcome left =>
      if returned : quad.operation = .ret ∧ left.frames.length = depth then
        .isTrue ⟨quad, outcome, left, ⟨fetched, allowed, ran⟩, returned⟩
      else .isFalse fun ⟨_, _, _, executes, isReturn⟩ => by
        obtain ⟨rfl, rfl, rfl⟩ :=
          Session.Executes.unique ⟨fetched, allowed, ran⟩ executes
        exact returned isReturn
    | some fault, _ => .isFalse fun ⟨_, _, _, executes, _⟩ => by
      simp [executes.allowed] at allowed
    | none, .error fault left => .isFalse fun ⟨_, _, _, executes, _⟩ => by
      have same := fetched.symm.trans executes.fetched
      cases same
      simp [executes.ran] at ran

variable {position : Nat}

/-- An instruction stays inside a call unless it is the call's own return. -/
theorem Exec.inside_of_execute (inside : machine.Inside position below)
    (ran : execute quad machine = .ok outcome left)
    (notReturned : quad.operation = .ret → left.frames.length ≠ below.length) :
    left.Inside position below := by
  obtain ⟨above, callee, frames, called⟩ := inside
  by_cases isCall : quad.operation = .call
  · rw [execute_call isCall] at ran
    obtain ⟨entering, _, caller, outer, memory, _, stack, _, _, rfl⟩ :=
      enter_ok ran
    rw [frames] at stack
    cases above with
    | nil =>
      cases stack
      exact ⟨[entered entering machine.position],
        suspended callee machine.memory, rfl, called⟩
    | cons first above =>
      cases stack
      exact ⟨entered entering machine.position :: suspended caller
        machine.memory :: above, callee, rfl, called⟩
  · by_cases isReturn : quad.operation = .ret
    · have unreturned := notReturned isReturn
      rw [execute_ret isReturn] at ran
      rcases leave_ok ran with
        ⟨leaving, stack, _, rfl⟩ |
        ⟨leaving, caller, outer, saved, site, values, memory, stack, _,
          _, _, _, _, rfl⟩
      · rw [frames] at stack
        cases above with
        | nil =>
          cases stack
          exact (unreturned rfl).elim
        | cons first above => simp at stack
      · rw [frames] at stack
        match above, stack with
        | [], stack =>
          cases stack
          exact (unreturned rfl).elim
        | [first], stack =>
          cases stack
          exact ⟨[], resumed callee, rfl, called⟩
        | first :: second :: above, stack =>
          cases stack
          exact ⟨resumed caller :: above, callee, rfl, called⟩
    · have same := sameControl_of_execute isCall isReturn ran
      exact ⟨above, callee, same.frames.trans frames, called⟩

/-- A run inside a call is still inside it if the call has not returned. -/
theorem Session.inside_of_runFor
    (inside : session.machine.Inside position below)
    (goesOn : session.runFor fuel = .running last)
    (first : ∀ earlier < fuel, ∀ between,
      session.runFor earlier = .running between →
      ¬ between.ReturnsTo below.length) :
    last.machine.Inside position below ∧
      last.machine.code = session.machine.code := by
  induction fuel generalizing last with
  | zero =>
    cases goesOn
    exact ⟨inside, rfl⟩
  | succ fuel induction =>
    obtain ⟨before, reached, stepped⟩ := runFor_succ_running goesOn
    obtain ⟨stillInside, sameCode⟩ := induction reached
      fun earlier small => first earlier (Nat.lt_succ_of_lt small)
    obtain ⟨quad, outcome, left, _, executes, _, rfl⟩ := step_running stepped
    have notReturned : quad.operation = .ret →
        left.frames.length ≠ below.length :=
      fun isReturn back =>
        first fuel (Nat.lt_succ_self fuel) before reached
          ⟨quad, outcome, left, executes, isReturn, back⟩
    have left_inside := Exec.inside_of_execute stillInside
      executes.ran notReturned
    exact ⟨left_inside, (Exec.code_of_execute executes.ran).1.trans sameCode⟩

/-! ## What the return brings back -/

/-- The local and temporary slots are the same in two memories. -/
def Memory.SameSlots (before after : Memory) : Prop :=
  after.locals = before.locals ∧ after.temps = before.temps

/--
Local and temporary slots differ between two memories only by `values`, which
were stored from `target` on and widened where a slot asked for it.
-/
structure Memory.Received (before after : Memory)
    (target : Address)
    (values : List Value) : Prop where
  outside : ∀ region ∈ [Region.local, Region.temp], ∀ slot,
    slot < target ∨ target + values.length ≤ slot →
      (after.bank region)[slot]? = (before.bank region)[slot]?
  inside : ∀ (index : Nat) (value : Value), values[index]? = some value →
    ∃ location fitted, locate? (target + index) = some location ∧
      value.fit? location.kind = some fitted ∧
      ∀ region ∈ [Region.local, Region.temp],
        (after.bank region)[target + (index : Int)]? =
          if region = location.region then some fitted
          else (before.bank region)[target + (index : Int)]?

variable {memory before : Memory}

theorem Memory.bank_restore_snapshot {region : Region}
    (shared : region ∈ [Region.local, Region.temp]) :
    (memory.restore before.snapshot).bank region = before.bank region := by
  simp only [List.mem_cons, List.not_mem_nil, or_false] at shared
  rcases shared with rfl | rfl
  · rfl
  · rfl

theorem Memory.received_of_writeBlock {target : Address}
    (ran : writeBlock target values (memory.restore before.snapshot) =
      .ok () after) :
    Received before after target values := by
  constructor
  · intro region shared slot outside
    rw [bank_writeBlock_outside region ran outside,
      bank_restore_snapshot shared]
  · intro index value member
    obtain ⟨location, fitted, located, _, fits, banks⟩ :=
      bank_writeBlock_inside ran member
    refine ⟨location, fitted, located, fits, ?_⟩
    intro region shared
    rw [banks region, bank_restore_snapshot shared]

theorem length_of_mapM_ok {transform : α → Except ε β} {inputs : List α}
    {outputs : List β}
    (ran : inputs.mapM transform = .ok outputs) :
    outputs.length = inputs.length := by
  induction inputs generalizing outputs with
  | nil =>
    cases ran
    rfl
  | cons input inputs induction =>
    rw [List.mapM_cons] at ran
    cases first : transform input with
    | error problem => simp [first, bind, Except.bind] at ran
    | ok output =>
      cases rest : inputs.mapM transform with
      | error problem => simp [first, rest, bind, Except.bind] at ran
      | ok following =>
        simp only [first, rest, bind, Except.bind, pure, Except.pure,
          Except.ok.injEq] at ran
        rw [← ran, List.length_cons, List.length_cons, induction rest]

/-- A value is read as one slot, or as the slots of a block. -/
theorem Memory.length_of_readWhole {address : Address}
    (read : memory.readWhole address = .ok values) :
    ∃ location, locate? address = some location ∧
      values.length = location.width := by
  cases located : locate? address with
  | none => simp [readWhole, locate, located, bind, Except.bind] at read
  | some location =>
    refine ⟨location, rfl, ?_⟩
    simp only [readWhole, locate, located, bind, Except.bind, readBlock] at read
    rw [length_of_mapM_ok read, List.length_range]
    unfold Location.width
    split
    · rfl
    · rfl

/-- A call that was made leaves the machine inside it, above the caller. -/
theorem Exec.inside_of_call (isCall : site.operation = .call)
    (ran : execute site machine = .ok outcome called) :
    ∃ caller outer, machine.frames = caller :: outer ∧
      called.Inside machine.position
        (suspended caller machine.memory :: outer) := by
  rw [execute_call isCall] at ran
  obtain ⟨callee, _, caller, outer, _, _, frames, _, _, rfl⟩ := enter_ok ran
  exact ⟨caller, outer, frames, [], entered callee machine.position, rfl, rfl⟩

/-- From a call until its return a run is inside the call. -/
theorem Session.inside_since_call {calling : Session} {calledTo : Outcome}
    {later : Nat}
    (calls : calling.Executes site calledTo called)
    (isCall : site.operation = .call)
    (goesOn : calling.runFor (later + 1) = .running last)
    (first : ∀ earlier < later + 1, ∀ between,
      calling.runFor earlier = .running between →
      ¬ between.ReturnsTo calling.machine.frames.length) :
    ∃ caller outer, calling.machine.frames = caller :: outer ∧
      last.machine.Inside calling.machine.position
        (Exec.suspended caller calling.machine.memory :: outer) ∧
      last.machine.code = calling.machine.code := by
  obtain ⟨caller, outer, frames, inside⟩ := Exec.inside_of_call isCall calls.ran
  cases stepped : calling.step with
  | stopped stopped fault => simp [runFor, stepped] at goesOn
  | running next =>
    have nextRuns : ∀ fuel, calling.runFor (fuel + 1) = next.runFor fuel := by
      intro fuel
      simp only [runFor, stepped]
    obtain ⟨_, _, _, _, executes, _, moved⟩ := step_running stepped
    obtain ⟨rfl, rfl, rfl⟩ := calls.unique executes
    have nextInside : next.machine.Inside calling.machine.position
        (Exec.suspended caller calling.machine.memory :: outer) := by
      rw [moved]
      exact inside
    have nextCode : next.machine.code = calling.machine.code := by
      rw [moved]
      exact (Exec.code_of_execute calls.ran).1
    rw [nextRuns] at goesOn
    have notYet : ∀ earlier < later, ∀ between,
        next.runFor earlier = .running between →
        ¬ between.ReturnsTo (Exec.suspended caller calling.machine.memory ::
          outer).length := by
      intro earlier small between reached
      rw [← nextRuns] at reached
      have unreturned := first (earlier + 1) (Nat.succ_lt_succ small)
        between reached
      rwa [frames] at unreturned
    obtain ⟨stillInside, sameCode⟩ := inside_of_runFor nextInside goesOn notYet
    exact ⟨caller, outer, frames, stillInside, sameCode.trans nextCode⟩

/-- The return of a call gives the storage and the frames below it back. -/
theorem Exec.leave_inside {exit : Quad} {caller : Frame} {outer : List Frame}
    (isReturn : exit.operation = .ret)
    (inside : machine.Inside position (suspended caller before :: outer))
    (ran : execute exit machine = .ok outcome left)
    (back : left.frames.length = outer.length + 1) :
    ∃ site values memory,
      machine.code[position]? = some site ∧
        handedBack machine.memory exit.result = .ok values ∧
        handOver site.result values (machine.memory.restore before.snapshot) =
          .ok () memory ∧
        outcome = .jump (position + 1) ∧
        left = { machine with memory, frames := resumed caller :: outer } := by
  obtain ⟨above, _, frames, called⟩ := inside
  rw [execute_ret isReturn] at ran
  rcases leave_ok ran with
    ⟨leaving, stack, _, rfl⟩ |
    ⟨leaving, waiting, rest, saved, site, values, memory, stack, kept,
      found, read, wrote, jumped, rfl⟩
  · simp at back
  · have above_nil : above = [] := by
      have sizes := congrArg List.length (frames.symm.trans stack)
      simp only [List.length_append, List.length_cons] at sizes back
      exact List.eq_nil_of_length_eq_zero (by omega)
    rw [frames, above_nil] at stack
    cases stack
    cases kept
    rw [called] at found jumped
    exact ⟨site, values, memory, found, read, wrote, jumped, rfl⟩

/-- What a return stores for its caller. -/
theorem Exec.handOver_ok {result source : Address}
    {values : Option (List Value)} {read : Memory}
    (handed : handedBack read source = .ok values)
    (ran : handOver result values (memory.restore before.snapshot) =
      .ok () after) :
    (source = .unused ∨ result = .unused → before.SameSlots after) ∧
      (source ≠ .unused → result ≠ .unused →
        ∃ location stored, locate? source = some location ∧
          read.readWhole source = .ok stored ∧ stored.length = location.width ∧
          before.Received after result stored) := by
  unfold handedBack at handed
  by_cases absent : source = .unused
  · simp only [absent, if_true, Except.ok.injEq] at handed
    subst values
    simp only [handOver, pure, EStateM.pure, EStateM.Result.ok.injEq] at ran
    refine ⟨fun _ => ?_, fun present => (present absent).elim⟩
    rw [← ran.2]
    exact ⟨rfl, rfl⟩
  · simp only [absent, if_false] at handed
    cases whole : read.readWhole source with
    | error fault => simp [whole, Functor.map, Except.map] at handed
    | ok stored =>
      simp only [whole, Functor.map, Except.map, Except.ok.injEq] at handed
      subst values
      by_cases ignored : result = .unused
      · simp only [handOver, ignored, if_true, pure, EStateM.pure,
          EStateM.Result.ok.injEq] at ran
        refine ⟨fun _ => ?_, fun _ present => (present ignored).elim⟩
        rw [← ran.2]
        exact ⟨rfl, rfl⟩
      · simp only [handOver, ignored, if_false] at ran
        refine ⟨fun either => (either.elim absent ignored).elim, fun _ _ => ?_⟩
        obtain ⟨location, located, length⟩ := Memory.length_of_readWhole whole
        exact ⟨location, stored, located, rfl, length,
          Memory.received_of_writeBlock ran⟩

/--
A call leaves its caller as it was.  Let a session of any program reach a
call that succeeds, and let it later, for the first time since, reach a
return that leaves as many frames as there were at the call.  After that
return the program goes on behind the call with the frames of the caller, and
local and temporary storage are as they were at the call, except for the
slots in which the returned value was stored.  None are stored if the return
has no value or the call no result.
-/
theorem Session.caller_restored
    {executable : Executable} {screen : Screen}
    {start calling returning : Session}
    {reached later : Nat}
    {site exit : Quad} {calledTo leftTo : Outcome} {called left : Machine}
    (loaded : Machine.load executable screen = .ok start.machine)
    (reachable : start.runFor reached = .running calling)
    (calls : calling.Executes site calledTo called)
    (isCall : site.operation = .call)
    (goesOn : calling.runFor later = .running returning)
    (returns : returning.Executes exit leftTo left)
    (isReturn : exit.operation = .ret)
    (back : left.frames.length = calling.machine.frames.length)
    (first : ∀ earlier < later, ∀ between,
      calling.runFor earlier = .running between →
      ¬ between.ReturnsTo calling.machine.frames.length) :
    let before := calling.machine
    let after := returning.step.session.machine
    after.position = before.position + 1 ∧
      after.frames = before.frames ∧
      (∀ frame ∈ after.frames.head?, frame.saved = none) ∧
      (exit.result = .unused ∨ site.result = .unused →
        before.memory.SameSlots after.memory) ∧
      (exit.result ≠ .unused → site.result ≠ .unused →
        ∃ source values, locate? exit.result = some source ∧
          returning.machine.memory.readWhole exit.result = .ok values ∧
          values.length = source.width ∧
          before.memory.Received after.memory site.result values) := by
  intro before after
  have unsaved := unsaved_of_runFor (Machine.unsaved_of_load loaded) reachable
  cases later with
  | zero =>
    cases goesOn
    have same := calls.fetched.symm.trans returns.fetched
    cases same
    rw [isCall] at isReturn
    cases isReturn
  | succ later =>
    obtain ⟨caller, outer, frames, inside, sameCode⟩ :=
      inside_since_call calls isCall goesOn first
    obtain ⟨found, values, memory, foundSite, read, wrote, rfl, rfl⟩ :=
      Exec.leave_inside isReturn inside returns.ran
        (by simpa [frames] using back)
    have sameSite : some found = some site := by
      rw [← foundSite, sameCode, calls.fetched]
    cases sameSite
    have ended : after = { returning.machine with
        memory, frames := Exec.resumed caller :: outer
        position := before.position + 1
        screen := returning.machine.screen.poll.2 } := by
      change returning.step.session.machine = _
      rw [returns.step_eq, follow_session _ rfl]
      rfl
    have resumedCaller : Exec.resumed caller = caller := by
      have settled := unsaved.running caller (by simp [frames])
      unfold Exec.resumed
      rw [← settled]
    rw [ended, resumedCaller]
    refine ⟨rfl, frames.symm, ?_, Exec.handOver_ok read wrote⟩
    intro frame member
    cases member
    exact unsaved.running caller (by simp [frames])

/--
A function that keeps a number and calls another one, which overwrites the
slot of that number, makes a call of its own and returns the new number to a
slot for numbers with a fraction.
-/
def nestedCalls : Executable where
  code := #[
    ⟨.assign, 33000, -1, 13000⟩, ⟨.era, 1, -1, -1⟩, ⟨.call, 4, -1, 20000⟩,
    ⟨.ret, -1, -1, -1⟩, ⟨.assign, 33001, -1, 13000⟩, ⟨.era, 0, -1, -1⟩,
    ⟨.call, 8, -1, -1⟩, ⟨.ret, -1, -1, 13000⟩, ⟨.ret, -1, -1, -1⟩]
  constants := [⟨"7", .int, 33000⟩, ⟨"8", .int, 33001⟩]

def nestedCalls.start : Session :=
  match Machine.load nestedCalls {} with
  | .ok machine => { machine }
  | .error _ => default

theorem Session.caller_restored_nestedCalls :
    let calling := (nestedCalls.start.runFor 2).session
    let returning := (calling.runFor 5).session
    let before := calling.machine
    let after := returning.step.session.machine
    before.position = 2 ∧ after.position = 3 ∧ after.frames = before.frames ∧
      ∃ values, returning.machine.memory.readWhole 13000 = .ok values ∧
        before.memory.Received after.memory 20000 values := by
  intro calling returning before after
  have loaded : Machine.load nestedCalls {} =
    .ok nestedCalls.start.machine := rfl
  have reachable : nestedCalls.start.runFor 2 = .running calling :=
    Progress.eq_running (by decide +kernel)
  have goesOn : calling.runFor 5 = .running returning :=
    Progress.eq_running (by decide +kernel)
  have calls : calling.Executes ⟨.call, 4, -1, 20000⟩ (.jump 4) _ :=
    ⟨by decide +kernel, by decide +kernel, Exec.eq_ok (by decide +kernel)⟩
  have returns : returning.Executes ⟨.ret, -1, -1, 13000⟩ (.jump 3) _ :=
    ⟨by decide +kernel, by decide +kernel, Exec.eq_ok (by decide +kernel)⟩
  have notYet : ∀ earlier < 5,
      ¬ (calling.runFor earlier).session.ReturnsTo 1 := by
    decide +kernel
  have sameDepth : calling.machine.frames.length = 1 := by
    decide +kernel
  have atCall : calling.machine.position = 2 := by
    decide +kernel
  obtain ⟨position, frames, _, _, received⟩ :=
    caller_restored loaded reachable calls rfl goesOn returns rfl
        (by decide +kernel) (by
      intro earlier small between reached
      have unreturned := notYet earlier small
      rwa [reached, ← sameDepth] at unreturned)
  obtain ⟨_, values, _, read, _, stored⟩ := received (by decide) (by decide)
  rw [atCall] at position
  exact ⟨atCall, position, frames, values, read, stored⟩

end Easel
