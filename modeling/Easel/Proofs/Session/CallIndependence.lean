import Easel.Proofs.Session.Safety

/-!
# Calls do not depend on what their caller left

A function is entered while the local and temporary slots of its caller still
hold what the caller left there.  If a function and all that it calls are
settled, that makes no difference: two calls with the same arguments, global
variables and keys write and draw the same, and return the same or fail alike.
A function that is not settled can get to see what its caller left.
-/

namespace Easel

variable {firstMachine secondMachine : Machine} {taken depth : Nat}
variable {later : Session} {exit : Quad} {outcome : Outcome} {name : String}

/-! ## Sessions in lockstep -/

/-- Without a limit and with an open window a session follows its machine. -/
theorem Session.step_of_continues {session : Session} {next : Machine}
    (continues : session.machine.Continues next)
    (unlimited : session.limit = none)
    (stays : next.screen.closeAfter = none) :
    session.step = .running (session.counted next) := by
  obtain ⟨quad, outcome, left, _, fetched, ran, leads, rfl⟩ := continues
  have executes : session.Executes quad outcome left :=
    ⟨fetched, by rw [exhausted?, unlimited], ran⟩
  have stillOpen : left.screen.poll.1 = false := by
    change left.screen.closeAfter = none at stays
    simp [Screen.poll, stays]
  rw [executes.step_eq, follow_eq (session.counted left) leads]
  simp [counted, stillOpen]

namespace Scene

variable {scene : Scene} {first second : Session} {count : Nat}

theorem Ends.alike (ends : scene.Ends firstMachine secondMachine) :
    Screen.Alike scene.origin firstMachine.screen secondMachine.screen := by
  cases ends with
  | fault _ _ _ alike => exact alike
  | returns _ _ _ _ _ alike => exact alike

theorem Ends.globals (ends : scene.Ends firstMachine secondMachine) :
    firstMachine.memory.globals = secondMachine.memory.globals := by
  cases ends with
  | fault _ _ _ _ globals => exact globals
  | returns _ _ _ _ _ _ globals => exact globals

theorem Lockstep.alike
    (lockstep : scene.Lockstep (count + 1) firstMachine secondMachine) :
    Screen.Alike scene.origin firstMachine.screen secondMachine.screen := by
  cases lockstep with
  | ends ends => exact ends.alike
  | step sees => exact sees.alike

/-- Two sessions have got on in lockstep. -/
structure Reached (scene : Scene)
    (first second : Session)
    (taken : Nat)
    (firstLater secondLater : Session) : Prop where
  firstRan : first.runFor taken = .running firstLater
  secondRan : second.runFor taken = .running secondLater
  unlimited : firstLater.limit = none ∧ secondLater.limit = none
  between : ∀ earlier < taken, ∃ firstBetween secondBetween,
    first.runFor earlier = .running firstBetween ∧
      second.runFor earlier = .running secondBetween ∧
      scene.Sees firstBetween.machine secondBetween.machine

theorem Reached.step {firstNext secondNext firstLater secondLater : Session}
    (sees : scene.Sees first.machine second.machine)
    (firstStep : first.step = .running firstNext)
    (secondStep : second.step = .running secondNext)
    (reached : scene.Reached firstNext secondNext taken firstLater
      secondLater) :
    scene.Reached first second (taken + 1) firstLater secondLater := by
  refine ⟨?_, ?_, reached.unlimited, ?_⟩
  · rw [Session.runFor, firstStep]
    exact reached.firstRan
  · rw [Session.runFor, secondStep]
    exact reached.secondRan
  · intro earlier isEarlier
    cases earlier with
    | zero => exact ⟨first, second, rfl, rfl, sees⟩
    | succ earlier =>
      obtain ⟨firstBetween, secondBetween, firstRan, secondRan, seen⟩ :=
        reached.between earlier (Nat.lt_of_succ_lt_succ isEarlier)
      refine ⟨firstBetween, secondBetween, ?_, ?_, seen⟩
      · rw [Session.runFor, firstStep]
        exact firstRan
      · rw [Session.runFor, secondStep]
        exact secondRan

/-- Sessions of machines in lockstep get on until these end together. -/
theorem Lockstep.reached
    (lockstep : scene.Lockstep (count + 1) first.machine second.machine)
    (unlimited : first.limit = none ∧ second.limit = none)
    (stays : scene.origin.1.closeAfter = none ∧
      scene.origin.2.closeAfter = none) :
    ∃ taken ≤ count, ∃ firstLater secondLater,
      scene.Reached first second taken firstLater secondLater ∧
        (taken = count ∧ scene.Sees firstLater.machine secondLater.machine ∨
          scene.Ends firstLater.machine secondLater.machine) := by
  induction count generalizing first second with
  | zero =>
    refine ⟨0, Nat.le_refl _, first, second, ⟨rfl, rfl, unlimited, nofun⟩, ?_⟩
    cases lockstep with
    | ends ends => exact .inr ends
    | step sees => exact .inl ⟨rfl, sees⟩
  | succ count induction =>
    cases lockstep with
    | ends ends =>
      exact ⟨0, Nat.zero_le _, first, second, ⟨rfl, rfl, unlimited, nofun⟩,
        .inr ends⟩
    | @step _ _ _ firstNext secondNext sees firstContinues
        secondContinues rest =>
      have firstStep := Session.step_of_continues firstContinues unlimited.1
        (rest.alike.closing.1.trans stays.1)
      have secondStep := Session.step_of_continues secondContinues unlimited.2
        (rest.alike.closing.2.trans stays.2)
      have goesOn : scene.Lockstep (count + 1) (first.counted firstNext).machine
          (second.counted secondNext).machine := rest
      obtain ⟨taken, bound, firstLater, secondLater, reached, ended⟩ :=
        induction goesOn unlimited
      refine ⟨taken + 1, Nat.succ_le_succ bound, firstLater, secondLater,
        reached.step sees firstStep secondStep, ?_⟩
      rcases ended with ⟨isCount, seen⟩ | ends
      · exact .inl ⟨congrArg Nat.succ isCount, seen⟩
      · exact .inr ends

end Scene

/-! ## The execution of a call -/

namespace Session

/-- The position of the function about to be called, and its arguments. -/
def call? (session : Session) :
    Option (Address × List (Address × List Value)) := do
  let site ← session.machine.code[session.machine.position]?
  let frame ← session.machine.pending.head?
  if site.operation = .call then some (site.left, frame.staged) else none

/-- The session has got on and not returned to `depth` frames on the way. -/
structure StaysAbove (session : Session) (depth taken : Nat) (later : Session) :
    Prop where
  ran : session.runFor taken = .running later
  inside : ∀ earlier < taken, ∀ between,
    session.runFor earlier = .running between → ¬ between.ReturnsTo depth

/-- The next instruction is a return to `depth` frames with `values`. -/
def HandsBack (session : Session)
    (depth : Nat)
    (values : Option (List Value))
    (left : Machine) : Prop :=
  ∃ exit outcome, session.Executes exit outcome left ∧ exit.operation = .ret ∧
    left.frames.length = depth ∧
    Exec.handedBack session.machine.memory exit.result = .ok values

theorem HandsBack.returnsTo {session : Session} {values : Option (List Value)}
    {left : Machine}
    (hands : session.HandsBack depth values left) :
    session.ReturnsTo depth := by
  obtain ⟨exit, outcome, executes, isReturn, back, _⟩ := hands
  exact ⟨exit, outcome, left, executes, isReturn, back⟩

/-- Two calls end alike. -/
inductive EndAlike (depths : Nat × Nat) (first second : Session) : Prop where
  | returned {values : Option (List Value)} {firstLeft secondLeft : Machine}
      (firstHands : first.HandsBack depths.1 values firstLeft)
      (secondHands : second.HandsBack depths.2 values secondLeft)
      (globals : firstLeft.memory.globals = secondLeft.memory.globals)
  | failed {fault : Fault}
      (firstFails : first.step =
        .stopped (first.counted first.machine) (some fault))
      (secondFails : second.step =
        .stopped (second.counted second.machine) (some fault))

/--
Two sessions execute the calls that they are about to make alike.  After any
number of steps, neither has returned from its call, they have written and
drawn the same and hold the same global variables, unless the calls have ended
before, alike and after the same number of steps.
-/
def CallAlike (first second : Session) : Prop :=
  ∀ steps, ∃ taken ≤ steps, ∃ firstLater secondLater,
    first.StaysAbove first.machine.frames.length taken firstLater ∧
    second.StaysAbove second.machine.frames.length taken secondLater ∧
    Screen.Alike (first.machine.screen, second.machine.screen)
      firstLater.machine.screen secondLater.machine.screen ∧
    firstLater.machine.memory.globals = secondLater.machine.memory.globals ∧
    (taken = steps ∨
      EndAlike (first.machine.frames.length, second.machine.frames.length)
      firstLater secondLater)

variable {first second : Session} {values : Option (List Value)}
  {left : Machine}

/-- Of two calls executed alike, both return the same after equal steps. -/
theorem CallAlike.handsBack (alike : first.CallAlike second)
    (stays : first.StaysAbove first.machine.frames.length taken later)
    (hands : later.HandsBack first.machine.frames.length values left) :
    ∃ other otherLeft,
      second.StaysAbove second.machine.frames.length taken other ∧
      other.HandsBack second.machine.frames.length values otherLeft := by
  obtain ⟨reached, _, firstLater, secondLater, firstStays, secondStays,
      _, _, ended⟩ :=
    alike (taken + 1)
  have notLater : ¬ taken < reached := fun isLater =>
    firstStays.inside taken isLater later stays.ran hands.returnsTo
  have endAlike : EndAlike (first.machine.frames.length,
      second.machine.frames.length) firstLater secondLater :=
      ended.resolve_left (by omega)
  have sameTime : reached = taken := by
    refine Nat.le_antisymm (Nat.not_lt.mp notLater)
      (Nat.not_lt.mp fun isEarlier => ?_)
    cases endAlike with
    | returned firstHands =>
      exact stays.inside reached isEarlier firstLater firstStays.ran
        firstHands.returnsTo
    | failed firstFails =>
      obtain ⟨_, rfl⟩ := Nat.exists_eq_add_of_lt isEarlier
      have goesOn := stays.ran
      rw [Nat.add_assoc, runFor_add, firstStays.ran] at goesOn
      simp only [runFor, firstFails] at goesOn
      cases goesOn
  subst sameTime
  have sameLater := firstStays.ran.symm.trans stays.ran
  cases sameLater
  obtain ⟨_, outcome, executes, _, _, handed⟩ := hands
  cases endAlike with
  | returned firstHands secondHands =>
    obtain ⟨other, _, otherExecutes, _, _, otherHanded⟩ := firstHands
    obtain ⟨rfl, _, _⟩ := executes.unique otherExecutes
    rw [handed] at otherHanded
    cases otherHanded
    exact ⟨secondLater, _, secondStays, secondHands⟩
  | failed firstFails =>
    have noFault := follow_fault? (later.counted left) outcome
    rw [← executes.step_eq, firstFails] at noFault
    cases noFault

end Session

/-- A return leaves one frame less. -/
theorem Exec.frames_of_return {machine left : Machine}
    (isReturn : exit.operation = .ret)
    (ran : execute exit machine = .ok outcome left) :
    left.frames.length + 1 = machine.frames.length := by
  rw [execute_ret isReturn] at ran
  rcases leave_ok ran with ⟨_, frames, _, rfl⟩ |
    ⟨_, _, _, _, _, _, _, frames, _, _, _, _, _, rfl⟩
  · rw [frames]
    rfl
  · rw [frames]
    rfl

/-- What a function returns is not stored in a global variable. -/
theorem Exec.globals_of_handOver {type : Ty} {result : Address}
    {values : Option (List Value)} {memory left : Memory}
    (receives : Receives type result)
    (ran : handOver result values memory = .ok () left) :
    left.globals = memory.globals := by
  cases values with
  | none =>
    cases ran
    rfl
  | some values =>
    by_cases absent : result = .unused
    · rw [handOver, if_pos absent] at ran
      cases ran
      rfl
    · rw [handOver, if_neg absent] at ran
      obtain ⟨_, place, inTemp⟩ :=
        (receives.resolve_left fun isAbsent => absent isAbsent.2).2
      change left.bank .global = memory.bank .global
      refine Memory.bank_writeBlock_elsewhere ran ?_
      intro slot found isLater located same
      have order := region_index_le place.located located isLater
      rw [inTemp, ← same] at order
      cases order

namespace Scene

/-- Machines in lockstep have not returned from the compared function. -/
theorem Sees.inside {scene : Scene} {first second : Session}
    {firstDepth secondDepth : Nat}
    (sees : scene.Sees first.machine second.machine)
    (firstBase : scene.base.1.length = firstDepth + 1)
    (secondBase : scene.base.2.length = secondDepth + 1) :
    ¬ first.ReturnsTo firstDepth ∧ ¬ second.ReturnsTo secondDepth := by
  constructor
  · rintro ⟨exit, outcome, left, executes, isReturn, back⟩
    have deeper := (sees.deeper exit executes.fetched isReturn).1
    have dropped := Exec.frames_of_return isReturn executes.ran
    omega
  · rintro ⟨exit, outcome, left, executes, isReturn, back⟩
    have deeper :=
      (sees.deeper exit (sees.together.trans executes.fetched) isReturn).2
    have dropped := Exec.frames_of_return isReturn executes.ran
    omega

end Scene

/-! ## Two calls of a function -/

/-- A session of a program that nothing stops from outside gets to a state. -/
def Executable.Reaches (executable : Executable) (session : Session) : Prop :=
  ∃ screen machine fuel, screen.closeAfter = none ∧
    Machine.load executable screen = .ok machine ∧
    ({ machine } : Session).runFor fuel = .running session

/-- A session is about to enter a function. -/
structure Session.Enters (session : Session)
    (image : Image)
    (routine : Routine)
    (start : Nat)
    (result : Address)
    (activation : Activation)
    (frame : Frame) : Prop where
  fetched : session.machine.code[session.machine.position]? =
    some ⟨.call, (start : Int), .unused, result⟩
  receives : Receives routine.returns result
  carries : frame.Carries routine.parameters
  runs : session.machine.Runs image (activation.announce frame)
  unlimited : session.limit = none
  stays : session.machine.screen.closeAfter = none

section

variable {program : Program} {entry : String} {image : Image}
  {functions : Table Routine}
variable {globals : Table Variable} {executable : Executable}
  {session first second : Session}

/-- A session keeps its limit and its code. -/
theorem Session.kept_of_runFor {fuel : Nat}
    (goesOn : session.runFor fuel = .running later) :
    later.limit = session.limit ∧
      later.machine.code = session.machine.code := by
  refine runFor_invariant
    (fun later => later.limit = session.limit ∧
      later.machine.code = session.machine.code) ?_
    ⟨rfl, rfl⟩ goesOn
  rintro before next ⟨sameLimit, sameCode⟩ stepped
  obtain ⟨_, _, _, _, executes, _, rfl⟩ := step_running stepped
  exact ⟨sameLimit, (Exec.code_of_execute executes.ran).1.trans sameCode⟩

section

variable (linked : Linked program entry image functions globals)
  (sameCode : image.code = executable.code)
  (sameConstants : image.constants = executable.constants)
  (reaches : executable.Reaches session)
include linked sameCode sameConstants reaches

/-- Wherever a session of a linked program gets, its machine is sound. -/
theorem Linked.sound_of_reaches :
    session.limit = none ∧ ∃ screen : Screen, screen.closeAfter = none ∧
      (Scene.solo image functions globals screen).Sound session.machine := by
  obtain ⟨screen, _, _, stays, loaded, ran⟩ := reaches
  exact ⟨(Session.kept_of_runFor ran).1, screen, stays,
    Session.sound_of_runFor (linked.sound sameCode sameConstants loaded) ran⟩

/-- A session of a linked program that makes a call enters a function. -/
theorem Linked.enters {position : Address}
    {arguments : List (Address × List Value)}
    (calls : session.call? = some (position, arguments))
    (located : image.entryOf name = some position) :
    ∃ (routine : Routine) (start : Nat) (result : Address)
      (activation : Activation) (frame : Frame),
      functions.find? name = some routine ∧ position = (start : Int) ∧
      frame.staged = arguments ∧
      session.Enters image routine start result activation frame := by
  obtain ⟨unlimited, _, stays, sound⟩ :=
    linked.sound_of_reaches sameCode sameConstants reaches
  simp only [Session.call?, bind, Option.bind_eq_some_iff,
    Option.ite_none_right_eq_some, Option.some.injEq, Prod.mk.injEq] at calls
  obtain ⟨site, fetched, _, isWaiting, isCall, rfl, rfl⟩ := calls
  have sees := sound.sees fetched isCall
  obtain ⟨other, routine, start, result, activation, frame, found,
    otherLocated, otherFetched, receives, carries, runs⟩ :=
    (sees.enters site fetched isCall).1
  rw [fetched] at otherFetched
  cases otherFetched
  have sameName : name = other := linked.apart name other _ located otherLocated
  subst sameName
  rw [runs.pending] at isWaiting
  cases isWaiting
  exact ⟨routine, start, result, activation, _, found, rfl, rfl, fetched,
    receives, carries, runs, unlimited, sees.alike.closing.1.trans stays⟩

end

section

variable {routine : Routine} {start : Nat} {result otherResult : Address}
variable {activation otherActivation : Activation} {frame otherFrame : Frame}

theorem Session.Enters.step_eq
    (enters : session.Enters image routine start result activation frame)
    (deliverable : Deliverable frame.staged) :
    session.step = .running (session.counted
      ((Scene.entering session.machine activation frame).arrived start)) :=
  step_of_continues ⟨_, _, _, start, enters.fetched,
    Scene.execute_enter enters.runs deliverable, rfl,
    rfl⟩ enters.unlimited enters.stays

/-- The slots that are not private to an invocation of a function. -/
def Slots.shared : Slots := fun address =>
  ∃ location, locate? address = some location ∧
    location.region.isPrivate = false

/-- Memories with the same global variables agree on all that is shared. -/
theorem Memory.Intact.agrees {constants : List Constant} {memory other : Memory}
    (intact : memory.Intact constants)
    (otherIntact : other.Intact constants)
    (sameGlobals : memory.globals = other.globals) :
    Memory.Agrees .shared memory other := by
  have shared : ∀ region, region.isPrivate = false →
      memory.bank region = other.bank region := by
    intro region isShared
    cases region with
    | «global» => exact sameGlobals
    | constant => exact (intact.keeps.same otherIntact.keeps).1
    | scope => exact (intact.keeps.same otherIntact.keeps).2
    | «local» => cases isShared
    | temp => cases isShared
  refine ⟨shared, ?_⟩
  rintro address found ⟨location, located, isShared⟩ foundAt
  rw [located] at foundAt
  cases foundAt
  rw [shared _ isShared]

/-- Two calls of a settled function with the same arguments are in lockstep. -/
theorem Scene.lockstep_of_enters {scene : Scene} {names : List String}
    (linked : Linked program entry scene.image scene.functions scene.globals)
    (isSettled : scene.settled = some names)
    (settled : program.settled names = true)
    (calleeSettled : ∀ function ∈ program.functions, function.name = name →
      function.settled names = true)
    (found : scene.functions.find? name = some routine)
    (located : scene.image.entryOf name = some (start : Int))
    (firstEnters : first.Enters scene.image routine start result
      activation frame)
    (secondEnters : second.Enters scene.image routine start otherResult
      otherActivation otherFrame)
    (sameStaged : otherFrame.staged = frame.staged)
    (sameGlobals : first.machine.memory.globals = second.machine.memory.globals)
    (sameHeld : first.machine.screen.held = second.machine.screen.held)
    (origin : scene.origin = (first.machine.screen, second.machine.screen))
    (base : scene.base =
      ((invoked first.machine activation frame
      firstEnters.carries.unsaved).frames,
      (invoked second.machine otherActivation otherFrame
      secondEnters.carries.unsaved).frames))
    (count : Nat) :
    scene.Lockstep count
      ((entering first.machine activation frame).arrived start)
      ((entering second.machine otherActivation otherFrame).arrived start) := by
  obtain ⟨function, member, rfl, _, laid⟩ := linked.routines name routine found
  have sameStart := laid.located.symm.trans located
  simp only [Option.some.injEq, Int.natCast_inj] at sameStart
  subst sameStart
  obtain ⟨single, fits⟩ := laid.arranged.signatures _ routine found
  have deliverable := firstEnters.carries.deliverable fun type member =>
    (fits type member).toDeclarable
  have wide : scene.Wide
      (Slots.shared.union (Memory.stagedSlots frame.staged)) := by
    constructor
    · intro isNone
      rw [isSettled] at isNone
      cases isNone
    · exact fun address location isLocated isShared =>
        .inl ⟨location, isLocated, isShared⟩
  have alike : Screen.Alike scene.origin first.machine.screen
      second.machine.screen := by
    rw [origin]
    exact ⟨⟨#[], by simp, by simp⟩, ⟨#[], by simp, by simp⟩, sameHeld, rfl, rfl⟩
  have matched := matched_entering firstEnters.runs secondEnters.runs
    (firstEnters.runs.intact.agrees secondEnters.runs.intact sameGlobals) alike
    firstEnters.carries.unsaved secondEnters.carries.unsaved
    sameStaged deliverable
  have returning : scene.Returning count
      (invoked first.machine activation frame firstEnters.carries.unsaved,
        invoked second.machine otherActivation otherFrame
        secondEnters.carries.unsaved)
      routine.returns false :=
    returning_at_base single (congrArg Prod.fst base).symm
      (congrArg Prod.snd base).symm
  have same : ∀ others, scene.settled = some others → others = names := by
    intro others isOther
    rw [isSettled] at isOther
    cases isOther
    rfl
  refine Onward.lockstep ?_ (matched.arrived _)
  refine onward_of_laid linked found laid ?_ ?_
    (fun fewer _ => callsOnward linked ?_ fewer) firstEnters.carries
    (Slots.within_right _ _) wide ?_ returning
  · intro others isOther
    rw [same others isOther]
    exact calleeSettled function member rfl
  · exact nofun
  · intro others isOther
    rw [same others isOther]
    exact settled
  · constructor
    · exact Nat.le_of_eq (by rw [base])
    · exact Nat.le_of_eq (by rw [base])

section

variable (enters : session.Enters image routine start result activation frame)
include enters

/-- When a function returns the global variables stay as they are. -/
theorem Session.Enters.globals_of_return {machine left : Machine}
    (sameCode : machine.code = image.code)
    (frames : machine.frames =
      (Scene.invoked session.machine activation frame
      enters.carries.unsaved).frames)
    (isReturn : exit.operation = .ret)
    (ran : Exec.execute exit machine = .ok outcome left) :
    left.memory.globals = machine.memory.globals := by
  rw [Exec.execute_ret isReturn] at ran
  rcases Exec.leave_ok ran with ⟨_, alone, _⟩ |
    ⟨callee, caller, outer, saved, site, values, memory, stack, _, found, _,
      wrote, _, rfl⟩
  · rw [frames] at alone
    cases alone
  · rw [frames] at stack
    cases stack
    have sameSite := enters.fetched
    rw [enters.runs.code, ← sameCode] at sameSite
    change machine.code[session.machine.position]? = some site at found
    rw [found] at sameSite
    cases sameSite
    change memory.globals = (machine.memory.restore saved).globals
    exact Exec.globals_of_handOver enters.receives wrote

/-- A session that comes to the end of its call returns. -/
theorem Session.Enters.handsBack {scene : Scene} {address : Address}
    {values : Option (List Value)}
    (sound : scene.Sound session.machine)
    (ran : session.runFor taken = .running later)
    (frames : later.machine.frames =
      (Scene.invoked session.machine activation frame
      enters.carries.unsaved).frames)
    (fetched : later.machine.code[later.machine.position]? =
      some ⟨.ret, .unused, .unused, address⟩)
    (handed : Exec.handedBack later.machine.memory address = .ok values) :
    ∃ left, later.HandsBack session.machine.frames.length values left ∧
      left.memory.globals = later.machine.memory.globals := by
  obtain ⟨sameLimit, sameCode⟩ := kept_of_runFor ran
  obtain ⟨outcome, left, returned⟩ :=
    (sound_of_runFor sound ran).returns fetched rfl
  have allowed : later.exhausted? = none := by
    rw [exhausted?, sameLimit, enters.unlimited]
  have dropped := Exec.frames_of_return rfl returned
  rw [frames] at dropped
  refine ⟨left, ⟨_, outcome, ⟨fetched, allowed, returned⟩, rfl, ?_, handed⟩,
    enters.globals_of_return (sameCode.trans enters.runs.code)
    frames rfl returned⟩
  rw [enters.runs.frames]
  exact Nat.succ_inj.mp dropped

theorem Session.Enters.staysAbove {next : Session}
    (stepped : session.step = .running next)
    (ran : next.runFor taken = .running later)
    (inside : ∀ earlier < taken, ∀ between,
      next.runFor earlier = .running between → ¬ between.ReturnsTo depth) :
    session.StaysAbove depth (taken + 1) later := by
  constructor
  · rw [runFor, stepped]
    exact ran
  · intro earlier isEarlier between reached
    cases earlier with
    | zero =>
      cases reached
      rintro ⟨_, _, _, executes, isReturn, _⟩
      have same := enters.fetched.symm.trans executes.fetched
      cases same
      cases isReturn
    | succ earlier =>
      rw [runFor, stepped] at reached
      exact inside earlier (Nat.lt_of_succ_lt_succ isEarlier) between reached

end

theorem Session.step_of_fails {fault : Fault}
    (fails : session.machine.Fails fault)
    (unlimited : session.limit = none) :
    session.step = .stopped (session.counted session.machine) (some fault) := by
  obtain ⟨_, fetched, _, _, ran⟩ := fails
  have allowed : session.exhausted? = none := by
    rw [exhausted?, unlimited]
  simp only [step, fetched, allowed, ran, counted]

/-- Two sessions in lockstep inside a function execute their calls alike. -/
theorem Session.callAlike_of_lockstep {scene : Scene}
    {firstScene secondScene : Scene}
    (firstEnters : first.Enters image routine start result activation frame)
    (secondEnters : second.Enters image routine start otherResult
      otherActivation otherFrame)
    (firstSound : firstScene.Sound first.machine)
    (secondSound : secondScene.Sound second.machine)
    (firstDelivers : Deliverable frame.staged)
    (secondDelivers : Deliverable otherFrame.staged)
    (sameGlobals : first.machine.memory.globals = second.machine.memory.globals)
    (sameHeld : first.machine.screen.held = second.machine.screen.held)
    (origin : scene.origin = (first.machine.screen, second.machine.screen))
    (base : scene.base =
      ((Scene.invoked first.machine activation frame
      firstEnters.carries.unsaved).frames,
      (Scene.invoked second.machine otherActivation otherFrame
      secondEnters.carries.unsaved).frames))
    (lockstep : ∀ count,
      scene.Lockstep count
      ((Scene.entering first.machine activation frame).arrived start)
      ((Scene.entering second.machine otherActivation otherFrame).arrived
      start)) :
    first.CallAlike second := by
  intro steps
  cases steps with
  | zero =>
    exact ⟨0, Nat.le_refl _, first, second, ⟨rfl, nofun⟩, ⟨rfl, nofun⟩,
      ⟨⟨#[], by simp, by simp⟩, ⟨#[], by simp, by simp⟩, sameHeld, rfl, rfl⟩,
      sameGlobals, .inl rfl⟩
  | succ steps =>
    have firstStep := firstEnters.step_eq firstDelivers
    have secondStep := secondEnters.step_eq secondDelivers
    have firstBase : scene.base.1.length = first.machine.frames.length + 1 := by
      rw [base, firstEnters.runs.frames]
      rfl
    have secondBase : scene.base.2.length =
        second.machine.frames.length + 1 := by
      rw [base, secondEnters.runs.frames]
      rfl
    have stays : scene.origin.1.closeAfter = none ∧
        scene.origin.2.closeAfter = none := by
      rw [origin]
      exact ⟨firstEnters.stays, secondEnters.stays⟩
    have inside : scene.Lockstep (steps + 1)
        (first.counted ((Scene.entering first.machine activation frame).arrived
          start)).machine
        (second.counted
          ((Scene.entering second.machine otherActivation otherFrame).arrived
            start)).machine :=
      lockstep (steps + 1)
    obtain ⟨taken, bound, firstLater, secondLater, reached, ended⟩ :=
      inside.reached ⟨firstEnters.unlimited, secondEnters.unlimited⟩ stays
    have firstStays : first.StaysAbove first.machine.frames.length (taken + 1)
        firstLater := by
      refine firstEnters.staysAbove firstStep reached.firstRan ?_
      intro earlier isEarlier between ran
      obtain ⟨_, _, firstRan, _, sees⟩ := reached.between earlier isEarlier
      cases firstRan.symm.trans ran
      exact (sees.inside firstBase secondBase).1
    have secondStays :
        second.StaysAbove second.machine.frames.length (taken + 1)
        secondLater := by
      refine secondEnters.staysAbove secondStep reached.secondRan ?_
      intro earlier isEarlier between ran
      obtain ⟨_, _, _, secondRan, sees⟩ := reached.between earlier isEarlier
      cases secondRan.symm.trans ran
      exact (sees.inside firstBase secondBase).2
    refine ⟨taken + 1, Nat.succ_le_succ bound, firstLater,
      secondLater, firstStays, secondStays, ?_⟩
    rw [← origin]
    rcases ended with ⟨rfl, sees⟩ | ends
    · exact ⟨sees.alike, sees.globals, .inl rfl⟩
    · refine ⟨ends.alike, ends.globals, .inr ?_⟩
      cases ends with
      | fault _ firstFails secondFails =>
        exact .failed (step_of_fails firstFails reached.unlimited.1)
          (step_of_fails secondFails reached.unlimited.2)
      | returns firstReturns secondReturns frames firstHands
          secondHands _ globals =>
        rw [base] at frames
        obtain ⟨_, firstBack, firstKept⟩ :=
          firstEnters.handsBack firstSound firstStays.ran frames.1
            firstReturns firstHands
        obtain ⟨_, secondBack, secondKept⟩ :=
          secondEnters.handsBack secondSound secondStays.ran
            frames.2 secondReturns secondHands
        exact .returned firstBack secondBack
          (firstKept.trans (globals.trans secondKept.symm))

end

end

/--
Two sessions of a compiled program, which nothing stops from outside, are
about to call the same function with the same arguments, global variables and
keys.  Their local and temporary slots may differ.
-/
structure Session.SameCalls (source entry name : String)
    (program : Program)
    (first second : Session) : Prop where
  parsed : Program.parse source = .ok program
  listsFit : program.ListsFit
  reached : ∃ executable, compile source entry = .ok executable ∧
    executable.Reaches first ∧ executable.Reaches second
  called : ∃ position arguments,
    program.positionOf? entry name = some position ∧
    first.call? = some (position, arguments) ∧
    second.call? = some (position, arguments)
  globals : first.machine.memory.globals = second.machine.memory.globals
  held : first.machine.screen.held = second.machine.screen.held

/--
A call of a settled function does not depend on what its caller left in
storage.  If the function and all that it calls are settled, two calls of it
with the same arguments, global variables and keys write and draw the same,
leave the same global variables, and return the same or fail with the same
fault.
-/
theorem Session.callAlike_of_settled {source entry name : String}
    {program : Program} {names : List String} {first second : Session}
    (calls : SameCalls source entry name program first second)
    (settled : program.settled names = true)
    (calleeSettled : ∀ function ∈ program.functions, function.name = name →
      function.settled names = true) :
    first.CallAlike second := by
  obtain ⟨_, compiled, firstReached, secondReached⟩ := calls.reached
  obtain ⟨position, _, located, firstCalls, secondCalls⟩ := calls.called
  rw [compile, calls.parsed] at compiled
  obtain ⟨image, functions, globals, sameCode, sameConstants,
      positions, linked⟩ :=
    linked_of_compile (Program.declarable_of_parse calls.parsed)
      calls.listsFit compiled
  have entryOf : image.entryOf name = some position :=
    (positions name).trans located
  obtain ⟨routine, start, _, activation, frame, found, rfl, staged,
      firstEnters⟩ :=
    linked.enters sameCode sameConstants firstReached firstCalls entryOf
  obtain ⟨_, _, _, otherActivation, otherFrame, otherFound,
    sameStart, otherStaged, secondEnters⟩ :=
    linked.enters sameCode sameConstants secondReached secondCalls entryOf
  rw [found] at otherFound
  cases otherFound
  cases Int.natCast_inj.mp sameStart
  obtain ⟨_, _, _, firstSound⟩ :=
    linked.sound_of_reaches sameCode sameConstants firstReached
  obtain ⟨_, _, _, secondSound⟩ :=
    linked.sound_of_reaches sameCode sameConstants secondReached
  obtain ⟨function, _, rfl, _, laid⟩ := linked.routines name routine found
  have declarable : ∀ type ∈ routine.parameters, type.Declarable :=
      fun type member =>
    ((laid.arranged.signatures _ routine found).2 type member).toDeclarable
  let scene : Scene :=
    { image, functions, globals
      settled := some names
      origin := (first.machine.screen, second.machine.screen)
      base := ((Scene.invoked first.machine activation frame
        firstEnters.carries.unsaved).frames,
        (Scene.invoked second.machine otherActivation otherFrame
          secondEnters.carries.unsaved).frames) }
  have lockstep : ∀ count, scene.Lockstep count
      ((Scene.entering first.machine activation frame).arrived start)
      ((Scene.entering second.machine otherActivation otherFrame).arrived
        start) :=
    Scene.lockstep_of_enters linked rfl settled calleeSettled found
      entryOf firstEnters secondEnters (otherStaged.trans staged.symm)
      calls.globals calls.held rfl rfl
  exact callAlike_of_lockstep firstEnters secondEnters firstSound secondSound
    (firstEnters.carries.deliverable declarable)
    (secondEnters.carries.deliverable declarable) calls.globals calls.held
    rfl rfl lockstep

/-! ## Two programs -/

/-- The states of a program without global variables at two calls. -/
def Session.callsAfter? (source entry name : String) (steps : Nat × Nat) :
    Option (Program × Session × Session) := do
  let program ← (Program.parse source).toOption
  let executable ← (program.compile entry).toOption
  let machine ← (Machine.load executable {}).toOption
  let position ← program.positionOf? entry name
  let first := ({ machine } : Session).runFor steps.1
  let second := ({ machine } : Session).runFor steps.2
  let (called, _) ← first.session.call?
  if program.ListsFit ∧ first.goesOn ∧ second.goesOn ∧ called = position ∧
      second.session.call? = first.session.call? ∧
      first.session.machine.memory.globals.isEmpty ∧
      second.session.machine.memory.globals.isEmpty ∧
      first.session.machine.screen.held =
        second.session.machine.screen.held then
    some (program, first.session, second.session)
  else none

theorem Session.sameCalls_of_callsAfter? {source entry : String}
    {steps : Nat × Nat} {program : Program} {first second : Session}
    (found : callsAfter? source entry name steps =
      some (program, first, second)) :
    SameCalls source entry name program first second := by
  simp only [callsAfter?, bind, Option.bind_eq_some_iff, toOption_eq_some,
    Option.ite_none_right_eq_some, Option.some.injEq, Prod.mk.injEq] at found
  obtain ⟨_, parsed, executable, generated, machine, loaded, _, located,
    ⟨called, arguments⟩, calls, ⟨listsFit, firstGoes, secondGoes, same,
      otherCalls, firstEmpty,
    secondEmpty, held⟩, rfl, rfl, rfl⟩ := found
  have compiled : compile source entry = .ok executable := by
    rw [compile, parsed]
    exact generated
  dsimp only at same
  subst same
  refine ⟨parsed, listsFit, ⟨executable, compiled,
    ⟨{}, machine, _, rfl, loaded, Progress.eq_running firstGoes⟩,
    ⟨{}, machine, _, rfl, loaded, Progress.eq_running secondGoes⟩⟩,
    ⟨called, arguments, located, calls, otherCalls.trans calls⟩, ?_, held⟩
  rw [Std.ExtTreeMap.isEmpty_iff.mp firstEmpty,
    Std.ExtTreeMap.isEmpty_iff.mp secondEmpty]

/-- A recursive function, called twice by one that has changed in between. -/
def factorials : String :=
  "program p;func int f(int n)\x7bif(n<1)\x7breturn 1;\x7dreturn n*f(n-1);\x7d" ++
    "func void main()\x7bvar int y;y=7;write f(2);y=8;write f(2);\x7d"

theorem Session.callAlike_of_settled_factorials :
    ∃ program first second,
      SameCalls factorials "main" "f" program first second ∧
      program.settled ["f"] = true ∧
      first.machine.memory.read 13000 = .ok (.int 7) ∧
      second.machine.memory.read 13000 = .ok (.int 8) ∧
      first.CallAlike second := by
  have evaluated : (do
      let (program, first, second) ← callsAfter? factorials "main" "f" (5, 29)
      some (program.settled ["f"], program.functions.all (·.settled ["f"]),
        (first.machine.memory.read 13000).toOption,
        (second.machine.memory.read 13000).toOption)) =
        some (true, true, some (.int 7), some (.int 8)) := by
    decide +kernel
  simp only [bind, Option.bind_eq_some_iff, toOption_eq_some, Option.some.injEq,
    Prod.mk.injEq, Prod.exists, List.all_eq_true] at evaluated
  obtain ⟨program, first, second, found, settled, callees, firstReads,
    secondReads⟩ := evaluated
  have calls := sameCalls_of_callsAfter? found
  exact ⟨program, first, second, calls, settled, firstReads, secondReads,
    callAlike_of_settled calls settled fun function member _ =>
    callees function member⟩

/-- A function that uses a variable before declaring it, and its caller. -/
def leftover : String :=
  "program p;func int f()\x7bif(false)\x7bvar int x;\x7dreturn x;\x7d" ++
    "func void main()\x7bvar int y;y=7;write f();y=8;write f();\x7d"

/-- What a return would give back. -/
def Session.returned? (session : Session) : Option (Option (List Value)) := do
  let exit ← session.machine.code[session.machine.position]?
  (Exec.handedBack session.machine.memory exit.result).toOption

theorem Session.HandsBack.returned?_eq {session : Session}
    {values : Option (List Value)} {left : Machine}
    (hands : session.HandsBack depth values left) :
    session.returned? = some values := by
  obtain ⟨_, _, executes, _, _, handed⟩ := hands
  simp [returned?, executes.fetched, handed, Except.toOption]

theorem Session.handsBack_of_returned? {session : Session}
    {values : Option (List Value)}
    (returns : session.ReturnsTo depth)
    (returned : session.returned? = some values) :
    ∃ left, session.HandsBack depth values left := by
  obtain ⟨exit, outcome, left, executes, isReturn, back⟩ := returns
  refine ⟨left, exit, outcome, executes, isReturn, back, ?_⟩
  simpa [returned?, executes.fetched, toOption_eq_some] using returned

/-- A function that is not settled can return what its caller left. -/
theorem Session.not_callAlike_leftover :
    ∃ program first second, SameCalls leftover "main" "f" program first second ∧
      ¬ first.CallAlike second := by
  have evaluated : (do
      let (_, first, second) ← callsAfter? leftover "main" "f" (4, 10)
      let later := (first.runFor 2).session
      some (decide ((first.runFor 2).goesOn ∧
          (∀ earlier ∈ List.range 2,
            ¬ (first.runFor earlier).session.ReturnsTo
            first.machine.frames.length) ∧
          later.ReturnsTo first.machine.frames.length),
        later.returned?, (second.runFor 2).session.returned?)) =
        some (true, some (some [.int 7]), some (some [.int 8])) := by
    decide +kernel
  simp only [bind, Option.bind_eq_some_iff, Option.some.injEq,
    Prod.mk.injEq, Prod.exists, List.mem_range, decide_eq_true_eq] at evaluated
  obtain ⟨program, first, second, found, ⟨goesOn, inside, returns⟩,
      returned, otherwise⟩ :=
    evaluated
  refine ⟨program, first, second, sameCalls_of_callsAfter? found,
    fun alike => ?_⟩
  have stays : first.StaysAbove first.machine.frames.length 2
      (first.runFor 2).session := by
    refine ⟨Progress.eq_running goesOn,
      fun earlier isEarlier between reached => ?_⟩
    have unreturned := inside earlier isEarlier
    rwa [reached] at unreturned
  obtain ⟨_, hands⟩ := handsBack_of_returned? returns returned
  obtain ⟨_, _, otherStays, otherHands⟩ := alike.handsBack stays hands
  rw [otherStays.ran, Progress.session, otherHands.returned?_eq] at otherwise
  cases otherwise

end Easel
