import Easel.Compile
import Easel.Proofs.Code.Assembly
import Easel.Proofs.Lockstep.Program

/-!
# Compiled programs do not go wrong

A compiled program that has been loaded is in lockstep with itself wherever
it gets.  So the next instruction is always there, it can be executed, or
fails by a division by zero or an index out of bounds, and it ends the program
only if it returns from the function that the program started in.
-/

namespace Easel

variable {fuel : Nat} {executable : Executable} {screen : Screen}

namespace Scene

variable {scene : Scene} {machine next left : Machine} {quad : Quad}
  {fault : Fault}

/-- The machine is in lockstep with itself until the program ends. -/
structure Sound (scene : Scene) (machine : Machine) : Prop where
  root : scene.base.1 = [Machine.rootFrame machine.code]
  lockstep : ∀ count, scene.Lockstep count machine machine

theorem continues_unique {other : Machine}
    (continues : machine.Continues next)
    (otherwise : machine.Continues other) :
    next = other := by
  obtain ⟨_, _, _, _, fetched, ran, leads, rfl⟩ := continues
  obtain ⟨_, _, _, _, otherFetched, otherRan, otherLeads, rfl⟩ := otherwise
  rw [fetched] at otherFetched
  cases otherFetched
  rw [ran] at otherRan
  cases otherRan
  rw [leads] at otherLeads
  cases otherLeads
  rfl

/-- A return from the function of the start halts the machine. -/
theorem execute_root_return {address : Address}
    (root : machine.frames = [Machine.rootFrame machine.code]) :
    Exec.execute ⟨.ret, .unused, .unused, address⟩ machine =
      .ok .halt { machine with frames := [] } := by
  rw [Exec.execute_ret rfl]
  exact Exec.leave_root root

/-- What a machine that is in lockstep with itself does next. -/
inductive Acts (machine : Machine) (quad : Quad) : Prop where
  | fails {fault : Fault} (expected : fault.isExpected = true)
      (ran : Exec.execute quad machine = .error fault machine)
  | halts (isReturn : quad.operation = .ret)
      (root : machine.frames = [Machine.rootFrame machine.code])
      (ran : Exec.execute quad machine =
        .ok .halt { machine with frames := [] })
  | continues {outcome : Outcome} {left : Machine} {position : Nat}
      (ran : Exec.execute quad machine = .ok outcome left)
      (leads : outcome.destination? left.position = some position)

section

variable (sound : scene.Sound machine)
include sound

/-- There is an instruction: it fails, returns at the end, or is done. -/
theorem Sound.fetches :
    ∃ quad, machine.code[machine.position]? = some quad ∧
      ((∃ fault, fault.isExpected = true ∧
        Exec.execute quad machine = .error fault machine ∧
          quad.operation ≠ .call ∧ quad.operation ≠ .ret ∧
            machine.memory.Kinded) ∨
        (Exec.execute quad machine = .ok .halt { machine with frames := [] } ∧
          quad.operation = .ret ∧
            machine.frames = [Machine.rootFrame machine.code]) ∨
        ∃ outcome left position, Exec.execute quad machine = .ok outcome left ∧
          outcome.destination? left.position = some position ∧
            scene.Sees machine machine) := by
  cases sound.lockstep 1 with
  | ends ends =>
    cases ends with
    | fault expected fails _ _ _ intact =>
      obtain ⟨quad, fetched, notCall, notReturn, ran⟩ := fails
      exact ⟨quad, fetched, .inl ⟨_, expected, ran, notCall, notReturn,
        intact.kinded⟩⟩
    | returns fetched _ frames =>
      have root := frames.1.trans sound.root
      exact ⟨_, fetched, .inr (.inl ⟨execute_root_return root, rfl, root⟩)⟩
  | step sees continues =>
    obtain ⟨quad, outcome, left, position, fetched, ran, leads, _⟩ := continues
    exact ⟨quad, fetched,
      .inr (.inr ⟨outcome, left, position, ran, leads, sees⟩)⟩

theorem Sound.acts :
    ∃ quad, machine.code[machine.position]? = some quad ∧
      Acts machine quad := by
  obtain ⟨quad, fetched, ⟨_, expected, ran, _⟩ | ⟨ran, isReturn, root⟩ | ⟨_, _,
      _, ran, leads, _⟩⟩ :=
    sound.fetches
  · exact ⟨quad, fetched, .fails expected ran⟩
  · exact ⟨quad, fetched, .halts isReturn root ran⟩
  · exact ⟨quad, fetched, .continues ran leads⟩

section

variable (fetched : machine.code[machine.position]? = some quad)
include fetched

/-- A sound machine that is about to call is seen to. -/
theorem Sound.sees (isCall : quad.operation = .call) :
    scene.Sees machine machine := by
  obtain ⟨_, found, ⟨_, _, _, notCall, _⟩ | ⟨_, isReturn, _⟩ | ⟨_, _, _,
      _, _, sees⟩⟩ :=
    sound.fetches
  · cases fetched.symm.trans found
    exact (notCall isCall).elim
  · cases fetched.symm.trans found
    cases isCall.symm.trans isReturn
  · exact sees

/-- A sound machine can return where there is a return. -/
theorem Sound.returns (isReturn : quad.operation = .ret) :
    ∃ outcome left, Exec.execute quad machine = .ok outcome left := by
  obtain ⟨_, found, ⟨_, _, _, _, notReturn, _⟩ | ⟨ran, _⟩ | ⟨_, _, _, ran,
    _⟩⟩ := sound.fetches
  · cases fetched.symm.trans found
    exact (notReturn isReturn).elim
  all_goals
    cases fetched.symm.trans found
    exact ⟨_, _, ran⟩

/-- Memory is in order where a sound machine is not at a return. -/
theorem Sound.kinded_at (notReturn : quad.operation ≠ .ret) :
    machine.memory.Kinded := by
  obtain ⟨_, found, ⟨_, _, _, _, _, kinded⟩ | ⟨_, isReturn, _⟩ | ⟨_, _, _,
      _, _, sees⟩⟩ :=
    sound.fetches
  · exact kinded
  · cases fetched.symm.trans found
    exact (notReturn isReturn).elim
  · exact sees.intact.kinded

/-- A machine that is in lockstep with itself has only expected faults. -/
theorem Sound.expected
    (failed : Exec.execute quad machine = .error fault left) :
    fault.isExpected = true := by
  obtain ⟨_, otherFetched, acts⟩ := sound.acts
  rw [fetched] at otherFetched
  cases otherFetched
  cases acts with
  | fails expected ran =>
    rw [ran] at failed
    cases failed
    exact expected
  | halts isReturn root ran =>
    rw [ran] at failed
    cases failed
  | continues ran =>
    rw [ran] at failed
    cases failed

end

/-- Wherever a machine goes that is in lockstep with itself, it still is. -/
theorem Sound.continued (continues : machine.Continues next) :
    scene.Sound next := by
  have same : ∀ other, machine.Continues other → next = other :=
    fun _ => continues_unique continues
  obtain ⟨_, _, _, _, fetched, ran, leads, moved⟩ := continues
  have sameCode : next.code = machine.code := by
    rw [moved]
    exact (Exec.code_of_execute ran).1
  refine ⟨by rw [sameCode]; exact sound.root, fun count => ?_⟩
  cases sound.lockstep (count + 1) with
  | ends ends =>
    cases ends with
    | fault expected fails _ =>
      obtain ⟨_, otherFetched, _, _, failed⟩ := fails
      rw [fetched] at otherFetched
      cases otherFetched
      rw [ran] at failed
      cases failed
    | returns otherFetched _ frames =>
      rw [fetched] at otherFetched
      cases otherFetched
      rw [execute_root_return (frames.1.trans sound.root)] at ran
      cases ran
      cases leads
  | step _ firstContinues secondContinues rest =>
    rw [← same _ firstContinues, ← same _ secondContinues] at rest
    exact rest

end

end Scene

namespace Session

/-- The ways in which a session of a program can stop at an instruction. -/
inductive StopsAt (session : Session) (quad : Quad) :
    Session → Option Fault → Prop where
  /-- The instruction fails. -/
  | fails {fault : Fault} (expected : fault.isExpected = true)
      (ran : Exec.execute quad session.machine = .error fault session.machine) :
      StopsAt session quad (session.counted session.machine) (some fault)
  /-- No more instructions are allowed. -/
  | exhausted {limit : Nat} (isLimit : session.limit = some limit)
      (reached : limit ≤ session.executed) :
      StopsAt session quad session (some (.stepLimit limit))
  /-- The window is closed when the instruction has been executed. -/
  | closed {outcome : Outcome} {left : Machine} {position : Nat}
      (ran : Exec.execute quad session.machine = .ok outcome left)
      (leads : outcome.destination? left.position = some position)
      (closed : left.screen.poll.1 = true) :
      StopsAt session quad (session.counted (left.arrived position)) none
  /-- The function in which the program started returns. -/
  | halts (isReturn : quad.operation = .ret)
      (root : session.machine.frames = [Machine.rootFrame session.machine.code])
      (ran : Exec.execute quad session.machine =
        .ok .halt { session.machine with frames := [] }) :
      StopsAt session quad (session.counted { session.machine with
        frames := [], position := session.machine.code.size }) none

variable {scene : Scene} {session next last : Session} {fault : Option Fault}

theorem sound_of_step (sound : scene.Sound session.machine)
    (stepped : session.step = .running next) :
    scene.Sound next.machine := by
  obtain ⟨quad, outcome, left, position, executes, leads, moved⟩ :=
    step_running stepped
  refine sound.continued ⟨quad, outcome, left, position,
    executes.fetched, executes.ran, leads, ?_⟩
  rw [moved]
  rfl

/-- A sound session stops in one of the expected ways. -/
theorem stopsAt_of_step (sound : scene.Sound session.machine)
    (stepped : session.step = .stopped last fault) :
    ∃ quad, session.machine.code[session.machine.position]? = some quad ∧
      session.StopsAt quad last fault := by
  obtain ⟨quad, fetched, acts⟩ := sound.acts
  refine ⟨quad, fetched, ?_⟩
  simp only [step, fetched] at stepped
  cases exhausted : session.exhausted? with
  | some reason =>
    simp only [exhausted] at stepped
    cases stepped
    unfold exhausted? at exhausted
    split at exhausted
    · rename_i limit isLimit
      split at exhausted
      · rename_i reached
        cases exhausted
        exact .exhausted isLimit reached
      · cases exhausted
    · cases exhausted
  | none =>
    simp only [exhausted] at stepped
    cases acts with
    | fails expected ran =>
      simp only [ran] at stepped
      cases stepped
      exact .fails expected ran
    | halts isReturn root ran =>
      simp only [ran] at stepped
      cases stepped
      exact .halts isReturn root ran
    | @continues outcome left position ran leads =>
      simp only [ran] at stepped
      have followed := (session.counted left).follow_eq leads
      unfold counted at followed
      rw [followed] at stepped
      split at stepped
      · rename_i closed
        cases stepped
        exact .closed ran leads closed
      · cases stepped

theorem sound_of_runFor (sound : scene.Sound session.machine)
    (goesOn : session.runFor fuel = .running last) :
    scene.Sound last.machine :=
  runFor_invariant (fun session => scene.Sound session.machine)
    (fun _ _ still stepped => sound_of_step still stepped) sound goesOn

/-- Where a session has stopped it is sound or has no instruction left. -/
theorem StopsAt.sound {quad : Quad}
    (stops : session.StopsAt quad last fault)
    (sound : scene.Sound session.machine)
    (fetched : session.machine.code[session.machine.position]? = some quad) :
    scene.Sound last.machine ∨
      last.machine.code[last.machine.position]? = none := by
  cases stops with
  | fails => exact .inl sound
  | exhausted => exact .inl sound
  | closed ran leads =>
    exact .inl (sound.continued ⟨quad, _, _, _, fetched, ran, leads, rfl⟩)
  | halts => exact .inr (by simp [counted])

theorem StopsAt.fault_cases {quad : Quad} {fault : Fault}
    (stops : session.StopsAt quad last (some fault)) :
    fault.isExpected = true ∨ ∃ allowed, fault = .stepLimit allowed := by
  cases stops with
  | fails expected => exact .inl expected
  | exhausted => exact .inr ⟨_, rfl⟩

/-- How a sound session stops, and what it has left then. -/
theorem stopsAt_of_runFor (sound : scene.Sound session.machine)
    (ended : session.runFor fuel = .stopped last fault) :
    (∃ earlier before quad, earlier < fuel ∧
      session.runFor earlier = .running before ∧
      before.machine.code[before.machine.position]? = some quad ∧
      before.StopsAt quad last fault) ∧
    (scene.Sound last.machine ∨
      last.machine.code[last.machine.position]? = none) := by
  obtain ⟨earlier, before, isEarlier, reached, stepped⟩ := runFor_stopped ended
  have still := sound_of_runFor sound reached
  obtain ⟨quad, fetched, stops⟩ := stopsAt_of_step still stepped
  exact ⟨⟨earlier, before, quad, isEarlier, reached, fetched, stops⟩,
    stops.sound still fetched⟩

end Session

/-- A linked program that has been loaded is sound. -/
theorem Linked.sound {program : Program} {entry : String} {image : Image}
    {functions : Table Routine} {globals : Table Variable} {machine : Machine}
    (linked : Linked program entry image functions globals)
    (sameCode : image.code = executable.code)
    (sameConstants : image.constants = executable.constants)
    (loaded : Machine.load executable screen = .ok machine) :
    (Scene.solo image functions globals screen).Sound machine := by
  refine ⟨?_, Scene.lockstep_of_load linked sameCode sameConstants loaded⟩
  rw [(linked.loaded sameConstants loaded).1, Scene.solo, sameCode]
  rfl

/-- A compiled program that has been loaded is sound. -/
theorem sound_of_compile {source entry : String} {machine : Machine}
    (compiled : compile source entry = .ok executable)
    (listsFit : ∀ program, Program.parse source = .ok program →
      program.ListsFit)
    (loaded : Machine.load executable screen = .ok machine) :
    ∃ scene : Scene, scene.Sound machine := by
  unfold compile at compiled
  obtain ⟨program, parsed, compiled⟩ := bind_eq_ok.mp compiled
  obtain ⟨_, _, _, sameCode, sameConstants, _, linked⟩ :=
    linked_of_compile (Program.declarable_of_parse parsed)
      (listsFit program parsed) compiled
  exact ⟨_, linked.sound sameCode sameConstants loaded⟩

/--
Compiled programs do not go wrong.  In every state that a session of a
compiled program gets to, also where it has stopped, the next instruction
fails by a division by zero or by an index out of bounds if it fails.  A
session stops at such a fault, at the limit, because the window is closed, or
when the function returns in which the program started.  Without a limit
`Session.run` gives up after `2 ^ 64` instructions.
-/
theorem Session.safe_of_compile
    {source entry : String} {executable : Executable} {screen : Screen}
      {machine : Machine}
    (compiled : compile source entry = .ok executable)
    (listsFit : ∀ program, Program.parse source = .ok program →
      program.ListsFit)
    (loaded : Machine.load executable screen = .ok machine)
    (limit : Option Nat) (fuel : Nat) :
    let session : Session := { machine, limit }
    (∀ quad fault left,
      (session.runFor fuel).session.machine.code[
        (session.runFor fuel).session.machine.position]? = some quad →
      Exec.execute quad (session.runFor fuel).session.machine =
        .error fault left → fault.isExpected = true) ∧
    (∀ last fault, session.runFor fuel = .stopped last fault →
      ∃ earlier before quad, earlier < fuel ∧
      session.runFor earlier = .running before ∧
        before.machine.code[before.machine.position]? = some quad ∧
        before.StopsAt quad last fault) ∧
    ∀ fault, session.run.2 = some fault →
      fault.isExpected = true ∨ ∃ allowed, fault = .stepLimit allowed := by
  obtain ⟨_, sound⟩ := sound_of_compile compiled listsFit loaded
  intro session
  refine ⟨?_, ?_, ?_⟩
  · intro quad fault left fetched ran
    cases ended : session.runFor fuel with
    | running last =>
      rw [ended] at fetched ran
      exact (sound_of_runFor sound ended).expected fetched ran
    | stopped last reason =>
      rw [ended] at fetched ran
      rcases (stopsAt_of_runFor sound ended).2 with still | nothing
      · exact still.expected fetched ran
      · rw [Progress.session, nothing] at fetched
        cases fetched
  · intro last fault ended
    exact (stopsAt_of_runFor sound ended).1
  · intro fault isFault
    rcases session.run_cases with ⟨_, ended⟩ | ⟨allowed, exhausted⟩
    · rw [isFault] at ended
      obtain ⟨_, _, _, _, _, _, stops⟩ := (stopsAt_of_runFor sound ended).1
      exact stops.fault_cases
    · rw [isFault] at exhausted
      cases exhausted
      exact .inr ⟨allowed, rfl⟩

/-- A program that returns a widened number and misses the end of a list. -/
def behindEnd : String :=
  "program p;var int[1]a;func float h(int n)\x7breturn n/2.0;\x7d" ++
    "func void main()\x7bwrite h(a[0]);write a[1];\x7d"

theorem Session.safe_of_compile_behindEnd :
    ∃ executable machine last,
      compile behindEnd "main" = .ok executable ∧
      Machine.load executable {} = .ok machine ∧
      ({ machine } : Session).runFor 50 = .stopped last
        (some (.indexOutOfBounds 1 1)) ∧
      last.machine.screen.lines = #["0"] ∧
      ∃ earlier before quad, earlier < 50 ∧
        ({ machine } : Session).runFor earlier = .running before ∧
        before.machine.code[before.machine.position]? = some quad ∧
        before.StopsAt quad last (some (.indexOutOfBounds 1 1)) := by
  have evaluated : (do
      let program ← (Program.parse behindEnd).toOption
      let executable ← (program.compile "main").toOption
      let machine ← (Machine.load executable {}).toOption
      let progress := ({ machine } : Session).runFor 50
      some (decide program.ListsFit, progress.fault?,
        progress.session.machine.screen.lines)) =
          some (true, some (.indexOutOfBounds 1 1), #["0"]) := by
    decide +kernel
  simp only [bind, Option.bind_eq_some_iff, toOption_eq_some, Option.some.injEq,
    Prod.mk.injEq, decide_eq_true_eq] at evaluated
  obtain ⟨program, parsed, executable, generated, machine, loaded, listsFit,
      faulted, lines⟩ :=
    evaluated
  have compiled : compile behindEnd "main" = .ok executable := by
    rw [compile, parsed]
    exact generated
  have fits : ∀ other, Program.parse behindEnd = .ok other →
      other.ListsFit := by
    intro other otherParsed
    rw [parsed] at otherParsed
    cases otherParsed
    exact listsFit
  have ended := Progress.eq_stopped faulted
  obtain ⟨_, stops, _⟩ := safe_of_compile compiled fits loaded none 50
  exact ⟨executable, machine, _, compiled, loaded, ended, lines,
    stops _ _ ended⟩

end Easel
