import Easel.Proofs.Session.Run

/-!
# What any instruction can change

Calls and returns move frames: a call suspends its caller and enters the callee
that was announced, a return leaves the callee and resumes the caller.  A
relation between machines that also allows these changes holds across every
instruction of every program, and so does what it implies for a machine that
has executed any instructions in any order.
-/

namespace Easel

/-- A relation between machines that allows what instructions change. -/
structure AllowsCalls (relation : Machine → Machine → Prop) :
    Prop extends Allows relation where
  suspended : ∀ (machine : Machine) (caller : Frame) (outer : List Frame),
    machine.frames = caller :: outer →
      relation machine
        { machine with frames := Exec.suspended caller machine.memory :: outer }
  dropped : ∀ (machine : Machine) (callee : Frame) (announced : List Frame),
    machine.pending = callee :: announced →
      relation machine { machine with pending := announced }
  entered : ∀ (machine : Machine) (callee : Frame) (announced : List Frame),
    machine.pending = callee :: announced →
      relation machine { machine with
        pending := announced
        frames := Exec.entered callee machine.position :: machine.frames }
  left : ∀ (machine : Machine) (callee : Frame) (outer : List Frame),
    machine.frames = callee :: outer →
      relation machine { machine with frames := outer }
  resumed : ∀ (machine : Machine) (caller : Frame) (outer : List Frame)
    (saved : Snapshot), machine.frames = caller :: outer →
    caller.saved = some saved →
      relation machine { machine with
        frames := Exec.resumed caller :: outer
        memory := machine.memory.restore saved }

namespace Exec

theorem Made.writeArguments {calls : Bool}
    (staged : List (Address × List Value)) :
    Made true calls (storing (Memory.writeArguments staged)) := by
  induction staged with
  | nil => exact pure ()
  | cons first rest induction =>
    change Made true calls
      (storing (Memory.writeBlock first.1 first.2 >>= fun _ =>
        Memory.writeArguments rest))
    rw [storing_bind]
    exact (writeBlock first.2).bind fun _ => induction

theorem Made.handOver {calls : Bool}
    (result : Address)
    (values : Option (List Value)) :
    Made true calls (storing (handOver result values)) := by
  cases values with
  | none => exact pure ()
  | some values =>
    simp only [Exec.handOver]
    split
    · exact pure ()
    · exact writeBlock values

section

variable {relation : Machine → Machine → Prop} (allows : AllowsCalls relation)
include allows

theorem enter_respects (target : Address) :
    Respects relation (enter target) := by
  intro machine
  by_cases valid : 0 ≤ target
  case neg =>
    have negative : target < 0 := Int.not_le.mp valid
    have unchanged : (enter target).leaves machine = machine := by
      simp [leaves, enter, jumpTarget, negative, bind, EStateM.bind, throw_run]
    rw [unchanged]
    exact allows.refl machine
  case pos =>
    cases pending : machine.pending with
    | nil =>
      have unchanged : (enter target).leaves machine = machine := by
        simp [leaves, enter, jumpTarget, Int.not_lt.mpr valid, takePending,
          pending, bind, EStateM.bind, pure, EStateM.pure, get_run, throw_run]
      rw [unchanged]
      exact allows.refl machine
    | cons callee announced =>
      cases frames : machine.frames with
      | nil =>
        have popped : (enter target).leaves machine =
            { machine with pending := announced } := by
          simp [leaves, enter, jumpTarget, Int.not_lt.mpr valid, takePending,
            suspendCaller, pending, frames, bind, EStateM.bind, pure,
            EStateM.pure, get_run, modify_run, throw_run]
        rw [popped]
        exact allows.dropped machine callee announced pending
      | cons caller outer =>
        -- The arguments are stored as if the callee were still announced:
        -- storing does not look at the frames, and so the callee is moved last.
        let waiting : Machine :=
          { machine with frames := suspended caller machine.memory :: outer }
        have stored := (Made.writeArguments callee.staged).respects
          allows.toAllowsStoring waiting
        have before := allows.trans _ _ _
          (allows.suspended machine caller outer frames) stored
        simp only [leaves, storing, waiting] at before
        simp only [leaves, enter_eq valid pending frames]
        cases wrote : Memory.writeArguments callee.staged machine.memory with
        | ok done memory =>
          rw [wrote] at before
          exact allows.trans _ _ _ before
            (allows.entered _ callee announced pending)
        | error fault memory =>
          rw [wrote] at before
          exact allows.trans _ _ _ before
            (allows.dropped _ callee announced pending)

theorem leave_respects (address : Address) :
    Respects relation (leave address) := by
  intro machine
  cases frames : machine.frames with
  | nil =>
    have unchanged : (leave address).leaves machine = machine := by
      simp [leaves, leave, leaveFrame, frames, bind, EStateM.bind,
        get_run, throw_run]
    rw [unchanged]
    exact allows.refl machine
  | cons callee below =>
    have popped := allows.left machine callee below frames
    cases below with
    | nil =>
      simp only [leaves, leave_root frames]
      exact popped
    | cons caller outer =>
      cases back : handedBack machine.memory address with
      | error fault =>
        have failed : (leave address).leaves machine =
            { machine with frames := caller :: outer } := by
          simp [leaves, leave, leaveFrame, frames, bind, EStateM.bind,
            pure, EStateM.pure, get_run, modify_run, returned_eq, back]
        rw [failed]
        exact popped
      | ok values =>
        cases kept : caller.saved with
        | none =>
          have failed : (leave address).leaves machine =
              { machine with frames := caller :: outer } := by
            simp [leaves, leave, leaveFrame, frames, bind, EStateM.bind, pure,
              EStateM.pure, get_run, modify_run, returned_eq, back,
              resumeCaller, kept, throw_run]
          rw [failed]
          exact popped
        | some saved =>
          have restored := allows.trans _ _ _ popped
            (allows.resumed _ caller outer saved rfl kept)
          cases called : machine.code[callee.calledFrom]? with
          | none =>
            have failed : (leave address).leaves machine =
                { machine with
                  frames := resumed caller :: outer
                  memory := machine.memory.restore saved } := by
              simp [leaves, leave, leaveFrame, frames, bind, EStateM.bind, pure,
                EStateM.pure, get_run, modify_run, returned_eq,
                back, resumeCaller, kept, called, throw_run, resumed]
            rw [failed]
            exact restored
          | some site =>
            have stored := allows.trans _ _ _ restored
              ((Made.handOver site.result values).respects
                allows.toAllowsStoring _)
            simp only [leaves, storing] at stored
            simp only [leaves, leave_eq frames kept called, back]
            cases wrote : handOver site.result values
                (machine.memory.restore saved) with
            | ok done memory =>
              rw [wrote] at stored
              exact stored
            | error fault memory =>
              rw [wrote] at stored
              exact stored

/-- A relation that allows every change holds across every instruction. -/
theorem execute_respects_calls (quad : Quad) :
    Respects relation (execute quad) := by
  by_cases isCall : quad.operation = .call
  · rw [show execute quad = enter quad.left by simp only [execute, isCall]]
    exact enter_respects allows quad.left
  · by_cases isReturn : quad.operation = .ret
    · rw [show execute quad =
        leave quad.result by simp only [execute, isReturn]]
      exact leave_respects allows quad.result
    · exact execute_respects allows.toAllows quad isCall isReturn

end

end Exec

/-! ## Machines that have executed any instructions -/

/--
What can become of a machine that executes any instructions, in any order and
at any positions, whether they succeed or fail.
-/
inductive Machine.Becomes (machine : Machine) : Machine → Prop where
  | start : Becomes machine machine
  | executed {between : Machine} (before : Becomes machine between)
      (quad : Quad) : Becomes machine ((Exec.execute quad).leaves between)
  | moved {between : Machine} (before : Becomes machine between)
      (position : Nat) (screen : Screen) :
      Becomes machine { between with position, screen }

/-- What every instruction keeps is kept by any sequence of them. -/
theorem Machine.Becomes.keeps {relation : Machine → Machine → Prop}
    {machine left : Machine}
    (becomes : machine.Becomes left)
    (allows : AllowsCalls relation)
    (moved : ∀ (machine : Machine) (position : Nat),
      relation machine { machine with position }) :
    relation machine left := by
  induction becomes with
  | start => exact allows.refl machine
  | executed before quad induction =>
    exact allows.trans _ _ _
      induction (Exec.execute_respects_calls allows quad _)
  | moved before position screen induction =>
    exact allows.trans _ _ _ induction
      (allows.trans _ _ _ (allows.shown _ screen) (moved _ position))

namespace Session

/-- Where a session goes in one step is what becomes of its machine. -/
theorem becomes_of_step {start : Machine} {session : Session}
    (becomes : start.Becomes session.machine) :
    start.Becomes session.step.session.machine := by
  unfold step
  split
  · exact becomes
  · rename_i quad _
    split
    · exact becomes
    · have executed := becomes.executed quad
      cases ran : Exec.execute quad session.machine with
      | error fault left =>
        rw [Exec.leaves, ran] at executed
        exact executed
      | ok outcome left =>
        rw [Exec.leaves_of_ok ran] at executed
        cases outcome with
        | halt => exact executed.moved left.code.size left.screen
        | next =>
          rw [follow_session _ rfl]
          exact executed.moved _ _
        | jump target =>
          rw [follow_session _ rfl]
          exact executed.moved _ _

/-- Wherever a session gets to or stops is what becomes of its machine. -/
theorem becomes_of_runFor (session : Session) (fuel : Nat) :
    session.machine.Becomes (session.runFor fuel).session.machine := by
  suffices ∀ (start : Machine) (session : Session),
      start.Becomes session.machine →
      start.Becomes (session.runFor fuel).session.machine from this _
      session .start
  intro start
  induction fuel with
  | zero => exact fun _ becomes => becomes
  | succ fuel induction =>
    intro session becomes
    have stepped := becomes_of_step becomes
    unfold runFor
    split
    · rename_i next goesOn
      rw [goesOn] at stepped
      exact induction next stepped
    · rename_i last fault ended
      rw [ended] at stepped
      exact stepped

/-- A whole run ends with what becomes of the machine. -/
theorem becomes_of_run (session : Session) :
    session.machine.Becomes session.run.1.machine := by
  unfold run
  dsimp only
  split
  · rename_i last fault ended
    have reached := session.becomes_of_runFor
      (session.limit.getD counterBound - session.executed + 1)
    rw [ended] at reached
    exact reached
  · rename_i last goesOn
    have reached := session.becomes_of_runFor
      (session.limit.getD counterBound - session.executed + 1)
    rw [goesOn] at reached
    exact reached

end Session

end Easel
