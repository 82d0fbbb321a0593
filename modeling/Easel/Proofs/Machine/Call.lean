import Easel.Proofs.Machine.Control

/-!
# Calls and returns, step by step

A call and a return are sequences of small computations on the machine.  The
equations of this module say in one piece what each of them does to a machine
on which it can be carried out, and what must be true of the machine if it
was carried out.
-/

namespace Easel

variable {target : Address} {left : Machine} {outcome : Outcome}
variable {saved : Snapshot} {site : Quad}

/-- Store the arguments of a call, one after the other. -/
def Memory.writeArguments (staged : List (Address × List Value)) :
    Storing Unit :=
  staged.forM fun (address, values) => writeBlock address values

namespace Exec

variable {machine : Machine} {callee caller : Frame} {outer : List Frame}
  {address : Address}

/-- Storing piece by piece is storing all pieces in one go. -/
theorem forM_storing_writeBlock (staged : List (Address × List Value)) :
    (staged.forM fun (address, values) =>
      storing (Memory.writeBlock address values)) =
      storing (Memory.writeArguments staged) := by
  induction staged with
  | nil => rfl
  | cons first rest induction =>
    change
      (storing (Memory.writeBlock first.1 first.2) >>= fun _ =>
        rest.forM fun (address, values) =>
          storing (Memory.writeBlock address values)) =
      storing (Memory.writeBlock first.1 first.2 >>= fun _ =>
        Memory.writeArguments rest)
    rw [storing_bind, induction]

/-- The frame of a function just entered from the machine's position. -/
def entered (callee : Frame) (position : Nat) : Frame :=
  { callee with staged := [], calledFrom := position }

/-- The frame of a function that waits for a call to return. -/
def suspended (caller : Frame) (memory : Memory) : Frame :=
  { caller with saved := some memory.snapshot }

/-- A call on a machine that has an announced callee and a caller. -/
theorem enter_eq {announced : List Frame}
    (valid : 0 ≤ target)
    (pending : machine.pending = callee :: announced)
    (frames : machine.frames = caller :: outer) :
    enter target machine =
      match Memory.writeArguments callee.staged machine.memory with
      | .ok _ memory =>
        .ok (.jump target.toNat) { machine with
          memory, pending := announced
          frames := entered callee machine.position ::
            suspended caller machine.memory :: outer }
      | .error fault memory =>
        .error fault { machine with
          memory, pending := announced
          frames := suspended caller machine.memory :: outer } := by
  have notNegative : ¬ target < 0 := Int.not_lt.mpr valid
  unfold enter
  simp only [forM_storing_writeBlock]
  simp only [jumpTarget, notNegative, if_false, takePending,
    suspendCaller, bind, EStateM.bind, pure, EStateM.pure, get_run, modify_run,
    pending, frames, storing, entered, suspended]
  cases Memory.writeArguments callee.staged machine.memory with
  | ok value memory => rfl
  | error fault memory => rfl

/-- What a call that was carried out found, and what it left. -/
theorem enter_ok (ran : enter target machine = .ok outcome left) :
    ∃ callee announced caller outer memory,
      machine.pending = callee :: announced ∧
        machine.frames = caller :: outer ∧
        Memory.writeArguments callee.staged machine.memory = .ok () memory ∧
        outcome = .jump target.toNat ∧
        left = { machine with
          memory, pending := announced
          frames := entered callee machine.position ::
            suspended caller machine.memory :: outer } := by
  by_cases valid : 0 ≤ target
  case neg =>
    have negative : target < 0 := Int.not_le.mp valid
    simp [enter, jumpTarget, negative, bind, EStateM.bind, throw_run] at ran
  case pos =>
    cases pending : machine.pending with
    | nil =>
      simp [enter, jumpTarget, Int.not_lt.mpr valid, takePending, pending,
        bind, EStateM.bind, pure, EStateM.pure, get_run, throw_run] at ran
    | cons callee announced =>
      cases frames : machine.frames with
      | nil =>
        simp [enter, jumpTarget, Int.not_lt.mpr valid, takePending,
          suspendCaller, pending, frames, bind, EStateM.bind, pure,
          EStateM.pure, get_run, modify_run, throw_run] at ran
      | cons caller outer =>
        rw [enter_eq valid pending frames] at ran
        cases wrote : Memory.writeArguments callee.staged machine.memory with
        | ok value memory =>
          rw [wrote] at ran
          simp only [EStateM.Result.ok.injEq] at ran
          exact ⟨callee, announced, caller, outer, memory, rfl, rfl, wrote,
            ran.1.symm, ran.2.symm⟩
        | error fault memory =>
          rw [wrote] at ran
          cases ran

/-! ## Returns -/

/-- The slots that a return reads before the caller's storage comes back. -/
def handedBack (memory : Memory) (address : Address) :
    Except Fault (Option (List Value)) :=
  if address = .unused then .ok none else some <$> memory.readWhole address

/-- Store the returned slots at the result of a call, if both exist. -/
def handOver (result : Address) : Option (List Value) → Storing Unit
  | some values =>
    if result = .unused then pure () else Memory.writeBlock result values
  | none => pure ()

def resumed (caller : Frame) : Frame :=
  { caller with saved := none }

/-- A return from the frame in which the program started ends the program. -/
theorem leave_root (frames : machine.frames = [callee]) :
    leave address machine = .ok .halt { machine with frames := [] } := by
  simp only [leave, leaveFrame, frames, bind, EStateM.bind, pure, EStateM.pure,
    get_run, modify_run]

theorem returned_eq (address : Address) (machine : Machine) :
    returned address machine =
      match handedBack machine.memory address with
      | .error fault => .error fault machine
      | .ok values => .ok values machine := by
  unfold returned handedBack
  split
  · rfl
  · simp only [bind, EStateM.bind, get_run]
    cases machine.memory.readWhole address with
    | ok values => rfl
    | error fault => rfl

/-- A return to a caller whose storage was saved. -/
theorem leave_eq (frames : machine.frames = callee :: caller :: outer)
    (kept : caller.saved = some saved)
    (called : machine.code[callee.calledFrom]? = some site) :
    leave address machine =
      match handedBack machine.memory address with
      | .error fault => .error fault { machine with frames := caller :: outer }
      | .ok values =>
        match handOver site.result values (machine.memory.restore saved) with
        | .ok _ memory =>
          .ok (.jump (callee.calledFrom + 1)) { machine with
            memory, frames := resumed caller :: outer }
        | .error fault memory =>
          .error fault
            { machine with memory, frames := resumed caller :: outer } := by
  simp only [leave, leaveFrame, frames, bind, EStateM.bind, pure, EStateM.pure,
    get_run, modify_run, returned_eq]
  cases handedBack machine.memory address with
  | error fault => rfl
  | ok values =>
    simp only [resumeCaller, kept, modify_run, called, handOver, resumed]
    cases values with
    | none => rfl
    | some values =>
      by_cases absent : site.result = .unused
      · simp only [absent, if_true]
        rfl
      · simp only [absent, if_false, storing, EStateM.bind]
        cases Memory.writeBlock site.result values
          (machine.memory.restore saved) with
        | ok value memory => rfl
        | error fault memory => rfl

/-- A return that hands over what its caller can store. -/
theorem leave_handOver {values : Option (List Value)} {memory : Memory}
    (frames : machine.frames = callee :: caller :: outer)
    (kept : caller.saved = some saved)
    (called : machine.code[callee.calledFrom]? = some site)
    (handed : handedBack machine.memory address = .ok values)
    (stored : handOver site.result values (machine.memory.restore saved) =
      .ok () memory) :
    leave address machine = .ok (.jump (callee.calledFrom + 1)) { machine with
      memory, frames := resumed caller :: outer } := by
  rw [leave_eq frames kept called, handed]
  dsimp only
  rw [stored]

/-- What a return that was carried out found, and what it left. -/
theorem leave_ok (ran : leave address machine = .ok outcome left) :
    (∃ callee, machine.frames = [callee] ∧ outcome = .halt ∧
      left = { machine with frames := [] }) ∨
    ∃ callee caller outer saved site values memory,
      machine.frames = callee :: caller :: outer ∧
        caller.saved = some saved ∧
        machine.code[callee.calledFrom]? = some site ∧
        handedBack machine.memory address = .ok values ∧
        handOver site.result values (machine.memory.restore saved) =
          .ok () memory ∧
        outcome = .jump (callee.calledFrom + 1) ∧
        left = { machine with memory, frames := resumed caller :: outer } := by
  cases frames : machine.frames with
  | nil =>
    simp [leave, leaveFrame, frames, bind, EStateM.bind, get_run,
      throw_run] at ran
  | cons callee below =>
    cases below with
    | nil =>
      rw [leave_root frames] at ran
      simp only [EStateM.Result.ok.injEq] at ran
      exact .inl ⟨callee, rfl, ran.1.symm, ran.2.symm⟩
    | cons caller outer =>
      right
      cases kept : caller.saved with
      | none =>
        simp only [leave, leaveFrame, frames, bind, EStateM.bind,
          pure, EStateM.pure, get_run, modify_run, returned_eq] at ran
        cases back : handedBack machine.memory address with
        | error fault => simp [back] at ran
        | ok values =>
          simp [back, resumeCaller, kept, throw_run] at ran
      | some saved =>
        cases called : machine.code[callee.calledFrom]? with
        | none =>
          simp only [leave, leaveFrame, frames, bind, EStateM.bind, pure,
            EStateM.pure, get_run, modify_run,
            returned_eq] at ran
          cases back : handedBack machine.memory address with
          | error fault => simp [back] at ran
          | ok values =>
            simp [back, resumeCaller, kept, called, modify_run,
              throw_run] at ran
        | some site =>
          rw [leave_eq frames kept called] at ran
          cases back : handedBack machine.memory address with
          | error fault =>
            rw [back] at ran
            cases ran
          | ok values =>
            rw [back] at ran
            cases wrote : handOver site.result values
                (machine.memory.restore saved) with
            | error fault memory =>
              simp only [wrote] at ran
              cases ran
            | ok value memory =>
              simp only [wrote, EStateM.Result.ok.injEq] at ran
              exact ⟨callee, caller, outer, saved, site, values, memory, rfl,
                kept, called, rfl, wrote, ran.1.symm, ran.2.symm⟩

end Exec

end Easel
