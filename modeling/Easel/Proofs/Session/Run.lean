import Easel.Proofs.Machine.Call

/-!
# Runs of a session

A session that goes on has executed one instruction and moved to the position
to which the instruction led.  What every instruction keeps is therefore kept
by a whole run.
-/

namespace Easel

variable {progress : Progress} {position : Nat}

def Progress.session : Progress → Session
  | .running session => session
  | .stopped session _ => session

def Progress.goesOn : Progress → Bool
  | .running _ => true
  | .stopped _ _ => false

theorem Progress.eq_running (running : progress.goesOn = true) :
    progress = .running progress.session := by
  cases progress with
  | running session => rfl
  | stopped session fault => cases running

def Progress.fault? : Progress → Option Fault
  | .running _ => none
  | .stopped _ fault => fault

theorem Progress.eq_stopped {fault : Fault}
    (isFault : progress.fault? = some fault) :
    progress = .stopped progress.session (some fault) := by
  cases progress with
  | running session => cases isFault
  | stopped session reason =>
    cases isFault
    rfl

/-- The position to which an outcome leads, if the program goes on. -/
def Outcome.destination? (position : Nat) : Outcome → Option Nat
  | .next => some (position + 1)
  | .jump target => some target
  | .halt => none

/-- The machine after moving to a position and asking for its window. -/
def Machine.arrived (machine : Machine) (position : Nat) : Machine :=
  { machine with position, screen := machine.screen.poll.2 }

namespace Session

/-- The next instruction is `quad`, which can be executed to `left`. -/
structure Executes (session : Session)
    (quad : Quad)
    (outcome : Outcome)
    (left : Machine) : Prop where
  fetched : session.machine.code[session.machine.position]? = some quad
  allowed : session.exhausted? = none
  ran : Exec.execute quad session.machine = .ok outcome left

/-- The session after an instruction that left the machine `left`. -/
def counted (session : Session) (left : Machine) : Session :=
  { session with machine := left, executed := session.executed + 1 }

variable {session last : Session} {outcome : Outcome} {fuel : Nat}

theorem Executes.step_eq {quad : Quad} {left : Machine}
    (executes : session.Executes quad outcome left) :
    session.step = (session.counted left).follow outcome := by
  simp only [step, executes.fetched, executes.allowed, executes.ran, counted]

/-- A session has one next instruction, with one outcome. -/
theorem Executes.unique {quad other : Quad} {otherOutcome : Outcome}
    {left otherLeft : Machine}
    (executes : session.Executes quad outcome left)
    (otherwise : session.Executes other otherOutcome otherLeft) :
    quad = other ∧ outcome = otherOutcome ∧ left = otherLeft := by
  have same := executes.fetched.symm.trans otherwise.fetched
  cases same
  have result := executes.ran.symm.trans otherwise.ran
  cases result
  exact ⟨rfl, rfl, rfl⟩

/-- Where an outcome leads, the session stops only if the window is closed. -/
theorem follow_eq (session : Session)
    (leads : outcome.destination? session.machine.position = some position) :
    session.follow outcome =
      if session.machine.screen.poll.1 then
        .stopped { session with machine := session.machine.arrived position }
          none
      else .running
        { session with machine := session.machine.arrived position } := by
  cases outcome with
  | next =>
    cases leads
    rfl
  | jump target =>
    cases leads
    rfl
  | halt => cases leads

/-- An instruction that was executed leads to no fault. -/
theorem follow_fault? (session : Session) (outcome : Outcome) :
    (session.follow outcome).fault? = none := by
  cases outcome with
  | halt => rfl
  | next | jump =>
    rw [follow_eq session rfl]
    split <;> rfl

theorem follow_session (session : Session)
    (leads : outcome.destination? session.machine.position = some position) :
    (session.follow outcome).session =
      { session with machine := session.machine.arrived position } := by
  rw [follow_eq session leads]
  split <;> rfl

/-- A session that goes on has executed an instruction and followed it. -/
theorem step_running {next : Session} (goesOn : session.step = .running next) :
    ∃ quad outcome left position,
      session.Executes quad outcome left ∧
        outcome.destination? left.position = some position ∧
        next = session.counted (left.arrived position) := by
  cases fetched : session.machine.code[session.machine.position]? with
  | none => simp [step, fetched] at goesOn
  | some quad =>
    cases allowed : session.exhausted? with
    | some fault => simp [step, fetched, allowed] at goesOn
    | none =>
      cases ran : Exec.execute quad session.machine with
      | error fault left => simp [step, fetched, allowed, ran] at goesOn
      | ok outcome left =>
        have executes : session.Executes quad outcome left :=
          ⟨fetched, allowed, ran⟩
        rw [executes.step_eq] at goesOn
        have ended := congrArg Progress.session goesOn
        cases leads : outcome.destination? left.position with
        | none =>
          cases outcome with
          | next => cases leads
          | jump target => cases leads
          | halt => cases goesOn
        | some position =>
          refine ⟨quad, outcome, left, position, executes, leads, ?_⟩
          rw [follow_session _ leads] at ended
          exact ended.symm

theorem runFor_succ_running
    (goesOn : session.runFor (fuel + 1) = .running last) :
    ∃ before, session.runFor fuel = .running before ∧
      before.step = .running last := by
  rw [runFor_add] at goesOn
  cases ran : session.runFor fuel with
  | stopped stopped fault => simp [ran] at goesOn
  | running before =>
    refine ⟨before, rfl, ?_⟩
    simp only [ran, runFor] at goesOn
    cases stepped : before.step with
    | stopped stopped fault => simp [stepped] at goesOn
    | running next => simpa [stepped] using goesOn

theorem runFor_stopped {fault : Option Fault}
    (ended : session.runFor fuel = .stopped last fault) :
    ∃ earlier before, earlier < fuel ∧
      session.runFor earlier = .running before ∧
      before.step = .stopped last fault := by
  induction fuel with
  | zero => cases ended
  | succ fuel induction =>
    rw [runFor_add] at ended
    cases ran : session.runFor fuel with
    | stopped stopped reason =>
      rw [ran] at ended
      cases ended
      obtain ⟨earlier, before, isEarlier, reached, stepped⟩ := induction ran
      exact ⟨earlier, before, Nat.lt_succ_of_lt isEarlier, reached, stepped⟩
    | running before =>
      refine ⟨fuel, before, Nat.lt_succ_self _, ran, ?_⟩
      simp only [ran, runFor] at ended
      cases stepped : before.step with
      | stopped stopped reason => simpa [stepped] using ended
      | running next => simp [stepped] at ended

/--
A whole run stops by itself or at the limit, which is `2 ^ 64` instructions if
none was given.
-/
theorem run_cases (session : Session) :
    (∃ fuel, session.runFor fuel = .stopped session.run.1 session.run.2) ∨
      ∃ allowed, session.run.2 = some (.stepLimit allowed) := by
  unfold run
  dsimp only
  split
  · rename_i last fault ended
    exact .inl ⟨_, ended⟩
  · exact .inr ⟨_, rfl⟩

/-- What every step keeps is kept by a run. -/
theorem runFor_invariant (invariant : Session → Prop)
    (kept : ∀ session next, invariant session → session.step = .running next →
      invariant next)
    (initially : invariant session)
    (goesOn : session.runFor fuel = .running last) :
    invariant last := by
  induction fuel generalizing last with
  | zero =>
    cases goesOn
    exact initially
  | succ fuel induction =>
    obtain ⟨before, reached, stepped⟩ := runFor_succ_running goesOn
    exact kept before last (induction reached) stepped

end Session

end Easel
