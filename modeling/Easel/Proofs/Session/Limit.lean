import Easel.Proofs.Machine.Output

/-!
# Limits

A limit only cuts a run short.  Up to the limit a session takes the steps that
it would take with a greater one or with none, and where it was cut off it can
be taken up again without losing or repeating anything.
-/

namespace Easel

variable {last : Session} {fuel : Nat}

/-- The session with another limit. -/
def Session.allowing (session : Session) (limit : Option Nat) : Session :=
  { session with limit }

def Progress.allowing : Progress → Option Nat → Progress
  | .running session, limit => .running (session.allowing limit)
  | .stopped session fault, limit => .stopped (session.allowing limit) fault

namespace Session

variable {session : Session} {few : Nat} {many : Option Nat}

theorem follow_allowing (session : Session)
    (outcome : Outcome)
    (limit : Option Nat) :
    (session.allowing limit).follow outcome =
      (session.follow outcome).allowing limit := by
  cases outcome with
  | halt => rfl
  | next | jump =>
    cases closed : session.machine.screen.poll.1 <;>
      simp [follow, goTo, allowing, Progress.allowing, closed]

/-- A step stops at the limit, or a greater limit allows it as well. -/
theorem step_allowing (limited : session.limit = some few)
    (fewer : few ≤ many.getD counterBound) :
    session.step = .stopped session (some (.stepLimit few)) ∨
      (session.allowing many).step = session.step.allowing many ∧
        ∀ fault, session.step.fault? = some fault → fault.isLimit = false := by
  cases fetched : session.machine.code[session.machine.position]? with
  | none =>
    exact .inr
      (by simp [step, allowing, fetched, Progress.allowing, Progress.fault?])
  | some quad =>
    by_cases reached : few ≤ session.executed
    · exact .inl (by simp [step, fetched, exhausted?, limited, reached])
    · have allowed : session.exhausted? = none := by
        simp [exhausted?, limited, reached]
      have further : (session.allowing many).exhausted? = none := by
        cases many with
        | none => rfl
        | some most =>
          have within : ¬ most ≤ session.executed := by
            simp only [Option.getD_some] at fewer
            omega
          simp [exhausted?, allowing, within]
      refine .inr ?_
      cases ran : Exec.execute quad session.machine with
      | error fault left =>
        have ordinary := ((Exec.Made.execute quad).adds session.machine).2
          fault left ran
        have same : (session.allowing many).machine = session.machine := rfl
        simp only [step, same, fetched, allowed, further, ran]
        exact ⟨rfl, fun _ same => by cases same; exact ordinary⟩
      | ok outcome left =>
        have executes : session.Executes quad outcome left :=
          ⟨fetched, allowed, ran⟩
        have alike : (session.allowing many).Executes quad outcome left :=
          ⟨fetched, further, ran⟩
        rw [executes.step_eq, alike.step_eq, follow_fault?]
        exact ⟨follow_allowing (session.counted left) outcome many,
          fun _ none => by cases none⟩

/-- What goes on under a limit goes on in the same way under a greater one. -/
theorem runFor_allowing (limited : session.limit = some few)
    (fewer : few ≤ many.getD counterBound)
    (goesOn : session.runFor fuel = .running last) :
    (session.allowing many).runFor fuel = .running (last.allowing many) ∧
      last.limit = some few ∧ last.executed = session.executed + fuel ∧
      (fuel = 0 ∨ last.executed ≤ few) := by
  induction fuel generalizing last with
  | zero =>
    cases goesOn
    exact ⟨rfl, limited, rfl, .inl rfl⟩
  | succ fuel induction =>
    obtain ⟨before, reached, stepped⟩ := runFor_succ_running goesOn
    obtain ⟨alike, same, count, _⟩ := induction reached
    obtain ⟨_, _, _, _, executes, _, rfl⟩ := step_running stepped
    have within : before.executed < few := by
      simpa [exhausted?, same] using executes.allowed
    refine ⟨?_, same, by simp only [counted, count]; omega, .inr within⟩
    rcases step_allowing same fewer with stops | ⟨further, _⟩
    · rw [stepped] at stops
      cases stops
    · rw [runFor_add, alike]
      simp only [runFor, further, stepped, Progress.allowing]

/-- A run that was interrupted before its limit ends as it would have ended. -/
theorem run_resumed (goesOn : session.runFor fuel = .running last)
    (same : last.limit = session.limit)
    (count : last.executed = session.executed + fuel)
    (within : fuel = 0 ∨ last.executed ≤ session.limit.getD counterBound) :
    last.run = session.run := by
  have total : session.limit.getD counterBound - session.executed + 1 =
      fuel + (last.limit.getD counterBound - last.executed + 1) := by
    rw [same]
    omega
  simp only [run, total, runFor_add, goesOn]
  rw [same]

/-! ## What a run shows -/

theorem step_extends (session : Session) :
    session.machine.screen.Extends session.step.session.machine.screen := by
  unfold step
  split
  · exact .of_eq rfl
  · rename_i quad _
    split
    · exact .of_eq rfl
    · have grows := ((Exec.Made.execute quad).adds session.machine).1
      cases ran : Exec.execute quad session.machine with
      | error fault left =>
        rw [Exec.leaves, ran] at grows
        exact grows
      | ok outcome left =>
        rw [Exec.leaves_of_ok ran] at grows
        cases outcome with
        | halt => exact grows
        | next | jump =>
          rw [follow_session _ rfl]
          exact ⟨grows.lines, grows.strokes⟩

theorem runFor_extends (session : Session) (fuel : Nat) :
    session.machine.screen.Extends
      (session.runFor fuel).session.machine.screen := by
  induction fuel generalizing session with
  | zero => exact .of_eq rfl
  | succ fuel induction =>
    have grows := session.step_extends
    unfold runFor
    split
    · rename_i next goesOn
      rw [goesOn] at grows
      exact grows.trans (induction next)
    · rename_i last fault ended
      rw [ended] at grows
      exact grows

theorem run_extends (session : Session) :
    session.machine.screen.Extends session.run.1.machine.screen := by
  have grows := session.runFor_extends
    (session.limit.getD counterBound - session.executed + 1)
  unfold run
  dsimp only
  split <;> simp_all only [Progress.session]

/--
A limit only cuts a run short.  Let a session, whatever its machine has done
before, be run with a limit, and let another limit be as great or absent.  If
the run ends in any other way than at its limit, it ends with the same result,
machine, screen and count of instructions as under the other limit.  If it
ends at its limit, running on from there under the other limit gives exactly
what a single run under the other limit gives.  In both cases the lines and
strokes of the one run are the first ones of the other.  A run without a limit
is one that `Session.run` gives up after `2 ^ 64` instructions.
-/
theorem limit_cuts_short
    (session : Session) {few : Nat} {many : Option Nat}
    (fewer : few ≤ many.getD counterBound) :
    let cut := (session.allowing (some few)).run
    let whole := (session.allowing many).run
    (cut.2 ≠ some (.stepLimit few) → whole = (cut.1.allowing many, cut.2)) ∧
      (cut.2 = some (.stepLimit few) → (cut.1.allowing many).run = whole) ∧
      cut.1.machine.screen.Extends whole.1.machine.screen := by
  intro cut whole
  cases ended : (session.allowing (some few)).runFor
    (few - session.executed + 1) with
  | running last =>
    obtain ⟨_, _, count, within⟩ := runFor_allowing rfl fewer ended
    simp only [allowing] at count
    omega
  | stopped last fault =>
    have cutAt : cut = (last, fault) := by
      simp only [cut, run, allowing, Option.getD_some] at ended ⊢
      rw [ended]
    obtain ⟨earlier, _, _, reached, stepped⟩ := runFor_stopped ended
    obtain ⟨alike, limited, count, within⟩ := runFor_allowing rfl fewer reached
    change (session.allowing many).runFor earlier = _ at alike
    rw [cutAt]
    rcases step_allowing limited fewer with stops | ⟨further, ordinary⟩
    · rw [stepped] at stops
      cases stops
      have resumed : (last.allowing many).run = whole :=
        run_resumed alike rfl count (within.imp_right fun small =>
          Nat.le_trans small fewer)
      refine ⟨fun other => (other rfl).elim, fun _ => resumed, ?_⟩
      rw [← resumed]
      exact run_extends (last.allowing many)
    · rw [stepped] at further ordinary
      have stops : (session.allowing many).runFor (earlier + 1) =
          .stopped (last.allowing many) fault := by
        rw [runFor_add, alike]
        simp only [runFor, further, Progress.allowing]
      have ends : whole = (last.allowing many, fault) := by
        have enough : many.getD counterBound - session.executed +
            1 = earlier + 1 +
            (many.getD counterBound - session.executed - earlier) := by omega
        simp only [whole, run, allowing] at stops ⊢
        rw [enough, runFor_add, stops]
      refine ⟨fun _ => ends, fun atLimit => ?_, ?_⟩
      · cases ordinary _ atLimit
      · rw [ends]
        exact .of_eq rfl

/-- A number is written over and over; the screen closes after five polls. -/
def ticker : Session where
  machine := .start #[⟨.print, -1, -1, 0⟩, ⟨.goto, -1, -1, 0⟩] .empty
    { closeAfter := some 5 }

/-- Cut off after its second line, the program goes on as it would have. -/
theorem limit_cuts_short_ticker :
    let cut := (ticker.allowing (some 3)).run
    let whole := (ticker.allowing (some 9)).run
    cut.2 = some (.stepLimit 3) ∧ cut.1.machine.screen.lines.size = 2 ∧
      whole.1.machine.screen.lines.size = 3 ∧ whole.1.executed = 5 ∧
      (cut.1.allowing (some 9)).run = whole ∧
      cut.1.machine.screen.Extends whole.1.machine.screen := by
  intro cut whole
  have atLimit : cut.2 = some (.stepLimit 3) := by decide +kernel
  obtain ⟨_, resumed, grows⟩ :=
    limit_cuts_short ticker (show 3 ≤ (some 9).getD counterBound by decide)
  exact ⟨atLimit, by decide +kernel, by decide +kernel, by decide +kernel,
    resumed atLimit, grows⟩

end Session

end Easel
