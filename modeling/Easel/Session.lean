import Easel.Machine.Execute

/-!
# Sessions

A session executes a machine instruction by instruction, counts them, and
stops at the end of the code, at a fault, when the allowed number of
instructions has been executed, or when the screen's window is closed.
-/

namespace Easel

/-- A machine, and how long it has run and may run. -/
structure Session where
  machine : Machine
  /-- The greatest number of instructions to execute. -/
  limit : Option Nat := none
  /-- Instructions executed so far. -/
  executed : Nat := 0
deriving Inhabited

/-- What has become of a session. -/
inductive Progress where
  | running (session : Session)
  /-- The program came to an end, or to a fault. -/
  | stopped (session : Session) (fault : Option Fault)
deriving Inhabited

namespace Session

/-- Whether the allowed number of instructions has been executed. -/
def exhausted? (session : Session) : Option Fault :=
  match session.limit with
  | some limit =>
    if limit ≤ session.executed then some (.stepLimit limit) else none
  | none => none

/-- Move to a position, and stop there if the window was closed. -/
def goTo (session : Session) (position : Nat) : Progress :=
  let (closed, screen) := session.machine.screen.poll
  let moved :=
    { session with machine := { session.machine with position, screen } }
  if closed then .stopped moved none else .running moved

/-- Go where the outcome of an instruction leads. -/
def follow (session : Session) : Outcome → Progress
  | .next => session.goTo (session.machine.position + 1)
  | .jump target => session.goTo target
  | .halt =>
    let machine :=
      { session.machine with position := session.machine.code.size }
    .stopped { session with machine } none

/-- Execute the next instruction. -/
def step (session : Session) : Progress :=
  match session.machine.code[session.machine.position]? with
  | none => .stopped session none
  | some quad =>
    match session.exhausted? with
    | some fault => .stopped session (some fault)
    | none =>
      let counted := { session with executed := session.executed + 1 }
      match Exec.execute quad session.machine with
      | .ok outcome machine => { counted with machine }.follow outcome
      | .error fault machine => .stopped { counted with machine } (some fault)

/-- Execute up to `fuel` instructions. -/
def runFor : Nat → Session → Progress
  | 0, session => .running session
  | fuel + 1, session =>
    match session.step with
    | .running next => runFor fuel next
    | .stopped last fault => .stopped last fault

/-- A run can be interrupted and taken up again. -/
theorem runFor_add (first second : Nat) (session : Session) :
    session.runFor (first + second) =
      match session.runFor first with
      | .running next => next.runFor second
      | .stopped last fault => .stopped last fault := by
  induction first generalizing session with
  | zero => simp [runFor]
  | succ first ih =>
    rw [Nat.succ_add]
    simp only [runFor]
    split <;> simp_all

/-- The instructions that the 64 bits of the counter can count. -/
def counterBound : Nat := 18446744073709551616

/--
Execute the program until it stops.  One more turn than instructions are
allowed is enough to stop.  A run without a limit is given up after
`counterBound` instructions, at a limit that no program was given.
-/
def run (session : Session) : Session × Option Fault :=
  let limit := session.limit.getD counterBound
  match session.runFor (limit - session.executed + 1) with
  | .stopped last fault => (last, fault)
  | .running last => (last, some (.stepLimit limit))

/-- Begin again with a reset machine; the instructions still count. -/
def restart (session : Session) : Session :=
  { session with machine := session.machine.reset }

end Session

end Easel
