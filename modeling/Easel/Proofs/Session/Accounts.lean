import Easel.Proofs.Session.Passing
import Easel.Proofs.Session.Safety

/-!
# Every call is accounted for

Code for an expression or a statement keeps account of the arguments that it
passes, whatever calls are made on the way.  By induction on the code and on
the number of steps to go, every call in a run of a program is made with an
account of each of its arguments.
-/

namespace Easel

variable {name : String} {stop : Point}

theorem Builtin.operation_quiet {builtin : Builtin}
    (found : Builtin.find? name = some builtin) :
    builtin.operation.isQuiet = true := by
  have all : ∀ other ∈ Builtin.all, other.operation.isQuiet = true := by decide
  exact all builtin (Builtin.find?_mem found)

theorem Operator.operation_quiet (operator : Operator) :
    operator.operation.isQuiet = true := by
  cases operator <;> rfl

namespace Timeline

variable {line : Timeline} {context : Context} {count since : Nat}
  {activation : Activation}

theorem Onward.of_pointer {field : Option String} {index : Operand}
    {resolved : Resolved} {pointer : Address} {start : Point}
    (code : PointerCode line.image context name field index resolved
      pointer start stop)
    (onward : line.Onward count stop.position activation since) :
    line.Onward count start.position activation since := by
  obtain ⟨_, _, _, add⟩ := code.designated
  rw [code.position] at onward
  exact Onward.of_quiet code.check ⟨rfl, rfl⟩
    (Onward.of_quiet add ⟨rfl, rfl⟩ onward)

/-- What the code of a function needs to know about the program. -/
structure Hosts (line : Timeline) (context : Context) : Prop where
  functions : context.functions = line.functions
  returns : context.SingleReturns
  entries : ∀ name routine address, line.functions.find? name = some routine →
    line.image.entryOf name = some address →
      ∃ entry : Nat, address = (entry : Int)
  room : ∀ name routine, line.functions.find? name = some routine →
    Scene.Room [] routine.parameters

/-! ## Expressions -/

/-- Expressions of the function that the context belongs to. -/
def Holding (line : Timeline) (context : Context) (parts : List Expr) : Prop :=
  ∀ part ∈ parts, line.Contains context part

theorem Holding.append {first second : List Expr}
    (holding : line.Holding context (first ++ second)) :
    line.Holding context first ∧ line.Holding context second :=
  ⟨fun part member => holding part (List.mem_append_left _ member),
    fun part member => holding part (List.mem_append_right _ member)⟩

theorem Holding.cons {first : Expr} {rest : List Expr}
    (holding : line.Holding context (first :: rest)) :
    line.Contains context first ∧ line.Holding context rest :=
  ⟨holding first List.mem_cons_self,
    fun part member => holding part (List.mem_cons_of_mem _ member)⟩

/-- Code for a phrase keeps account of all calls, from one point to another. -/
def Advances (line : Timeline)
    (count : Nat)
    (context : Context)
    (start stop : Point) : Phrase → Prop
  | .value expression _ =>
    ∀ activation since, line.Holding context expression.parts →
      line.Onward count stop.position activation since →
        line.Onward count start.position activation since
  | .operands expressions _ =>
    ∀ activation since, line.Holding context (partsOf expressions) →
      line.Onward count stop.position activation since →
        line.Onward count start.position activation since
  | .arguments expressions parameters =>
    ∀ (activation : Activation) base since (done : List Ty) (frame : Frame)
      (passages : List Passage), line.Holding context (partsOf expressions) →
      Scene.Room done parameters →
      frame.Carries done →
      line.Account base since activation.pending.length frame passages →
      (∀ passed next more, Frame.Carries passed (done ++ parameters) →
        Passages line.image context expressions parameters more start stop →
        line.Account base next activation.pending.length passed
        (passages ++ more) →
          line.Onward count stop.position (activation.announce passed) next) →
        line.Onward count start.position (activation.announce frame) since

section

variable {start : Point} (hosts : line.Hosts context)
  (calls : ∀ fewer < count, line.CallsOnward fewer)
include hosts calls

/-- The code for an expression keeps account of all calls. -/
theorem advances_of_code {phrase : Phrase}
    (code : ExprCode line.image context phrase start stop)
    (aligned : start.Aligned) :
    line.Advances count context start stop phrase := by
  have returns := hosts.returns
  induction code with
  | literal known place =>
    intro activation since holding onward
    exact onward
  | access designates =>
    intro activation since holding onward
    exact onward
  | item indexed pointed fresh load induction =>
    intro activation since holding onward
    refine induction aligned activation since holding.cons.2 ?_
    exact Onward.of_pointer pointed (Onward.of_quiet load ⟨rfl, rfl⟩ onward)
  | builtin found computed takes fresh apply induction =>
    intro activation since holding onward
    refine induction aligned activation since holding.cons.2 ?_
    exact Onward.of_quiet apply
      ⟨Builtin.operation_quiet found, Builtin.operation_straight found⟩ onward
  | @call name arguments textLine routine entry value start stop temps user
      found located announce passed fresh enter induction =>
    intro activation since holding onward
    obtain ⟨written, argumentsHeld⟩ := holding.cons
    rw [hosts.functions] at found
    obtain ⟨entry, rfl⟩ := hosts.entries name routine entry found located
    refine Onward.of_announce announce fun next account => ?_
    refine induction aligned activation since next [] _ [] argumentsHeld
      (hosts.room name routine found) (Frame.carries_nil _) account ?_
    intro frame later passages carries code account
    exact Onward.of_call found located enter carries written code
      account calls onward
  | not computed truth fresh negate induction =>
    intro activation since holding onward
    refine induction aligned activation since holding.cons.2 ?_
    exact Onward.of_quiet negate ⟨rfl, rfl⟩ onward
  | group computed induction =>
    intro activation since holding onward
    exact induction aligned activation since holding.cons.2 onward
  | @binary operator left right leftValue rightValue element value start between
      stop temps leftCode rightCode typed fresh apply leftInduction
      rightInduction =>
    intro activation since holding onward
    obtain ⟨leftHeld, rightHeld⟩ := holding.cons.2.append
    refine leftInduction aligned activation since leftHeld ?_
    refine rightInduction (leftCode.placed returns aligned).1 activation
      since rightHeld ?_
    exact Onward.of_quiet apply ⟨operator.operation_quiet,
      operator.operation_straight⟩ onward
  | noOperands =>
    intro activation since holding onward
    exact onward
  | operand computed others first rest =>
    intro activation since holding onward
    obtain ⟨firstHeld, restHeld⟩ := holding.append
    refine first aligned activation since firstHeld ?_
    exact rest (computed.placed returns aligned).1 activation since
      restHeld onward
  | noArguments =>
    intro activation base since done frame passages holding room carries
      account onward
    refine onward frame since [] (by rwa [List.append_nil]) .nil
      (by rwa [List.append_nil])
  | argument code takes widening pass others first later =>
    intro activation base since done frame passages holding room carries
      account onward
    obtain ⟨firstHeld, restHeld⟩ := holding.append
    obtain ⟨between, placed⟩ := code.placed returns aligned
    have space := room.space 0 _ rfl
    rw [List.take_zero, List.append_nil] at space
    refine first aligned (activation.announce frame) since firstHeld ?_
    refine Onward.of_argument takes widening pass between placed
      (room.fits _ List.mem_cons_self) carries space account ?_
    intro staged next stagedCarries stagedAccount
    refine later (widening.aligned between) activation base next _ staged _
      restHeld room.rest stagedCarries stagedAccount ?_
    intro passed last more passedCarries rest passedAccount
    rw [← List.append_cons] at passedCarries passedAccount
    exact onward passed last _ passedCarries (.cons code widening pass rest)
      passedAccount

/-! ## Statements -/

/-- An assignment keeps account of all calls. -/
theorem Onward.of_assign {assignment : Assignment}
    (code : AssignCode line.image context assignment start stop)
    (aligned : start.Aligned)
    (holding : line.Holding context assignment.parts)
    (onward : line.Onward count stop.position activation since) :
    line.Onward count start.position activation since := by
  obtain ⟨valueHeld, indexHeld⟩ := holding.append
  cases code with
  | whole unindexed computed designates single accepts assign =>
    refine advances_of_code hosts calls computed aligned activation
      since valueHeld ?_
    exact Onward.of_quiet assign ⟨rfl, rfl⟩ onward
  | item indexed computed located pointed single accepts assign =>
    rw [indexed] at indexHeld
    refine advances_of_code hosts calls computed aligned activation
      since valueHeld ?_
    refine advances_of_code hosts calls located
      (computed.placed hosts.returns aligned).1 activation since indexHeld ?_
    exact Onward.of_pointer pointed (Onward.of_quiet assign ⟨rfl, rfl⟩ onward)

theorem Onward.of_condition {guard : Expr} {value : Operand} {guarded : Point}
    {target : Nat}
    (condition : GuardCode line.image context guard value start guarded)
    (skip : line.image.Has guarded.position (Context.jumpUnless value target))
    (aligned : start.Aligned)
    (holding : line.Holding context guard.parts)
    (taken : line.Onward count (guarded.position + 1) activation since)
    (skipped : line.Onward count target activation since) :
    line.Onward count start.position activation since := by
  refine advances_of_code hosts calls condition.computed aligned activation
    since holding ?_
  exact Onward.of_guard skip taken skipped

end

/-- A loop may be entered again with fewer steps to go. -/
theorem Onward.of_loop {position : Nat}
    (onward : ∀ steps ≤ count,
      (∀ fewer < steps, line.Onward fewer position activation since) →
        line.Onward steps position activation since) :
    line.Onward count position activation since := by
  suffices all : ∀ steps ≤ count, line.Onward steps position
      activation since from
    all count (Nat.le_refl _)
  intro steps
  induction steps using Nat.strongRecOn with
  | ind steps shorter =>
    intro bound
    exact onward steps bound fun fewer isFewer =>
      shorter fewer isFewer (Nat.le_of_lt (Nat.lt_of_lt_of_le isFewer bound))

/-- The code for a statement keeps account of all calls. -/
theorem onward_of_code {clause : Clause} {start : Point}
    (hosts : line.Hosts context)
    (code : StmtCode line.image context clause start stop)
    (aligned : start.Aligned)
    (calls : ∀ fewer < count, line.CallsOnward fewer)
    (returning : line.Returning count activation since)
    (holding : line.Holding context clause.parts)
    (onward : line.Onward count stop.position activation since) :
    line.Onward count start.position activation since := by
  have returns := hosts.returns
  induction code generalizing count with
  | declare known hasAddress place region fits init =>
    exact Onward.of_quiet init ⟨rfl, rfl⟩ onward
  | assign code =>
    exact Onward.of_assign hosts calls code aligned holding onward
  | branch condition skip inside induction =>
    obtain ⟨guardHeld, bodyHeld⟩ := holding.append
    refine Onward.of_condition hosts calls condition skip aligned
      guardHeld ?_ onward
    exact induction (condition.computed.placed returns aligned).1 calls
      returning bodyHeld onward
  | branchElse condition skip inside across outside insideInduction
      outsideInduction =>
    obtain ⟨guardHeld, bothHeld⟩ := holding.append
    obtain ⟨bodyHeld, elseHeld⟩ := bothHeld.append
    have guardedAligned := (condition.computed.placed returns aligned).1
    refine Onward.of_condition hosts calls condition skip aligned
      guardHeld ?_ ?_
    · refine insideInduction guardedAligned calls returning bodyHeld ?_
      exact Onward.of_jump across fun fewer isFewer =>
        onward.le (Nat.le_of_lt isFewer)
    · exact outsideInduction (inside.aligned returns guardedAligned) calls
        returning elseHeld onward
  | whileLoop condition skip inside again induction =>
    obtain ⟨guardHeld, bodyHeld⟩ := holding.append
    refine Onward.of_loop fun steps bound shorter => ?_
    have stepsCalls := fun fewer isFewer =>
      calls fewer (Nat.lt_of_lt_of_le isFewer bound)
    refine Onward.of_condition hosts stepsCalls condition skip
      aligned guardHeld ?_ (onward.le bound)
    refine induction (condition.computed.placed returns aligned).1 stepsCalls
      (returning.le bound) bodyHeld ?_
    exact Onward.of_jump again shorter
  | forLoop initially condition skip inside advance again induction =>
    obtain ⟨initialHeld, restHeld⟩ := holding.append
    obtain ⟨guardHeld, bothHeld⟩ := restHeld.append
    obtain ⟨bodyHeld, stepHeld⟩ := bothHeld.append
    have begunAligned := initially.aligned returns aligned
    have guardedAligned := (condition.computed.placed returns begunAligned).1
    refine Onward.of_assign hosts calls initially aligned initialHeld ?_
    refine Onward.of_loop fun steps bound shorter => ?_
    have stepsCalls := fun fewer isFewer =>
      calls fewer (Nat.lt_of_lt_of_le isFewer bound)
    refine Onward.of_condition hosts stepsCalls condition skip
      begunAligned guardHeld ?_ (onward.le bound)
    refine induction guardedAligned stepsCalls (returning.le bound) bodyHeld ?_
    refine Onward.of_assign hosts stepsCalls advance
      (inside.aligned returns guardedAligned) stepHeld ?_
    exact Onward.of_jump again shorter
  | write computed printable print =>
    refine advances_of_code hosts calls computed aligned activation
      since holding ?_
    exact Onward.of_quiet print ⟨rfl, rfl⟩ onward
  | leave nothing ret => exact returning _ _ ret
  | ret computed something accepts ret =>
    refine advances_of_code hosts calls computed aligned activation
      since holding ?_
    exact returning _ _ ret
  | call code =>
    exact advances_of_code hosts calls code aligned activation since
      holding onward
  | nil => exact onward
  | cons first others firstInduction othersInduction =>
    obtain ⟨firstHeld, othersHeld⟩ := holding.append
    refine firstInduction aligned calls returning firstHeld ?_
    exact othersInduction (first.aligned returns aligned) calls returning
      othersHeld onward

section

variable {program : Program} {entry : String}

theorem hosts_of_linked {routine : Routine}
    (linked : Linked program entry line.image line.functions line.globals)
    (found : line.functions.find? name = some routine) :
    line.Hosts (routine.context line.functions line.globals) := by
  have hosts := @Scene.hosts_of_linked name
    (.solo line.image line.functions line.globals line.start.machine.screen)
    program entry routine linked found
  refine ⟨rfl, hosts.singleReturns, hosts.entries, ?_⟩
  intro other otherRoutine otherFound
  exact ⟨(hosts.arranged.signatures other otherRoutine otherFound).2,
    hosts.room other otherRoutine otherFound⟩

/-- Functions of a linked program keep account of all calls. -/
theorem callsOnward
    (linked : Linked line.program entry line.image line.functions line.globals)
    (count : Nat) :
    line.CallsOnward count := by
  induction count using Nat.strongRecOn with
  | ind count calls =>
    intro name routine position activation since found located returning
    obtain ⟨function, member, rfl, _, laid⟩ :=
      linked.routines name routine found
    obtain ⟨_, _, body, has, _⟩ := laid.code
    rw [laid.located] at located
    cases located
    refine onward_of_code (hosts_of_linked linked found) body (fun _ _ => rfl)
      calls returning ?_ (returning _ _ has)
    intro part inside
    exact ⟨function, member, routine, found, rfl, inside⟩

/-- A return from the function in which the program started ends the program. -/
theorem returning_at_root (alone : activation.waiting = []) :
    line.Returning count activation since := by
  intro position address has
  refine OnwardWhen.of_step has (by simp) ?_
  intro fewer isFewer moment machine outcome left target stands _
    ran leads reached
  have frames : machine.frames = [activation.running] := by
    rw [stands.frames, Activation.frames, alone]
  rw [Exec.execute_ret rfl, Exec.leave_root frames] at ran
  cases ran
  cases leads

/-- Nothing is called while the remaining global variables are set to zero. -/
theorem onward_of_zeroed {index remaining : Nat}
    (linked : Linked program entry line.image line.functions line.globals)
    (onward : line.Onward count line.globals.entries.length activation since)
    (counted : index + remaining = line.globals.entries.length) :
    line.Onward count index activation since := by
  induction remaining generalizing index with
  | zero =>
    rw [Nat.add_zero] at counted
    rw [counted]
    exact onward
  | succ remaining induction =>
    have bound : index < line.globals.entries.length := by omega
    obtain ⟨_, _, init⟩ :=
      linked.zeroed index _ _ (List.getElem?_eq_getElem bound)
    exact Onward.of_quiet init ⟨rfl, rfl⟩ (induction (by omega))

/-- Every call in a run of a linked program is accounted for. -/
theorem accounts_of_linked {moment : Nat} {machine : Machine}
    (linked : Linked line.program entry line.image line.functions line.globals)
    (begins : line.Stands 0 ⟨Machine.rootFrame line.image.code, [], [],
      rfl⟩ 0 0 line.start.machine)
    (reached : line.start.At moment machine) :
    line.Accounts moment machine := by
  obtain ⟨routine, found, _⟩ := linked.starts
  obtain ⟨start, located, jump⟩ := linked.jump
  have onward : line.Onward moment 0 ⟨Machine.rootFrame line.image.code, [],
      [], rfl⟩ 0 := by
    refine onward_of_zeroed linked ?_ (Nat.zero_add _)
    refine Onward.of_jump jump fun fewer _ => ?_
    exact callsOnward linked fewer entry routine start _ _ found located
      (returning_at_root rfl)
  exact onward moment (Nat.le_refl _) 0 _ begins trivial moment machine
    (Nat.zero_le _) (by omega) reached

end

end Timeline

end Easel
