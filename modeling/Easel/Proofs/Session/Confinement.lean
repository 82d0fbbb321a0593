import Easel.Proofs.Code.Assembly
import Easel.Proofs.Machine.Arguments
import Easel.Proofs.Machine.Load
import Easel.Proofs.Session.CallerFrame

/-!
# Control stays inside functions

The segments of a compiled program are closed: a jump stays in its segment,
and a call leads to the start of one.  While a program runs, every active
frame therefore belongs to a function, the machine is at a position of the
function whose frame is on top, and a function that waits for a call waits at
a call of its own segment.  This depends on nothing that is stored in memory.
-/

namespace Easel

variable {machine left : Machine} {outcome : Outcome} {fuel : Nat}

/-! ## Where an instruction can lead -/

namespace Exec

/-- Whatever a computation returns has a property. -/
def Results (property : α → Prop) (action : Exec α) : Prop :=
  ∀ machine value left, action machine = .ok value left → property value

section

variable {property : β → Prop}

theorem pure_results {value : β} (holds : property value) :
    Results property (pure value : Exec β) := by
  intro machine result left ran
  cases ran
  exact holds

theorem bind_results {action : Exec α} {next : α → Exec β}
    (after : ∀ value, Results property (next value)) :
    Results property (action >>= next) := by
  intro machine result left ran
  simp only [bind, EStateM.bind] at ran
  split at ran
  · exact after _ _ _ _ ran
  · cases ran

theorem throw_results (fault : Fault) :
    Results property (throw fault : Exec β) := by
  intro machine result left ran
  cases ran

end

theorem calculate_results (quad : Quad) :
    Results (· = .next) (calculate quad) :=
  bind_results fun _ => bind_results fun _ => pure_results rfl

theorem move_results (quad : Quad) : Results (· = .next) (move quad) := by
  unfold move
  split
  all_goals
    repeat
      first
        | exact pure_results rfl
        | apply bind_results; intro

theorem interact_results (quad : Quad) :
    Results (· = .next) (interact quad) := by
  unfold interact
  split
  all_goals
    repeat
      first
        | exact pure_results rfl
        | apply bind_results; intro

theorem pass_results (address size : Address) :
    Results (· = .next) (pass address size) := by
  unfold pass
  apply bind_results
  intro location
  apply bind_results
  intro machine
  apply bind_results
  intro values
  apply bind_results
  intro later
  split
  · exact throw_results _
  · exact bind_results fun _ => bind_results fun _ => pure_results rfl

/-- An instruction that is no jump, call or return leads to the next one. -/
theorem next_of_execute {quad : Quad}
    (straight : quad.operation.isStraight = true)
    (notReturn : quad.operation ≠ .ret)
    (ran : execute quad machine = .ok outcome left) :
    outcome = .next := by
  unfold execute at ran
  cases operation : quad.operation with
  | call | goto | gotoTrue | gotoFalse =>
    rw [operation] at straight
    exact Bool.noConfusion straight
  | ret => exact (notReturn operation).elim
  | era =>
    rw [operation] at ran
    cases ran
    rfl
  | param =>
    rw [operation] at ran
    exact pass_results _ _ _ _ _ ran
  | assign | assignIndex | assignIndexInverse | addAddress | checkBound
  | init =>
    rw [operation] at ran
    exact move_results quad _ _ _ ran
  | print | render | clear | update | keyPressed | checkCollision =>
    rw [operation] at ran
    exact interact_results quad _ _ _ ran
  | _ =>
    rw [operation] at ran
    exact calculate_results quad _ _ _ ran

/-- A jump leads to the position that it names, or to the next instruction. -/
theorem jump_of_execute {quad : Quad} {target : Nat}
    (isJump : quad.operation.isJump = true)
    (leads : quad.result = target)
    (ran : execute quad machine = .ok outcome left) :
    outcome = .next ∨ outcome = .jump target := by
  have branches : execute quad = branch quad := by
    unfold execute
    cases operation : quad.operation <;> simp_all [Operation.isJump]
  have chosen : ∀ taken : Bool,
      Results (fun outcome : Outcome => outcome = .next ∨
        outcome = .jump target)
        (pure (if taken then .jump target else .next)) := by
    intro taken
    cases taken
    · exact pure_results (.inl rfl)
    · exact pure_results (.inr rfl)
  rw [branches, branch, leads, bind_of_ok (jumpTarget_eq machine target)] at ran
  cases operation : quad.operation with
  | goto | gotoTrue | gotoFalse =>
    rw [operation] at ran
    exact bind_results chosen _ _ _ ran
  | _ =>
    rw [operation] at isJump
    exact Bool.noConfusion isJump

end Exec

/-! ## Positions and segments -/

section

variable {program : Program} {entry : String} {code : Array Quad}
  {segments : List Segment}
variable {segment : Segment}

theorem Segment.Follow.getElem? {start index : Nat}
    (follow : Follow start segments)
    (member : segment ∈ segments)
    (bound : index < segment.code.length) :
    start ≤ segment.first ∧
      (segments.flatMap (·.code))[segment.first - start + index]? =
        segment.code[index]? := by
  induction segments generalizing start with
  | nil => cases member
  | cons first rest ih =>
    obtain ⟨rfl, later⟩ := follow
    rw [List.flatMap_cons]
    rcases List.mem_cons.mp member with rfl | inRest
    · refine ⟨Nat.le_refl _, ?_⟩
      rw [Nat.sub_self, Nat.zero_add, List.getElem?_append_left bound]
    · obtain ⟨behind, found⟩ := ih later inRest
      unfold Segment.stop at behind found
      refine ⟨by omega, ?_⟩
      rw [List.getElem?_append_right (by omega), ← found]
      congr 1
      omega

/-- The code of a program has the code of each segment at its positions. -/
theorem Outline.getElem? {index : Nat}
    (outline : Outline program entry code segments)
    (member : segment ∈ segments)
    (bound : index < segment.code.length) :
    code[segment.first + index]? = segment.code[index]? := by
  obtain ⟨zeroing, _, text, _, _, _⟩ := outline.text
  obtain ⟨_, found⟩ := outline.follow.getElem? member bound
  rw [← Array.getElem?_toList, text, List.getElem?_append_right (by omega),
    ← found]
  have moved : segment.first + index - zeroing.length =
      segment.first - (program.globals.length + 1) + index + 1 := by omega
  rw [moved, List.getElem?_cons_succ]

/-- A segment is the code of one of the functions. -/
theorem Outline.encloses (outline : Outline program entry code segments)
    (member : segment ∈ segments) :
    ∃ function ∈ program.functions,
      segment.Encloses function (Segment.entryIn segments) := by
  obtain ⟨index, bound, rfl⟩ := List.mem_iff_getElem.mp member
  have inProgram : index < program.functions.length := by
    rw [← outline.functions.1]
    exact bound
  exact ⟨program.functions[index], List.getElem_mem _,
    outline.functions.2 index _ _ (List.getElem?_eq_getElem bound)
      (List.getElem?_eq_getElem inProgram)⟩

variable {position : Nat} {quad : Quad}

section

variable (outline : Outline program entry code segments)
  (member : segment ∈ segments)
include outline member

/-- The instruction at a position of a segment. -/
theorem Outline.fetched (inside : segment.Contains position)
    (found : code[position]? = some quad) :
    segment.code[position - segment.first]? = some quad := by
  obtain ⟨above, below⟩ := inside
  unfold Segment.stop at below
  have bound : position - segment.first < segment.code.length := by omega
  rw [← outline.getElem? member bound, Nat.add_sub_cancel' above, found]

theorem Outline.contains_first : segment.Contains segment.first := by
  obtain ⟨_, _, enclosed⟩ := outline.encloses member
  obtain ⟨_, last, _⟩ := enclosed.returns
  have nonempty : 0 < segment.code.length := by
    apply List.length_pos_iff.mpr
    intro empty
    rw [empty] at last
    cases last
  exact ⟨Nat.le_refl _, Nat.lt_add_of_pos_right nonempty⟩

/-- Behind an instruction that does not return the segment goes on. -/
theorem Outline.contains_next (inside : segment.Contains position)
    (found : code[position]? = some quad)
    (notReturn : quad.operation ≠ .ret) :
    segment.Contains (position + 1) := by
  obtain ⟨_, _, enclosed⟩ := outline.encloses member
  obtain ⟨_, last, isReturn⟩ := enclosed.returns
  have atPosition := outline.fetched member inside found
  obtain ⟨_, below⟩ := inside
  unfold Segment.stop at below
  rw [List.getLast?_eq_getElem?] at last
  have notLast : position - segment.first ≠ segment.code.length - 1 := by
    intro isLast
    rw [← isLast, atPosition] at last
    cases last
    exact notReturn isReturn
  refine ⟨by omega, ?_⟩
  unfold Segment.stop
  omega

/-- A call of a segment leads to the first position of a segment. -/
theorem Outline.call_leads (inside : segment.Contains position)
    (found : code[position]? = some quad)
    (isCall : quad.operation = .call) :
    ∃ callee ∈ segments, quad.left = callee.first := by
  obtain ⟨function, inProgram, enclosed⟩ := outline.encloses member
  have inCode := List.mem_of_getElem? (outline.fetched member inside found)
  have isListed : quad.left ∈ (callQuads segment.code).map (·.left) := by
    refine List.mem_map.mpr ⟨quad, ?_, rfl⟩
    rw [callQuads, List.mem_filter]
    exact ⟨inCode, decide_eq_true isCall⟩
  rw [enclosed.calls, List.mem_map] at isListed
  obtain ⟨name, isCalled, leads⟩ := isListed
  obtain ⟨callee, inSegments, rfl⟩ :=
    outline.called function inProgram name isCalled
  refine ⟨callee, inSegments, ?_⟩
  rw [← leads, Segment.entryIn_of_mem outline.unique inSegments]

end

end

/-! ## The functions of frames -/

/--
The segments to which frames belong.  The lowest frame belongs to the function
in which the program starts.  Every other frame belongs to the function whose
segment the call led to from which it was entered, and that call stands in the
segment of the frame below.
-/
inductive Owned (code : Array Quad) (segments : List Segment) (entry : String) :
    List Frame → List Segment → Prop where
  | start {frame : Frame} {owner : Segment}
      (member : owner ∈ segments) (named : owner.name = entry) :
      Owned code segments entry [frame] [owner]
  | call {callee caller : Frame} {outer : List Frame} {owner calling : Segment}
      {owners : List Segment} {site : Quad}
      (below : Owned code segments entry (caller :: outer) (calling :: owners))
      (fetched : code[callee.calledFrom]? = some site)
      (isCall : site.operation = .call)
      (inside : calling.Contains callee.calledFrom)
      (member : owner ∈ segments)
      (leads : site.left = owner.first) :
      Owned code segments entry (callee :: caller :: outer)
        (owner :: calling :: owners)

namespace Owned

variable {code : Array Quad} {segments : List Segment} {entry : String}
  {frame other : Frame}
variable {outer : List Frame} {owner : Segment} {owners : List Segment}

theorem member {frames : List Frame}
    (owned : Owned code segments entry frames (owner :: owners)) :
    owner ∈ segments := by
  cases owned with
  | start member => exact member
  | call _ _ _ _ member => exact member

/-- Suspending or resuming a frame does not change its function. -/
theorem replace
    (owned : Owned code segments entry (frame :: outer) (owner :: owners))
    (same : other.calledFrom = frame.calledFrom) :
    Owned code segments entry (other :: outer) (owner :: owners) := by
  cases owned with
  | start member named => exact .start member named
  | call below fetched isCall inside member leads =>
    rw [← same] at fetched inside
    exact .call below fetched isCall inside member leads

end Owned

/-- The machine is at a position of the function whose frame is on top. -/
def Machine.Confined (machine : Machine)
    (segments : List Segment)
    (entry : String) : Prop :=
  ∃ owner owners,
    Owned machine.code segments entry machine.frames (owner :: owners) ∧
    owner.Contains machine.position

/-- The function in which the program started has returned. -/
def Machine.Halted (machine : Machine) : Prop :=
  machine.frames = [] ∧ machine.position = machine.code.size

section

variable {program : Program} {entry : String} {segments : List Segment}

/-- One instruction keeps the machine inside the topmost function. -/
theorem Machine.Confined.execute {quad : Quad}
    (outline : Outline program entry machine.code segments)
    (confined : machine.Confined segments entry)
    (fetched : machine.code[machine.position]? = some quad)
    (ran : Exec.execute quad machine = .ok outcome left) :
    (outcome = .halt ∧ left.frames = []) ∨
      ∃ position, outcome.destination? left.position = some position ∧
        (left.arrived position).Confined segments entry := by
  obtain ⟨owner, owners, owned, inside⟩ := confined
  cases frames : machine.frames with
  | nil =>
    rw [frames] at owned
    cases owned
  | cons top outer =>
    rw [frames] at owned
    have member := owned.member
    by_cases isCall : quad.operation = .call
    · rw [Exec.execute_call isCall] at ran
      obtain ⟨callee, _, caller, below, memory, _, sameFrames, _, rfl, rfl⟩ :=
        Exec.enter_ok ran
      rw [frames] at sameFrames
      cases sameFrames
      obtain ⟨target, inSegments, leads⟩ := outline.call_leads member inside
        fetched isCall
      refine .inr ⟨quad.left.toNat, rfl, target, owner :: owners, ?_, ?_⟩
      · exact .call (owned.replace rfl) fetched isCall inside inSegments leads
      · rw [leads]
        exact outline.contains_first inSegments
    · by_cases isReturn : quad.operation = .ret
      · rw [Exec.execute_ret isReturn] at ran
        rcases Exec.leave_ok ran with
          ⟨callee, _, rfl, rfl⟩ |
          ⟨callee, caller, below, saved, site, values, memory, sameFrames, _, _,
            _, _, rfl, rfl⟩
        · exact .inl ⟨rfl, rfl⟩
        · rw [frames] at sameFrames
          cases sameFrames
          cases owned with
          | @call _ _ _ _ calling callers _ callerOwned calledAt siteIsCall
              calledInside =>
            refine .inr ⟨top.calledFrom + 1, rfl, calling, callers,
              callerOwned.replace rfl, ?_⟩
            refine outline.contains_next callerOwned.member
              calledInside calledAt ?_
            rw [siteIsCall]
            exact Operation.noConfusion
      · have same := Exec.sameControl_of_execute isCall isReturn ran
        have next := outline.contains_next member inside fetched isReturn
        have stays : Owned left.code segments entry left.frames
            (owner :: owners) := by
          rw [same.code, same.frames, frames]
          exact owned
        by_cases isJump : quad.operation.isJump = true
        · obtain ⟨_, _, enclosed⟩ := outline.encloses member
          obtain ⟨target, leads, contained⟩ := enclosed.jumps quad
            (List.mem_of_getElem? (outline.fetched member inside fetched))
            isJump
          rcases Exec.jump_of_execute isJump leads ran with rfl | rfl
          · refine .inr ⟨left.position + 1, rfl, owner, owners, stays, ?_⟩
            rw [same.position]
            exact next
          · exact .inr ⟨target, rfl, owner, owners, stays, contained⟩
        · have straight : quad.operation.isStraight = true := by
            simp [Operation.isStraight, isJump, isCall]
          rw [Exec.next_of_execute straight isReturn ran]
          refine .inr ⟨left.position + 1, rfl, owner, owners, stays, ?_⟩
          rw [same.position]
          exact next

end

/-! ## Runs -/

namespace Session

variable {session last : Session}

/-- A session that stopped without a fault came to its end or was closed. -/
theorem step_stopped (stopped : session.step = .stopped last none) :
    (session.machine.code[session.machine.position]? = none ∧ last = session) ∨
      ∃ quad outcome left, session.Executes quad outcome left ∧
        ((outcome = .halt ∧
          last = session.counted { left with position := left.code.size }) ∨
        ∃ position, outcome.destination? left.position = some position ∧
          last = session.counted (left.arrived position)) := by
  cases fetched : session.machine.code[session.machine.position]? with
  | none =>
    simp only [step, fetched, Progress.stopped.injEq] at stopped
    exact .inl ⟨rfl, stopped.1.symm⟩
  | some quad =>
    cases allowed : session.exhausted? with
    | some fault => simp [step, fetched, allowed] at stopped
    | none =>
      cases ran : Exec.execute quad session.machine with
      | error fault left => simp [step, fetched, allowed, ran] at stopped
      | ok outcome left =>
        have executes : session.Executes quad outcome left :=
          ⟨fetched, allowed, ran⟩
        refine .inr ⟨quad, outcome, left, executes, ?_⟩
        rw [executes.step_eq] at stopped
        cases leads : outcome.destination?
          (session.counted left).machine.position with
        | some position =>
          have reached := follow_session (session.counted left) leads
          rw [stopped] at reached
          exact .inr ⟨position, leads, reached⟩
        | none =>
          cases outcome with
          | next => cases leads
          | jump target => cases leads
          | halt =>
            cases stopped
            exact .inl ⟨rfl, rfl⟩

variable {program : Program} {entry : String} {code : Array Quad}
  {segments : List Segment}

/--
A session of a program is still at the instructions for its global variables
or the jump behind them, or is confined to the functions of its frames.
-/
structure OnTrack (program : Program)
    (entry : String)
    (code : Array Quad)
    (segments : List Segment)
    (session : Session) : Prop where
  sameCode : session.machine.code = code
  place : (session.executed ≤ program.globals.length ∧
      session.machine.position = session.executed ∧
        ∃ root, session.machine.frames = [root]) ∨
    (program.globals.length < session.executed ∧
      session.machine.Confined segments entry)

/-- A session that is about to begin is on track. -/
theorem OnTrack.of_load {executable : Executable} {screen : Screen}
    (limit : Option Nat)
    (loaded : Machine.load executable screen = .ok machine) :
    OnTrack program entry executable.code segments { machine, limit } := by
  obtain ⟨_, _, rfl⟩ := Machine.load_ok loaded
  exact ⟨rfl, .inl ⟨Nat.zero_le _, rfl, _, rfl⟩⟩

variable {quad : Quad}

section

variable (outline : Outline program entry code segments)
include outline

/-- An instruction that sets a global variable to zero. -/
theorem OnTrack.zeroes (sameCode : session.machine.code = code)
    (early : session.machine.position < program.globals.length)
    (fetched : session.machine.code[session.machine.position]? = some quad) :
    quad.operation = .init := by
  obtain ⟨_, _, text, length, zeroes, _⟩ := outline.text
  obtain ⟨_, found⟩ := zeroes session.machine.position _
    (List.getElem?_eq_getElem early)
  rw [sameCode, ← Array.getElem?_toList, text,
    List.getElem?_append_left (by rw [length]; exact early), found] at fetched
  cases fetched
  rfl

/-- The jump behind the instructions for the global variables. -/
theorem OnTrack.jumps (sameCode : session.machine.code = code)
    (behind : session.machine.position = program.globals.length)
    (fetched : session.machine.code[session.machine.position]? = some quad) :
    ∃ segment ∈ segments, segment.name = entry ∧
      quad = Context.jump segment.first := by
  obtain ⟨_, _, text, length, _, segment, member, named, rfl⟩ := outline.text
  rw [sameCode, ← Array.getElem?_toList, text, behind, ← length,
    List.getElem?_append_right (Nat.le_refl _), Nat.sub_self] at fetched
  cases fetched
  exact ⟨segment, member, named, rfl⟩

section

variable (onTrack : OnTrack program entry code segments session)
include onTrack

/-- One instruction keeps a session on track, or ends the program. -/
theorem OnTrack.executes (executes : session.Executes quad outcome left) :
    (outcome = .halt ∧ left.frames = []) ∨
      ∃ position, outcome.destination? left.position = some position ∧
        OnTrack program entry code segments
          (session.counted (left.arrived position)) := by
  obtain ⟨codeKept, positionKept⟩ := Exec.code_of_execute executes.ran
  have leftCode : left.code = code := codeKept.trans onTrack.sameCode
  rcases onTrack.place with ⟨early, isExecuted, root, frames⟩ | ⟨late, confined⟩
  · rcases Nat.lt_or_eq_of_le early with before | behind
    · have isInit := zeroes outline onTrack.sameCode
        (by rw [isExecuted]; exact before) executes.fetched
      have straight : quad.operation.isStraight = true := by rw [isInit]; rfl
      have notCall : quad.operation ≠ .call := by
        rw [isInit]; exact Operation.noConfusion
      have notReturn : quad.operation ≠ .ret := by
        rw [isInit]; exact Operation.noConfusion
      have same := Exec.sameControl_of_execute notCall notReturn executes.ran
      rw [Exec.next_of_execute straight notReturn executes.ran]
      refine .inr ⟨left.position + 1, rfl, leftCode,
        .inl ⟨before, ?_, root, ?_⟩⟩
      · change left.position + 1 = session.executed + 1
        rw [positionKept, isExecuted]
      · exact same.frames.trans frames
    · obtain ⟨segment, member, named, rfl⟩ := jumps outline onTrack.sameCode
        (isExecuted.trans behind) executes.fetched
      have ran := executes.ran
      rw [Exec.execute_jump] at ran
      cases ran
      refine .inr ⟨segment.first, rfl, leftCode, .inr ⟨?_, segment, [], ?_, ?_⟩⟩
      · change program.globals.length < session.executed + 1
        rw [behind]
        exact Nat.lt_succ_self _
      · change Owned _ segments entry session.machine.frames [segment]
        rw [frames]
        exact .start member named
      · exact outline.contains_first member
  · have sameOutline : Outline program entry session.machine.code segments := by
      rw [onTrack.sameCode]
      exact outline
    rcases confined.execute sameOutline executes.fetched executes.ran with
      ended | ⟨position, leads, still⟩
    · exact .inl ended
    · exact .inr ⟨position, leads, leftCode,
        .inr ⟨Nat.lt_succ_of_lt late, still⟩⟩

theorem OnTrack.runFor (goesOn : session.runFor fuel = .running last) :
    OnTrack program entry code segments last := by
  refine runFor_invariant _ ?_ onTrack goesOn
  intro before next still stepped
  obtain ⟨_, _, _, _, executes, leads, rfl⟩ := step_running stepped
  rcases still.executes outline executes with ⟨rfl, _⟩ | ⟨_, leadsTo, after⟩
  · cases leads
  · rw [leads] at leadsTo
    cases leadsTo
    exact after

/-- What becomes of a session on track that stops without a fault. -/
theorem OnTrack.stopped (ended : session.runFor fuel = .stopped last none)
    (late : program.globals.length < last.executed) :
    last.machine.Halted ∨ last.machine.Confined segments entry := by
  obtain ⟨_, _, _, reached, stepped⟩ := runFor_stopped ended
  have still := onTrack.runFor outline reached
  rcases step_stopped stepped with ⟨_, rfl⟩ | ⟨_, _, _, executes, ends⟩
  · rcases still.place with ⟨early, _⟩ | ⟨_, confined⟩
    · exact absurd late (Nat.not_lt.mpr early)
    · exact .inr confined
  · rcases still.executes outline executes with ⟨rfl, noFrames⟩
      | ⟨_, leads, after⟩
    · rcases ends with ⟨_, rfl⟩ | ⟨_, leads, _⟩
      · exact .inl ⟨noFrames, rfl⟩
      · cases leads
    · rcases ends with ⟨rfl, _⟩ | ⟨_, leadsTo, rfl⟩
      · cases leads
      · rw [leads] at leadsTo
        cases leadsTo
        rcases after.place with ⟨early, _⟩ | ⟨_, confined⟩
        · exact absurd late (Nat.not_lt.mpr early)
        · exact .inr confined

end

end

end Session

/-- No jump and no call of a program is left without a position. -/
theorem Outline.complete {program : Program} {entry : String}
    {code : Array Quad} {segments : List Segment} {quad : Quad}
    (outline : Outline program entry code segments)
    (member : quad ∈ code.toList) :
    (quad.operation.isJump = true → quad.result ≠ .unused) ∧
      (quad.operation = .call → quad.left ≠ .unused) := by
  have valid : ∀ target : Nat, (target : Address) ≠ .unused := fun target =>
    Int.ne_of_gt (Int.lt_of_lt_of_le (by decide) (Int.natCast_nonneg target))
  obtain ⟨_, start, text, length, zeroes, _⟩ := outline.text
  rw [text, List.mem_append, List.mem_cons, List.mem_flatMap] at member
  rcases member with inZeroing | rfl | ⟨segment, inSegments, inSegment⟩
  · obtain ⟨index, bound, rfl⟩ := List.mem_iff_getElem.mp inZeroing
    obtain ⟨_, found⟩ := zeroes index _
      (List.getElem?_eq_getElem (length ▸ bound))
    rw [List.getElem?_eq_getElem bound] at found
    rw [Option.some.inj found]
    exact ⟨Bool.noConfusion, Operation.noConfusion⟩
  · exact ⟨fun _ => valid start, Operation.noConfusion⟩
  · obtain ⟨_, _, enclosed⟩ := outline.encloses inSegments
    constructor
    · intro isJump
      obtain ⟨target, leads, _⟩ := enclosed.jumps quad inSegment isJump
      rw [leads]
      exact valid target
    · intro isCall
      obtain ⟨index, bound, rfl⟩ := List.mem_iff_getElem.mp inSegment
      have inside : segment.Contains (segment.first + index) :=
        ⟨Nat.le_add_right _ _, Nat.add_lt_add_left bound _⟩
      have found := outline.getElem? inSegments bound
      rw [List.getElem?_eq_getElem bound] at found
      obtain ⟨callee, _, leads⟩ := outline.call_leads inSegments
        inside found isCall
      rw [leads]
      exact valid callee.first

/--
The control flow of a compiled program is closed.  Its code consists of an
instruction for each global variable, a jump and the segments of its functions,
in which every jump and every call has a position to lead to.  Once a session
is past the first jump, it is at a position of the function whose frame is on
top, and every function that waits for a call waits at a call of its own
segment, until the program has come to its end.
-/
theorem Session.confined_of_compile
    {source entry : String} {executable : Executable}
    (compiled : compile source entry = .ok executable) :
    ∃ program segments, Program.parse source = .ok program ∧
      Outline program entry executable.code segments ∧
      (∀ quad ∈ executable.code.toList,
        (quad.operation.isJump = true → quad.result ≠ .unused) ∧
          (quad.operation = .call → quad.left ≠ .unused)) ∧
      ∀ (screen : Screen) (machine : Machine) (limit : Option Nat) (fuel : Nat),
        Machine.load executable screen = .ok machine →
        let progress := ({ machine, limit } : Session).runFor fuel
        progress.fault? = none →
        program.globals.length < progress.session.executed →
          progress.session.machine.Halted ∨
            progress.session.machine.Confined segments entry := by
  obtain ⟨program, parsed, generated⟩ := bind_eq_ok.mp compiled
  obtain ⟨segments, outline⟩ :=
    outline_of_compile (Program.declarable_of_parse parsed) generated
  refine ⟨program, segments, parsed, outline, fun quad => outline.complete, ?_⟩
  intro screen machine limit fuel loaded progress noFault late
  have onTrack : OnTrack program entry executable.code segments
      { machine, limit } :=
    .of_load limit loaded
  cases ran : progress with
  | running last =>
    rw [ran] at late
    rcases (onTrack.runFor outline ran).place with ⟨early, _⟩ | ⟨_, confined⟩
    · exact absurd late (Nat.not_lt.mpr early)
    · exact .inr confined
  | stopped last fault =>
    rw [ran] at late noFault
    cases noFault
    exact onTrack.stopped outline ran late

/-- A loop whose body calls a function that calls itself in a branch. -/
def countdown : String :=
  "program p;var int g;func int f(int n)\x7bif(n<1)\x7breturn 0;\x7dreturn f(n-1)+1;\x7d" ++
    "func void main()\x7bwhile(g<2)\x7bg=f(2);\x7d\x7d"

theorem Session.confined_of_compile_countdown :
    ∃ executable program segments machine session,
      compile countdown "main" = .ok executable ∧
      Outline program "main" executable.code segments ∧
      Machine.load executable {} = .ok machine ∧
      ({ machine } : Session).runFor 18 = .running session ∧
      session.machine.frames.length = 3 ∧
      session.machine.Confined segments "main" := by
  have evaluated : (do
      let program ← (Program.parse countdown).toOption
      let executable ← (program.compile "main").toOption
      let machine ← (Machine.load executable {}).toOption
      let progress := ({ machine } : Session).runFor 18
      some (progress.goesOn, progress.session.executed, program.globals.length,
        progress.session.machine.frames.length)) = some (true, 18, 1, 3) := by
    decide +kernel
  simp only [bind, Option.bind_eq_some_iff, toOption_eq_some, Option.some.injEq,
    Prod.mk.injEq] at evaluated
  obtain ⟨program, parsed, executable, generated, machine, loaded, goesOn,
    executed, globals, depth⟩ := evaluated
  have compiled : compile countdown "main" = .ok executable := by
    rw [compile, parsed]
    exact generated
  have running := Progress.eq_running goesOn
  obtain ⟨_, segments, otherParsed, outline, _, confined⟩ :=
    confined_of_compile compiled
  rw [parsed] at otherParsed
  cases otherParsed
  have late : program.globals.length <
      (({ machine } : Session).runFor 18).session.executed := by
    rw [executed, globals]
    decide
  refine ⟨executable, program, segments, machine, _, compiled, outline, loaded,
    running, depth, ?_⟩
  rcases confined {} machine none 18 loaded (by rw [running]; rfl) late with
    ⟨none, _⟩ | inside
  · rw [none] at depth
    cases depth
  · exact inside

end Easel
