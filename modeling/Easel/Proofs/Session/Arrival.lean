import Easel.Proofs.Session.Accounts

/-!
# Arguments arrive

When a call has been made, each parameter of the function holds what its
argument was when it was passed.  The parameters do not overlap, and nothing
else has changed in memory.
-/

namespace Easel

/-- The storage of a local variable of a function. -/
def Routine.addressOf? (routine : Routine) (name : String) : Option Address :=
  (routine.locals.find? name).bind (·.address)

/-- A call: the function, its tables, its arguments in text and code. -/
structure Call where
  callee : Function
  routine : Routine
  arguments : List Expr
  passages : List Passage

/-- The call is written in a program; its arguments lead to a position. -/
structure Call.Written (call : Call)
    (program : Program)
    (functions : Table Routine)
    (globals : Table Variable)
    (image : Image)
    (position : Nat) : Prop where
  declared : call.callee ∈ program.functions
  known : functions.find? call.callee.name = some call.routine
  code : ∃ caller ∈ program.functions, ∃ routine line begins ends,
    functions.find? caller.name = some routine ∧
    Expr.call call.callee.name call.arguments line ∈ partsIn caller.body ∧
    Passages image (routine.context functions globals) call.arguments
      (call.callee.parameters.map (·.type)) call.passages begins ends ∧
    ends.position = position

/--
A session makes the call at a moment, and memory changes as the call says.  A
parameter holds in all its slots what its argument was when it was passed; from
then on the call has been waiting to be made.
-/
structure Call.Delivers (call : Call)
    (start : Session)
    (moment : Nat)
    (before after : Machine) : Prop where
  arrived : ∀ (index : Nat) (declaration : Declaration),
    call.callee.parameters[index]? = some declaration →
    ∃ address location passage earlier,
      call.routine.addressOf? declaration.name = some address ∧
      Place address declaration.type location ∧ location.region = .local ∧
      call.passages[index]? = some passage ∧
        passage.parameter = declaration.type ∧
      earlier < moment ∧ start.Pends earlier moment before.pending.length ∧
      start.Passes earlier before.pending.length index passage
        (after.memory.block address declaration.type.slotCount)
  apart : ∀ (index other : Nat) (declaration another : Declaration)
    (address otherAddress : Address), index < other →
    call.callee.parameters[index]? = some declaration →
    call.callee.parameters[other]? = some another →
    call.routine.addressOf? declaration.name = some address →
    call.routine.addressOf? another.name = some otherAddress →
    (Slots.range address declaration.type.slotCount).Apart
      (.range otherAddress another.type.slotCount)
  outside : ∀ (region : Region) (slot : Address),
    (∀ declaration ∈ call.callee.parameters, ∀ address,
      call.routine.addressOf? declaration.name = some address →
        ¬ Slots.range address declaration.type.slotCount slot) →
    (after.memory.bank region)[slot]? = (before.memory.bank region)[slot]?

section

variable {function : Function} {routine : Routine} {image : Image}
variable {functions : Table Routine} {globals : Table Variable} {start : Nat}
  {frame : Frame}

section

variable (laid : function.Laid routine image functions globals start)
  (carries : frame.Carries routine.parameters)
include laid carries

/-- An argument waits for the storage of its parameter. -/
theorem Function.Laid.waits {index : Nat} {declaration : Declaration}
    (listed : function.parameters[index]? = some declaration) :
    ∃ address values, routine.addressOf? declaration.name = some address ∧
      frame.staged[index]? = some (address, values) ∧
      values.length = declaration.type.slotCount ∧
      Space.Answers .local declaration.type
        (slotsOf (routine.parameters.take index) declaration.type.element)
          address := by
  obtain ⟨_, address, isFound, _, hasAddress, answers⟩ := laid.parameter listed
  have parameterListed : routine.parameters[index]? =
      some declaration.type := by
    rw [laid.parameters, List.getElem?_map, listed]
    rfl
  obtain ⟨_, values, waits, waitingAnswers, suits⟩ :=
    carries.arguments index declaration.type parameterListed
  cases answers.unique waitingAnswers
  refine ⟨address, values, ?_, waits, suits.length, answers⟩
  rw [Routine.addressOf?, isFound]
  exact hasAddress

/-- A slot for which an argument waits belongs to a parameter. -/
theorem Function.Laid.awaited {slot : Address}
    (awaited : Memory.stagedSlots frame.staged slot) :
    ∃ declaration ∈ function.parameters, ∃ address,
      routine.addressOf? declaration.name = some address ∧
      Slots.range address declaration.type.slotCount slot := by
  obtain ⟨address, _, member, inside⟩ := awaited
  obtain ⟨index, entry⟩ := List.getElem?_of_mem member
  have bound : index < function.parameters.length := by
    have counted := carries.count
    rw [laid.parameters, List.length_map] at counted
    rw [← counted]
    exact (List.getElem?_eq_some_iff.mp entry).1
  obtain ⟨_, _, isOwn, waits, length, _⟩ :=
    laid.waits carries (List.getElem?_eq_getElem bound)
  rw [entry] at waits
  cases waits
  exact ⟨_, List.getElem_mem bound, address, isOwn, length ▸ inside⟩

end

end

/-! ## Runs -/

/-- Memory is in order wherever a sound machine goes on. -/
theorem Scene.Sound.kinded {scene : Scene} {machine next : Machine}
    (sound : scene.Sound machine)
    (continues : machine.Continues next) :
    machine.memory.Kinded := by
  obtain ⟨_, _, _, _, fetched, ran, leads, _⟩ := continues
  obtain ⟨_, found, ⟨_, _, _, _, _, kinded⟩ | ⟨halts, _⟩ | ⟨_, _, _, _, _,
    sees⟩⟩ := sound.fetches
  · exact kinded
  · cases fetched.symm.trans found
    cases ran.symm.trans halts
    cases leads
  · exact sees.intact.kinded

section

variable {line : Timeline} {moment since base start : Nat} {machine : Machine}
variable {call : Call} {activation : Activation} {frame : Frame}
variable {image : Image} {functions : Table Routine} {globals : Table Variable}

/-- A call that is made with an account of its arguments delivers them. -/
theorem Call.delivers_of_account {context : Context} {begins ends : Point}
    (laid : call.callee.Laid call.routine image functions globals start)
    (declarable : ∀ type ∈ call.routine.parameters, type.Declarable)
    (carries : frame.Carries call.routine.parameters)
    (code : Passages image context call.arguments call.routine.parameters
      call.passages begins ends)
    (account : line.Account base since activation.pending.length frame
      call.passages)
    (already : since ≤ moment)
    (waits : line.start.Pends since moment (activation.pending.length + 1))
    (pending : machine.pending = frame :: activation.pending) :
    call.Delivers line.start moment machine
      (Scene.entering machine activation frame) := by
  have depth : machine.pending.length = activation.pending.length + 1 := by
    rw [pending, List.length_cons]
  refine ⟨?_, ?_, ?_⟩
  · intro index declaration listed
    obtain ⟨address, values, hasAddress, entry, _, answers⟩ :=
      laid.waits carries listed
    have typeListed : call.routine.parameters[index]? =
        some declaration.type := by
      rw [laid.parameters, List.getElem?_map, listed]
      rfl
    obtain ⟨passage, passed, isFor⟩ := code.getElem? typeListed
    obtain ⟨earlier, _, _, isEarlier, waited, staged, passes⟩ :=
      account.entries index passage passed
    rw [entry] at staged
    cases staged
    have place := answers.place
      (declarable _ (List.mem_of_getElem? typeListed)).slotCount_pos
      fun object => slotsOf_aligned _ object
    refine ⟨address, _, passage, earlier, hasAddress, place, rfl, passed, isFor,
      Nat.lt_of_lt_of_le isEarlier already, ?_, ?_⟩
    · rw [depth]
      exact waited.trans waits (Nat.le_succ _)
    · have holds := carries.block_deliver declarable typeListed entry
        machine.memory
      rw [depth]
      exact holds ▸ passes
  · intro index other declaration another address otherAddress isBefore
      listed otherListed hasAddress otherHas
    obtain ⟨_, values, own, entry, length, _⟩ := laid.waits carries listed
    obtain ⟨_, _, otherOwn, otherEntry, otherLength, _⟩ :=
      laid.waits carries otherListed
    cases hasAddress.symm.trans own
    cases otherHas.symm.trans otherOwn
    obtain ⟨bound, isEntry⟩ := List.getElem?_eq_some_iff.mp entry
    obtain ⟨otherBound, isOther⟩ := List.getElem?_eq_some_iff.mp otherEntry
    have apart := List.pairwise_iff_getElem.mp carries.apart index other bound
      otherBound isBefore
    rw [isEntry, isOther] at apart
    dsimp only at apart
    rwa [length, otherLength] at apart
  · intro region slot outside
    refine Memory.bank_deliver_outside ?_ region
    intro awaited
    obtain ⟨declaration, isParameter, address, hasAddress, inside⟩ :=
      laid.awaited carries awaited
    exact outside declaration isParameter address hasAddress inside

/-- A call with an account is in the program and delivers its arguments. -/
theorem Timeline.Calls.made {entry : String} {quad : Quad}
    (linked : Linked line.program entry line.image line.functions line.globals)
    (fetched : machine.code[machine.position]? = some quad)
    (calls : line.Calls moment machine) :
    ∃ (call : Call) (after : Machine),
      call.Written line.program line.functions line.globals line.image
        machine.position ∧
      line.image.entryOf call.callee.name = some quad.left ∧
      Exec.execute quad machine = .ok (.jump quad.left.toNat) after ∧
      call.Delivers line.start moment machine after := by
  obtain ⟨found, located, fetchedCall, frames, pending, carries, written, code,
    reached, account, already, waits⟩ := calls
  rename_i name routine position result activation frame context arguments
    textLine base since passages begins ends
  rw [fetched] at fetchedCall
  cases fetchedCall
  obtain ⟨function, member, rfl, start, laid⟩ :=
    linked.routines name routine found
  have declarable : ∀ type ∈ routine.parameters, type.Declarable :=
      fun type inside =>
    ((laid.arranged.signatures _ routine found).2 type inside).toDeclarable
  have executed : Exec.execute ⟨.call, (position : Int), .unused, result⟩
      machine =
        .ok (.jump position) (Scene.entering machine activation frame) := by
    rw [Exec.execute_call rfl,
      Exec.enter_eq (Int.natCast_nonneg position) pending frames,
      Memory.writeArguments_eq (carries.deliverable declarable)]
    rfl
  obtain ⟨caller, isCaller, callerRoutine, callerFound, rfl, inside⟩ := written
  have delivers : Call.Delivers ⟨function, routine, arguments, passages⟩
      line.start moment machine (Scene.entering machine activation frame) :=
    Call.delivers_of_account laid declarable carries code account
      already waits pending
  rw [laid.parameters] at code
  exact ⟨⟨function, routine, arguments, passages⟩, _,
    ⟨member, found, caller, isCaller, callerRoutine, textLine, begins, ends,
      callerFound, inside, code, reached⟩,
    located, executed, delivers⟩

end

/--
Arguments arrive in the parameters of the function that is called.  Wherever a
session of a compiled program gets to a call, the call is one that is written
in the program, and it is carried out.  Right after it each parameter holds,
in all the slots that the layout gave it, what its argument was when it was
passed; the slots of different parameters are apart, and every other slot is
as it was before.
-/
theorem Session.arguments_arrive {source entry : String} {program : Program}
    {executable : Executable} {screen : Screen} {machine : Machine}
    {limit : Option Nat} {moment : Nat} {session : Session} {quad : Quad}
    (parsed : Program.parse source = .ok program)
    (listsFit : program.ListsFit)
    (compiled : program.compile entry = .ok executable)
    (loaded : Machine.load executable screen = .ok machine)
    (reached : Session.runFor moment { machine, limit } = .running session)
    (fetched : session.machine.code[session.machine.position]? = some quad)
    (isCall : quad.operation = .call) :
    ∃ (placed : Checked) (image : Image) (call : Call) (after : Machine),
      program.layout? entry = some placed ∧ image.code = executable.code ∧
      image.constants = executable.constants ∧
      call.Written program placed.functions placed.globals image
        session.machine.position ∧
      program.positionOf? entry call.callee.name = some quad.left ∧
      Exec.execute quad session.machine = .ok (.jump quad.left.toNat) after ∧
      call.Delivers { machine, limit } moment session.machine after := by
  obtain ⟨image, placed, layout, sameCode, sameConstants, positions, linked⟩ :=
    linked_of_layout (Program.declarable_of_parse parsed) listsFit compiled
  have sound := linked.sound sameCode sameConstants loaded
  let line : Timeline :=
    { start := { machine, limit }
      program, image
      functions := placed.functions
      globals := placed.globals
      kinded := by
        rintro earlier before next ⟨passed, ran, rfl⟩ reachedNext
        exact (sound_of_runFor sound ran).kinded
          (At.continues ⟨passed, ran, rfl⟩ reachedNext) }
  have begins : line.Stands 0 ⟨Machine.rootFrame image.code, [], [], rfl⟩ 0
      0 machine := by
    have started := (linked.loaded sameConstants loaded).1
    rw [← sameCode] at started
    refine ⟨⟨_, rfl, rfl⟩, ?_, ?_, ?_, ?_, Nat.le_refl _, fun _ _ _ _ _ =>
      Nat.zero_le _⟩
    all_goals
      rw [started]
      rfl
  have calls := Timeline.accounts_of_linked linked begins
    ⟨session, reached, rfl⟩ quad fetched isCall
  obtain ⟨call, after, written, located, executed, delivers⟩ :=
    calls.made linked fetched
  exact ⟨placed, image, call, after, layout, sameCode, sameConstants, written,
    (positions _).symm.trans located, executed, delivers⟩

/-- A call in a call, with an integer for a `Float`, an object and a list. -/
def nestedArguments : String :=
  "program p;func int add(int a,float b,circle c,int[2]w)\x7breturn a+w[1];\x7d" ++
    "func void main()\x7bvar circle c;var int[2]w;c.x=4;w[1]=5;" ++
    "write add(add(1,2,c,w),3,c,w);\x7d"

theorem Session.arguments_arrive_nestedArguments :
    ∃ (program : Program) (executable : Executable) (machine : Machine)
      (session : Session) (quad : Quad),
      Program.parse nestedArguments = .ok program ∧ program.ListsFit ∧
      program.compile "main" = .ok executable ∧
        Machine.load executable {} = .ok machine ∧
      Session.runFor 25 { machine } = .running session ∧
      session.machine.code[session.machine.position]? = some quad ∧
        quad.operation = .call ∧
      ∃ (placed : Checked) (image : Image) (call : Call) (after : Machine),
        program.layout? "main" = some placed ∧ image.code = executable.code ∧
        image.constants = executable.constants ∧
        call.Written program placed.functions placed.globals image
          session.machine.position ∧
        program.positionOf? "main" call.callee.name = some quad.left ∧
        Exec.execute quad session.machine = .ok (.jump quad.left.toNat) after ∧
        call.Delivers { machine } 25 session.machine after := by
  have evaluated : (do
      let program ← (Program.parse nestedArguments).toOption
      let executable ← (program.compile "main").toOption
      let machine ← (Machine.load executable {}).toOption
      let last := ({ machine } : Session).runFor 25
      let quad ← last.session.machine.code[last.session.machine.position]?
      if program.ListsFit ∧ last.goesOn ∧ quad.operation = Operation.call then
        some (program, executable, machine, last.session, quad)
      else none).isSome = true := by
    decide +kernel
  simp only [Option.isSome_iff_exists, bind, Option.bind_eq_some_iff,
    toOption_eq_some, Option.ite_none_right_eq_some] at evaluated
  obtain ⟨_, program, parsed, executable, compiled, machine, loaded,
    quad, fetched, ⟨listsFit, goesOn, isCall⟩, _⟩ := evaluated
  have reached := Progress.eq_running goesOn
  exact ⟨program, executable, machine, _, quad, parsed, listsFit, compiled,
    loaded, reached, fetched, isCall,
    arguments_arrive parsed listsFit compiled loaded reached fetched isCall⟩

end Easel
