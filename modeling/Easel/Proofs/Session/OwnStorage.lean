import Easel.Proofs.Session.Pointers

/-!
# Compiled code writes its own storage

An instruction in the code of a function changes slots of the global
variables, of the function's own variables, and of the temporaries that were
handed out for it.  A call changes the parameters of the function that it
enters.  A return brings back the storage of the caller and changes the
temporary that the call has for its result.
-/

namespace Easel

variable {slots : Slots} {source : Address} {item : Item} {scene : Scene}
variable {owner : Segment} {owners : List Segment} {session : Session}

/-- The slots of the parameters of a function. -/
def Function.parameterSlots (function : Function) (routine : Routine) :
    Slots := fun slot =>
  ∃ declaration ∈ function.parameters, ∃ address,
    routine.addressOf? declaration.name = some address ∧
      Slots.range address declaration.type.slotCount slot

theorem Machine.writes_init (machine : Machine)
    (address : Address) {type : Ty}
    (fits : type.Fits) :
    (machine.writes (initQuad address type)).Within
      (.range address type.slotCount) := by
  rintro slot (⟨other, _⟩ | ⟨other, _⟩ | ⟨other, _⟩ | ⟨other, _⟩ | ⟨_, member⟩)
  case inr.inr.inr.inr =>
    rwa [initQuad, declaredLength, Element.ofCode?_code, Option.map_some,
      Option.getD_some, Exec.declared_count fits,
      Memory.blockLength_of_small fits.small] at member
  all_goals cases other

theorem Machine.writes_jump (machine : Machine) {quad : Quad}
    (isJump : quad.operation.isJump = true)
    (slot : Address) :
    ¬ machine.writes quad slot := by
  rintro (⟨_, _⟩ | ⟨other, _⟩ | ⟨other, _⟩ | ⟨other, _⟩ | ⟨other, _⟩)
  · cases operation : quad.operation <;>
      simp_all [Operation.isJump, Operation.isResult]
  all_goals
    rw [other] at isJump
    cases isJump

theorem Machine.writes_silent (machine : Machine) {quad : Quad}
    (isSilent : quad.operation.isSilent = true)
    (slots : Slots) :
    (machine.writes quad).Within slots := by
  rintro slot (⟨_, _⟩ | ⟨other, _⟩ | ⟨other, _⟩ | ⟨other, _⟩ | ⟨other, _⟩)
  · cases operation : quad.operation <;>
      simp_all [Operation.isSilent, Operation.isResult]
  all_goals
    rw [other] at isSilent
    cases isSilent

theorem Machine.writes_result (machine : Machine) {quad : Quad}
    (isResult : quad.operation.isResult = true)
    (inside : slots quad.result) :
    (machine.writes quad).Within slots := by
  rintro slot (⟨_, rfl⟩ | ⟨other, _⟩ | ⟨other, _⟩ | ⟨other, _⟩ | ⟨other, _⟩)
  · exact inside
  all_goals
    rw [other] at isResult
    cases isResult

theorem Machine.writes_assign (machine : Machine) {target : Address}
    (inside : (Slots.range target (widthAt source)).Within slots) :
    (machine.writes ⟨.assign, source, .unused, target⟩).Within slots := by
  rintro slot (⟨other, _⟩ | ⟨_, member⟩ | ⟨other, _⟩ | ⟨other, _⟩ | ⟨other, _⟩)
  case inr.inl => exact inside slot member
  all_goals cases other

namespace Plan

/--
An instruction that follows a pointer belongs to an access in the text of a
function.  The pointer is that of the item that the access designates by the
value of its index, and what is accessed lies inside that item.
-/
structure Follows (plan : Plan)
    (function : Function)
    (routine : Routine)
    (machine : Machine)
    (pointer : Address)
    (item : Item) : Prop where
  written : ∃ access ∈ accessesIn function.body,
    (∃ line,
      Scope.resolve ⟨routine.locals, plan.globals⟩ access.name true access.field
      line = .ok item.resolved) ∧
    ∃ index begins ends,
      ExprCode plan.image (routine.context plan.functions plan.globals)
        (.value access.index index) begins ends ∧
      ends.position + 2 = machine.position ∧
      machine.memory.contents index.address = .int item.number
  address : item.resolved.owner.address = some item.first
  inRange : item.resolved.InRange item.number
  points : machine.Points pointer item.address
  inside : item.slots.Within item.element

/--
A return goes back to the function that waits for it.  Storage is as it was
when that function made the call, except for the temporary that takes the
result of the call.
-/
structure ReturnsTo (plan : Plan)
    (routine : Routine)
    (machine after : Machine)
    (callee caller : Frame)
    (outer : List Frame)
    (saved : Snapshot)
    (site : Quad)
    (callingExtent : Extent) : Prop where
  frames : machine.frames = callee :: caller :: outer
  kept : caller.saved = some saved
  called : machine.code[callee.calledFrom]? = some site
  isCall : site.operation = .call
  waits : callingExtent.Contains callee.calledFrom
  housed : ∃ calling callingRoutine,
    plan.Houses calling callingRoutine callingExtent
  restored : after.frames = Exec.resumed caller :: outer
  changes : Memory.ChangesOnly
    (fun slot => Slots.range site.result routine.returns.slotCount slot ∧
      tempSlots callingExtent.temps slot)
    (machine.memory.restore saved) after.memory

/-- What an instruction of a function changes. -/
structure Conduct (plan : Plan)
    (function : Function)
    (routine : Routine)
    (extent : Extent)
    (machine : Machine)
    (quad : Quad) : Prop where
  own : quad.operation ≠ .call → quad.operation ≠ .ret →
    Exec.KeepsAt
      ((plan.globals.slots.union routine.locals.slots).union
        (tempSlots extent.temps))
      machine (Exec.execute quad)
  call : quad.operation = .call →
    ∃ callee ∈ plan.program.functions, ∃ calleeRoutine,
    plan.functions.find? callee.name = some calleeRoutine ∧
    plan.image.entryOf callee.name = some quad.left ∧
    Exec.KeepsAt (callee.parameterSlots calleeRoutine) machine
    (Exec.execute quad)
  ret : quad.operation = .ret →
    (∃ root, machine.frames = [root] ∧
      (Exec.execute quad).leaves machine = { machine with frames := [] }) ∨
    ∃ callee caller outer saved site callingExtent,
      plan.ReturnsTo routine machine ((Exec.execute quad).leaves machine)
        callee caller outer saved site callingExtent
  store : quad.operation = .assignIndex →
    ∃ item, plan.Follows function routine machine quad.result item ∧
      Exec.KeepsAt item.slots machine (Exec.execute quad)
  load : quad.operation = .assignIndexInverse →
    ∃ item, plan.Follows function routine machine quad.left item ∧
      Exec.KeepsAt (.range quad.result item.resolved.type.slotCount) machine
        (Exec.execute quad)

variable {plan : Plan} {function : Function} {routine : Routine}
  {extent : Extent}
variable {machine : Machine} {quad : Quad} {access : Access} {index : Operand}
variable {resolved : Resolved} {pointer : Address} {start stop : Point}

/-- The pointer that an instruction of a function follows. -/
theorem follows_of_reaches (ready : machine.Ready plan.image)
    (reaches : (plan.site function routine extent).Reaches access index resolved
      pointer start stop)
    (here : stop.position = machine.position)
    (has : plan.image.Has machine.position quad)
    (isInner : quad.operation.isInner = true) :
    ∃ item location, item.resolved = resolved ∧
      (routine.context plan.functions plan.globals).Designates access.name
        true access.field item.resolved item.first location ∧
      plan.Follows function routine machine pointer item := by
  obtain ⟨first, location, designates, _⟩ := reaches.pointed.designated
  obtain ⟨number, holds, inRange, points⟩ := ready.computed _ rfl access index
    resolved pointer start stop first quad reaches designates.address here.symm
    (here ▸ has) isInner
  obtain ⟨begins, computed⟩ := reaches.computed
  have two := reaches.pointed.position
  have pointerPlace := reaches.pointed.fresh.basic reaches.aligned (by decide)
  let item : Item := ⟨resolved, first, number⟩
  have chosen : (routine.context plan.functions plan.globals).Designates
      access.name true access.field item.resolved item.first location :=
    designates
  obtain ⟨_, place⟩ := chosen.item_place inRange
  refine ⟨item, location, rfl, chosen, ?_, chosen.address, inRange,
    Exec.fetchPointer_eq pointerPlace.located points place.located,
    chosen.inside_element⟩
  exact ⟨access, reaches.written, chosen.named, index, begins, start,
    computed, by omega, holds⟩

theorem writes_store
    (follows : plan.Follows function routine machine pointer item)
    (width : widthAt source = item.resolved.type.slotCount) :
    (machine.writes ⟨.assignIndex, source, .unused, pointer⟩).Within
      item.slots := by
  rintro slot (⟨isResult, _⟩ | ⟨isAssign, _⟩ | ⟨_, _, points,
    member⟩ | ⟨isLoad, _⟩ | ⟨isInit, _⟩)
  · cases isResult
  · cases isAssign
  · cases points.symm.trans follows.points
    rw [Item.slots, ← width]
    exact member
  · cases isLoad
  · cases isInit

theorem writes_load {value : Address}
    (follows : plan.Follows function routine machine pointer item)
    (width : widthAt item.address = item.resolved.type.slotCount) :
    (machine.writes ⟨.assignIndexInverse, pointer, .unused, value⟩).Within
      (.range value item.resolved.type.slotCount) := by
  rintro slot (⟨isResult, _⟩ | ⟨isAssign, _⟩ | ⟨isStore, _⟩ | ⟨_, _,
    points, member⟩ | ⟨isInit, _⟩)
  · cases isResult
  · cases isAssign
  · cases isStore
  · cases points.symm.trans follows.points
    exact width ▸ member
  · cases isInit

section

variable (ready : machine.Ready plan.image)
  (has : plan.image.Has machine.position quad)
  (role : Role (plan.site function routine extent) machine.position quad)
include ready has role

/-- An instruction that is no call or return writes its function's storage. -/
theorem writes_within (notCall : quad.operation ≠ .call)
    (notReturn : quad.operation ≠ .ret) :
    (machine.writes quad).Within (plan.site function routine extent).owned := by
  have temps := (plan.site function routine extent).temps_within
  cases role with
  | silent isSilent => exact machine.writes_silent isSilent _
  | result isResult plain inside =>
    exact machine.writes_result isResult (temps _ inside)
  | assign inside => exact machine.writes_assign inside
  | init fits inside => exact (machine.writes_init _ fits).trans inside
  | point reaches here =>
    exact machine.writes_result rfl (temps _ (tempSlots_within reaches.bounded _
      (reaches.pointed.fresh.inside (by decide) _ (Slots.range_one _))))
  | load reaches here inside =>
    obtain ⟨item, location, rfl, designates, follows⟩ :=
      follows_of_reaches ready reaches here has rfl
    obtain ⟨_, place⟩ := designates.item_place follows.inRange
    exact ((writes_load follows (place.widthAt reaches.pointed.single)).trans
      inside).trans temps
  | store reaches here width =>
    obtain ⟨item, location, rfl, designates, follows⟩ :=
      follows_of_reaches ready reaches here has rfl
    have owned :
        (Slots.range item.first item.resolved.owner.type.slotCount).Within
        (plan.site function routine extent).owned :=
      Context.Designates.owned designates
    exact ((writes_store follows width).trans
      (designates.inside_owner follows.inRange)).trans owned
  | jump isJump =>
    exact fun slot member => (machine.writes_jump isJump slot member).elim
  | call => exact (notCall rfl).elim
  | ret => exact (notReturn rfl).elim

/-- A value is stored in the item that an access designates. -/
theorem stores_of_role (isStore : quad.operation = .assignIndex) :
    ∃ item, plan.Follows function routine machine quad.result item ∧
      Exec.KeepsAt item.slots machine (Exec.execute quad) := by
  cases role with
  | store reaches here width =>
    obtain ⟨item, _, rfl, _, follows⟩ :=
      follows_of_reaches ready reaches here has rfl
    exact ⟨item, follows, (Exec.execute_keeps machine (by simp) (by simp)).mono
      (writes_store follows width)⟩
  | silent isSilent =>
    rw [isStore] at isSilent
    cases isSilent
  | result isResult =>
    rw [isStore] at isResult
    cases isResult
  | jump isJump =>
    rw [isStore] at isJump
    cases isJump
  | assign | init | point | load | call | ret => cases isStore

/-- A value is loaded from the item that an access designates. -/
theorem loads_of_role (isLoad : quad.operation = .assignIndexInverse) :
    ∃ item, plan.Follows function routine machine quad.left item ∧
      Exec.KeepsAt (.range quad.result item.resolved.type.slotCount) machine
        (Exec.execute quad) := by
  cases role with
  | load reaches here inside =>
    obtain ⟨item, _, rfl, designates, follows⟩ :=
      follows_of_reaches ready reaches here has rfl
    obtain ⟨_, place⟩ := designates.item_place follows.inRange
    exact ⟨item, follows, (Exec.execute_keeps machine (by simp) (by simp)).mono
      (writes_load follows (place.widthAt reaches.pointed.single))⟩
  | silent isSilent =>
    rw [isLoad] at isSilent
    cases isSilent
  | result isResult =>
    rw [isLoad] at isResult
    cases isResult
  | jump isJump =>
    rw [isLoad] at isJump
    cases isJump
  | assign | init | point | store | call | ret => cases isLoad

end

/-! ## Calls and returns -/

theorem Valid.enters (valid : plan.Valid)
    (sameFunctions : scene.functions = plan.functions)
    (sameImage : scene.image = plan.image)
    (sound : scene.Sound machine)
    (fetched : machine.code[machine.position]? = some quad)
    (isCall : quad.operation = .call) :
    ∃ callee ∈ plan.program.functions, ∃ calleeRoutine,
      plan.functions.find? callee.name = some calleeRoutine ∧
      plan.image.entryOf callee.name = some quad.left ∧
      Exec.KeepsAt (callee.parameterSlots calleeRoutine) machine
        (Exec.execute quad) := by
  obtain ⟨name, calleeRoutine, _, _, _, _, found, located, fetchedCall, _,
    carries, runs⟩ := ((sound.sees fetched isCall).enters _ fetched isCall).1
  rw [fetched] at fetchedCall
  cases fetchedCall
  rw [sameFunctions] at found
  rw [sameImage] at located
  obtain ⟨callee, member, rfl, _, laid⟩ :=
    valid.linked.routines name calleeRoutine found
  have declarable : ∀ type ∈ calleeRoutine.parameters, type.Declarable :=
      fun type inside =>
    ((laid.arranged.signatures _ calleeRoutine found).2 type
      inside).toDeclarable
  refine ⟨callee, member, calleeRoutine, found, located, ?_⟩
  unfold Exec.KeepsAt
  rw [Exec.leaves_of_ok (Scene.execute_enter runs
    (carries.deliverable declarable))]
  intro slot outside region
  exact Memory.bank_deliver_outside
    (fun awaited => outside (laid.awaited carries awaited)) region

/-- A value that is handed over changes as many slots as it has. -/
theorem changesOnly_handOver {before memory after : Memory}
    {address result : Address} {values : Option (List Value)}
    (handed : Exec.handedBack memory address = .ok values)
    (stored : Exec.handOver result values before = .ok () after)
    (inside : address ≠ .unused → result ≠ .unused →
      (Slots.range result (widthAt address)).Within slots) :
    Memory.ChangesOnly slots before after := by
  unfold Exec.handedBack at handed
  split at handed
  · cases handed
    cases stored
    exact .refl slots before
  · rename_i hasValue
    cases read : memory.readWhole address with
    | error fault => simp [read, Functor.map, Except.map] at handed
    | ok found =>
      simp only [read, Functor.map, Except.map, Except.ok.injEq] at handed
      subst values
      simp only [Exec.handOver] at stored
      split at stored
      · cases stored
        exact .refl slots before
      · rename_i hasResult
        obtain ⟨location, located, length⟩ := Memory.length_of_readWhole read
        have width : widthAt address = found.length := by
          simp [widthAt, located, length]
        have within := width ▸ inside hasValue hasResult
        intro slot outside region
        exact Memory.bank_writeBlock_outside region stored
          (Slots.outside_range fun member => outside (within slot member))

/-- A return to a caller writes the temporary of the call. -/
theorem Valid.returns {outcome : Outcome} {left : Machine}
    (valid : plan.Valid)
    (sameCode : machine.code = plan.image.code)
    (houses : plan.Houses function routine extent)
    (isOwner : extent.first = owner.first)
    (owned : Owned machine.code plan.segments plan.entry machine.frames
      (owner :: owners))
    (handed : quad.result = .unused ∨
      widthAt quad.result = routine.returns.slotCount)
    (isReturn : quad.operation = .ret)
    (ran : Exec.execute quad machine = .ok outcome left) :
    (∃ root, machine.frames = [root] ∧ left = { machine with frames := [] }) ∨
    ∃ callee caller outer saved site callingExtent,
      plan.ReturnsTo routine machine left callee caller outer saved site
        callingExtent := by
  rw [Exec.execute_ret isReturn] at ran
  rcases Exec.leave_ok ran with
    ⟨callee, frames, _, rfl⟩ |
    ⟨callee, caller, outer, saved, site, values, memory, frames, kept, called,
      read, stored, _, rfl⟩
  · exact .inl ⟨callee, frames, rfl⟩
  · right
    rw [frames] at owned
    cases owned with
    | @call _ _ _ _ calling _ found callerOwned calledAt isCall
        inside _ leads =>
      rw [called] at calledAt
      cases calledAt
      obtain ⟨waiting, waitingRoutine, waitingExtent, waitingHouses,
          _, contains⟩ :=
        valid.inside callerOwned.member inside
      refine ⟨callee, caller, outer, saved, site, waitingExtent, frames, kept,
        called, isCall, contains, ⟨waiting, waitingRoutine, waitingHouses⟩,
        rfl, ?_⟩
      refine changesOnly_handOver read stored ?_
      intro hasValue hasResult slot member
      rw [handed.resolve_left hasValue] at member
      refine ⟨member, ?_⟩
      -- The call that waits was generated for the function that returns.
      obtain ⟨_, _, isFound, located, _, received⟩ :=
        (valid.role waitingHouses contains
          (Image.has_of_code sameCode called)).of_call isCall
      have startsHere : plan.image.entryOf function.name = some site.left := by
        rw [leads, ← isOwner]
        exact houses.located
      cases valid.linked.apart _ _ _ located startsHere
      cases isFound.symm.trans houses.found
      exact received.resolve_left hasResult slot member

/-- What an instruction of a function changes, wherever a session gets to it. -/
theorem Valid.conduct (valid : plan.Valid)
    (sameFunctions : scene.functions = plan.functions)
    (sameImage : scene.image = plan.image)
    (prepared : session.Prepared plan scene)
    (houses : plan.Houses function routine extent)
    (isOwner : extent.first = owner.first)
    (owned : Owned session.machine.code plan.segments plan.entry
      session.machine.frames (owner :: owners))
    (inside : extent.Contains session.machine.position)
    (fetched : session.machine.code[session.machine.position]? = some quad) :
    plan.Conduct function routine extent session.machine quad := by
  have sameCode := prepared.onTrack.sameCode
  have has := Image.has_of_code sameCode fetched
  have role := valid.role houses inside has
  refine ⟨?_, ?_, ?_, ?_, ?_⟩
  · intro notCall notReturn
    exact (Exec.execute_keeps session.machine notCall notReturn).mono
      (writes_within prepared.ready has role notCall notReturn)
  · exact valid.enters sameFunctions sameImage prepared.sound fetched
  · intro isReturn
    obtain ⟨_, _, ran⟩ := prepared.sound.returns fetched isReturn
    rw [Exec.leaves_of_ok ran]
    exact valid.returns sameCode houses isOwner owned (role.of_return isReturn)
      isReturn ran
  · exact stores_of_role prepared.ready has role
  · exact loads_of_role prepared.ready has role

end Plan

/-- An instruction in front of the functions changes global variables. -/
theorem Session.OnTrack.changes_globals {plan : Plan} {quad : Quad}
    (valid : plan.Valid)
    (onTrack : session.OnTrack plan.program plan.entry plan.image.code
      plan.segments)
    (early : session.machine.position ≤ plan.program.globals.length)
    (fetched : session.machine.code[session.machine.position]? = some quad) :
    Exec.KeepsAt plan.globals.slots session.machine (Exec.execute quad) := by
  rcases Nat.lt_or_eq_of_le early with before | behind
  · have count : plan.globals.entries.length = plan.program.globals.length := by
      have typed := congrArg List.length valid.linked.declaredGlobals
      simpa [Easel.typed, typedDeclarations] using typed
    rw [← count] at before
    have entry := List.getElem?_eq_getElem before
    obtain ⟨address, hasAddress, has⟩ := valid.linked.zeroed _ _ _ entry
    have known := Table.find?_of_getElem? valid.linked.uniqueGlobals entry
    obtain ⟨routine, found, _⟩ := valid.linked.starts
    obtain ⟨_, _, _, _, laid⟩ := valid.linked.routines _ routine found
    obtain ⟨fits, _⟩ := place_of_find? laid.arranged.globals
      laid.arranged.fitGlobals known
    cases Option.some.inj
      ((Image.has_of_code onTrack.sameCode fetched).symm.trans has)
    refine (Exec.execute_keeps session.machine (by simp [initQuad])
      (by simp [initQuad])).mono ?_
    intro slot member
    exact ⟨_, _, address, known, hasAddress,
      session.machine.writes_init address fits slot member⟩
  · obtain ⟨_, _, _, rfl⟩ := jumps valid.outline onTrack.sameCode behind fetched
    refine (Exec.execute_keeps session.machine (by simp [Context.jump])
      (by simp [Context.jump])).mono ?_
    exact fun slot member => (session.machine.writes_jump rfl slot member).elim

/--
Compiled code writes only its own storage.  Wherever a session of a compiled
program gets to, its next instruction is one of those in front of the
functions, which change nothing but global variables, or belongs to the extent
of a function.  An instruction of a function changes slots of global variables,
of the function's own parameters and variables, and of the temporaries that
were handed out for it, except that a call changes the parameters of the
function that it enters, and a return brings back the storage of the caller and
changes the temporary for its result.  An instruction that follows a pointer
follows it to the item that an access in the text of the function designates.
-/
theorem Session.writes_own_storage {source entry : String} {program : Program}
    {executable : Executable} {screen : Screen} {machine : Machine}
    {limit : Option Nat} {moment : Nat} {session : Session} {quad : Quad}
    (parsed : Program.parse source = .ok program)
    (listsFit : program.ListsFit)
    (compiled : program.compile entry = .ok executable)
    (loaded : Machine.load executable screen = .ok machine)
    (reached : Session.runFor moment { machine, limit } = .running session)
    (fetched : session.machine.code[session.machine.position]? = some quad) :
    ∃ (placed : Checked) (image : Image) (segments : List Segment),
      let plan : Plan :=
  ⟨program, entry, image, placed.functions, placed.globals, segments⟩
      program.layout? entry = some placed ∧ image.code = executable.code ∧
      image.constants = executable.constants ∧
      ((session.machine.position ≤ program.globals.length ∧
        Exec.KeepsAt placed.globals.slots session.machine (Exec.execute quad)) ∨
      ∃ function routine extent, plan.Houses function routine extent ∧
        extent.Contains session.machine.position ∧
        plan.Conduct function routine extent session.machine quad) := by
  obtain ⟨image, placed, segments, layout, sameCode, sameConstants,
      valid, begins⟩ :=
    Plan.of_compile limit parsed listsFit compiled loaded
  have prepared := begins.runFor valid reached
  refine ⟨placed, image, segments, layout, sameCode, sameConstants, ?_⟩
  rcases prepared.onTrack.place with ⟨early, isExecuted, _⟩
    | ⟨_, _, _, owned, contains⟩
  · rw [← isExecuted] at early
    exact .inl ⟨early, prepared.onTrack.changes_globals valid early fetched⟩
  · right
    obtain ⟨function, routine, extent, houses, isOwner, inside⟩ :=
      valid.inside owned.member contains
    exact ⟨function, routine, extent, houses, inside,
      valid.conduct rfl rfl prepared houses isOwner owned inside fetched⟩

/-- A function that sets an attribute of the item at its parameter. -/
def indexedAttribute : String :=
  "program p;func int f(int n)\x7bvar circle[2]c;c[n].x=n;return n;\x7d" ++
    "func void main()\x7bwrite f(1);\x7d"

theorem Session.writes_own_storage_indexedAttribute :
    ∃ (program : Program) (executable : Executable) (machine : Machine)
      (session : Session) (quad : Quad),
      Program.parse indexedAttribute = .ok program ∧ program.ListsFit ∧
      program.compile "main" = .ok executable ∧
        Machine.load executable {} = .ok machine ∧
      Session.runFor 7 { machine } = .running session ∧
      session.machine.code[session.machine.position]? = some quad ∧
      quad.operation = .assignIndex ∧
      ∃ (placed : Checked) (image : Image) (segments : List Segment),
        let plan : Plan :=
  ⟨program, "main", image, placed.functions, placed.globals, segments⟩
        program.layout? "main" = some placed ∧ image.code = executable.code ∧
        image.constants = executable.constants ∧
        ((session.machine.position ≤ program.globals.length ∧
          Exec.KeepsAt placed.globals.slots session.machine
          (Exec.execute quad)) ∨
        ∃ function routine extent, plan.Houses function routine extent ∧
          extent.Contains session.machine.position ∧
          plan.Conduct function routine extent session.machine quad) := by
  have evaluated : (do
      let program ← (Program.parse indexedAttribute).toOption
      let executable ← (program.compile "main").toOption
      let machine ← (Machine.load executable {}).toOption
      let last := ({ machine } : Session).runFor 7
      let quad ← last.session.machine.code[last.session.machine.position]?
      if program.ListsFit ∧ last.goesOn ∧
          quad.operation = Operation.assignIndex then
        some (program, executable, machine, last.session, quad)
      else none).isSome = true := by
    decide +kernel
  simp only [Option.isSome_iff_exists, bind, Option.bind_eq_some_iff,
    toOption_eq_some, Option.ite_none_right_eq_some] at evaluated
  obtain ⟨_, program, parsed, executable, compiled, machine, loaded,
    quad, fetched, ⟨listsFit, goesOn, isStore⟩, _⟩ := evaluated
  have reached := Progress.eq_running goesOn
  exact ⟨program, executable, machine, _, quad, parsed, listsFit, compiled,
    loaded, reached, fetched, isStore,
    writes_own_storage parsed listsFit compiled loaded reached fetched⟩

end Easel
