import Easel.Proofs.Code.Operands
import Easel.Proofs.Lockstep.Basic

/-!
# Calls in lockstep

Two machines that call the same function with the same arguments stay in
lockstep if the bodies of functions are in lockstep for fewer steps.  When the
function has returned, the machines hold the same in the slots in which they
did before the call, and in the slot for the result.
-/

namespace Easel

variable {address : Address} {machine : Machine} {activation : Activation}
variable {returns : Ty} {values : Option (List Value)}

/-- A function that waited for a call goes on as it was. -/
theorem Activation.resumed_suspended (activation : Activation)
    (memory : Memory) :
    Exec.resumed (Exec.suspended activation.running memory) =
      activation.running := by
  have noneSaved := activation.unsaved
  cases running : activation.running
  rw [running] at noneSaved
  cases noneSaved
  rfl

namespace Scene

variable (scene : Scene)

/-- The slots on which the runs agree in any case. -/
structure Wide (slots : Slots) : Prop where
  every : scene.settled = none → ∀ slot, slots slot
  shared : ∀ address location, locate? address = some location →
    location.region.isPrivate = false → slots address

/-- Both invocations have at least the frames that the returns leave. -/
structure Deep (active : Activation × Activation) : Prop where
  firstDeep : scene.base.1.length ≤ active.1.frames.length
  secondDeep : scene.base.2.length ≤ active.2.frames.length

/--
What a function returns: a value of its type that both machines hold, or
nothing.  It returns nothing if it has no value to return, if the value is not
needed, or if the machines agree on all slots anyway.
-/
inductive Hands (returns : Ty) (needed : Bool) (slots : Slots) :
    Address → Prop where
  | nothing (absent : returns.isVoid = true ∨ needed = false ∨
      scene.settled = none) : Hands returns needed slots .unused
  | value {address : Address} {type : Ty} {location : Location}
      (stored : returns.isVoid = false)
      (place : Place address type location)
      (accepts : returns.accepts type = true)
      (known : (Slots.range address type.slotCount).Within slots) :
      Hands returns needed slots address

/-- Machines that return from a function are in lockstep. -/
def Returning (count : Nat)
    (active : Activation × Activation)
    (returns : Ty)
    (needed : Bool) : Prop :=
  ∀ position address slots,
    scene.image.Has position ⟨.ret, .unused, .unused, address⟩ →
    scene.Hands returns needed slots address →
    scene.Onward count position active slots

/-- Machines that entered a function with equal arguments are in lockstep. -/
def CallsOnward (count : Nat) : Prop :=
  ∀ (name : String) (routine : Routine) (entry : Nat) (frame : Frame)
    (active : Activation × Activation) (slots : Slots),
    scene.functions.find? name = some routine →
    scene.image.entryOf name = some (entry : Int) →
    (∀ names, scene.settled = some names → name ∈ names) →
    frame.Carries routine.parameters →
    (Memory.stagedSlots frame.staged).Within slots →
    scene.Wide slots →
    scene.Deep active →
    scene.Returning count active routine.returns true →
      scene.Onward count entry active slots

variable {scene}
variable {active : Activation × Activation} {slots wider : Slots}
  {first second : Machine}
variable {count position entry : Nat} {frame : Frame} {routine : Routine}
  {value : Address}

theorem Wide.mono (wide : scene.Wide slots) (within : slots.Within wider) :
    scene.Wide wider :=
  ⟨fun isNone slot => within slot (wide.every isNone slot),
    fun address location located isShared =>
      within address (wide.shared address location located isShared)⟩

theorem Wide.place {type : Ty} {location : Location}
    (wide : scene.Wide slots)
    (place : Place address type location)
    (isShared : location.region.isPrivate = false) :
    (Slots.range address type.slotCount).Within slots := by
  rintro slot ⟨_, bound, rfl⟩
  obtain ⟨found, located, sameRegion, _⟩ := place.slot bound
  exact wide.shared _ found located (by rw [sameRegion]; exact isShared)

def entering (machine : Machine) (activation : Activation) (frame : Frame) :
    Machine :=
  { machine with
    memory := machine.memory.deliver frame.staged
    pending := activation.pending
    frames := Exec.entered frame machine.position ::
      Exec.suspended activation.running machine.memory :: activation.waiting }

def invoked (machine : Machine)
    (activation : Activation)
    (frame : Frame)
    (unsaved : frame.saved = none) : Activation where
  running := Exec.entered frame machine.position
  waiting := Exec.suspended activation.running machine.memory ::
    activation.waiting
  pending := activation.pending
  unsaved := unsaved

theorem execute_enter {image : Image}
    (runs : machine.Runs image (activation.announce frame))
    (deliverable : Deliverable frame.staged) :
    Exec.execute ⟨.call, (entry : Int), .unused, value⟩ machine =
      .ok (.jump entry) (entering machine activation frame) := by
  rw [Exec.execute_call rfl,
    Exec.enter_eq (Int.natCast_nonneg entry) runs.pending runs.frames,
    Memory.writeArguments_eq deliverable]
  rfl

/-- Machines that enter a function with equal arguments hold them alike. -/
theorem matched_entering {otherActivation : Activation} {other : Frame}
    (firstRuns : first.Runs scene.image (activation.announce frame))
    (secondRuns : second.Runs scene.image (otherActivation.announce other))
    (agrees : Memory.Agrees slots first.memory second.memory)
    (alike : Screen.Alike scene.origin first.screen second.screen)
    (unsaved : frame.saved = none)
    (otherUnsaved : other.saved = none)
    (sameStaged : other.staged = frame.staged)
    (deliverable : Deliverable frame.staged) :
    scene.Matched
      (invoked first activation frame unsaved,
        invoked second otherActivation other otherUnsaved)
      (slots.union (Memory.stagedSlots frame.staged))
      (entering first activation frame)
        (entering second otherActivation other) := by
  refine ⟨⟨firstRuns.code, rfl, rfl, firstRuns.intact.deliver deliverable⟩,
    ⟨secondRuns.code, rfl, rfl,
      secondRuns.intact.deliver (sameStaged ▸ deliverable)⟩, ?_, alike⟩
  have delivered := agrees.deliver deliverable
  unfold entering
  rw [sameStaged]
  exact delivered

/-! ## Returning -/

/-- The slots that a function returned: none, or values for its type. -/
inductive Handed (scene : Scene) (returns : Ty) (needed : Bool) :
    Option (List Value) → Prop where
  | nothing (absent : returns.isVoid = true ∨ needed = false ∨
      scene.settled = none) : Handed scene returns needed none
  | value {values : List Value} {source : Element}
      (stored : returns.isVoid = false)
      (suits : Memory.Suits values source returns.slotCount)
      (takes : Value.Takes returns.element source) :
      Handed scene returns needed (some values)

theorem Hands.handed {needed : Bool}
    (hands : scene.Hands returns needed slots address)
    (single : returns.isList = false)
    (matched : scene.Matched active slots first second) :
    ∃ values, Exec.handedBack first.memory address = .ok values ∧
      Exec.handedBack second.memory address = .ok values ∧
      scene.Handed returns needed values := by
  cases hands with
  | nothing absent => exact ⟨none, rfl, rfl, .nothing absent⟩
  | @value _ type location stored place accepts known =>
    obtain ⟨sourceSingle, takes⟩ := Ty.takes_of_accepts single accepts
    have suits := Memory.suits_block matched.firstRuns.kinded place
      (Nat.le_refl _)
    rw [Ty.slotCount_of_takes single sourceSingle takes] at suits
    refine ⟨_, ?_, ?_, .value stored suits takes⟩
    · rw [Exec.handedBack, if_neg place.used,
        Memory.readWhole_place place sourceSingle,
        Ty.slotCount_of_takes single sourceSingle takes]
      rfl
    · rw [Exec.handedBack, if_neg place.used,
        Memory.readWhole_place place sourceSingle,
        ← matched.agrees.block known place (Nat.le_refl _),
        Ty.slotCount_of_takes single sourceSingle takes]
      rfl

theorem execute_leave {caller : Machine} {site : Quad} {memory : Memory}
    {unsaved : frame.saved = none}
    (runs : machine.Runs scene.image (invoked caller activation frame unsaved))
    (called : scene.image.Has caller.position site)
    (handed : Exec.handedBack machine.memory address = .ok values)
    (handsOver : Exec.handOver site.result values
      (machine.memory.restore caller.memory.snapshot) = .ok () memory) :
    Exec.execute ⟨.ret, .unused, .unused, address⟩ machine =
      .ok (.jump (caller.position + 1))
        { machine with memory, frames := activation.frames } := by
  have known : machine.code[(Exec.entered frame caller.position).calledFrom]? =
      some site := by
    rw [runs.code]
    exact called
  rw [Exec.execute_ret rfl,
    Exec.leave_handOver runs.frames rfl known handed handsOver,
    activation.resumed_suspended]
  rfl

/-- What the caller gets is stored in the same way in both machines. -/
theorem Handed.over {callees : Slots} {firstLeft secondLeft : Memory}
    {constants : List Constant}
    (handed : scene.Handed returns true values)
    (receives : Receives returns value)
    (wide : scene.Wide slots)
    (agrees : Memory.Agrees slots first.memory second.memory)
    (intact : first.memory.Intact constants ∧ second.memory.Intact constants)
    (leftAgrees : Memory.Agrees callees firstLeft secondLeft)
    (leftIntact : firstLeft.Intact constants ∧ secondLeft.Intact constants) :
    ∃ firstMemory secondMemory,
      Exec.handOver value values (firstLeft.restore first.memory.snapshot) =
        .ok () firstMemory ∧
      Exec.handOver value values (secondLeft.restore second.memory.snapshot) =
        .ok () secondMemory ∧
      Memory.Agrees (slots.union (.range value returns.slotCount)) firstMemory
        secondMemory ∧
      firstMemory.Intact constants ∧ secondMemory.Intact constants := by
  have restored := agrees.restore leftAgrees
  have firstIntact := leftIntact.1.restore intact.1
  have secondIntact := leftIntact.2.restore intact.2
  cases handed with
  | nothing absent =>
    refine ⟨_, _, rfl, rfl, ?_, firstIntact, secondIntact⟩
    rcases receives with ⟨isVoid, rfl⟩ | ⟨stored, location, place, _⟩
    · exact restored.union_unused isVoid
    · rcases absent with isVoid | notNeeded | isNone
      · rw [isVoid] at stored
        cases stored
      · cases notNeeded
      · exact restored.mono fun slot _ => wide.every isNone slot
  | @value values source stored suits takes =>
    rcases receives with ⟨isVoid, _⟩ | ⟨_, location, place, inTemp⟩
    · rw [isVoid] at stored
      cases stored
    · have varies : location.region.isVariable = true := by
        rw [inTemp]
        rfl
      have writable := Region.not_constant varies
      have fits := suits.conform takes
      have spans := place.spans (Nat.le_of_eq fits.length)
      have filled := restored.fill spans
      rw [fits.length] at filled
      refine ⟨_, _, ?_, ?_, filled,
        firstIntact.fill place varies fits (Nat.le_refl _),
        secondIntact.fill place varies fits (Nat.le_refl _)⟩
      · rw [Exec.handOver, if_neg place.used]
        exact Memory.writeBlock_place _ place writable suits takes
          (Nat.le_refl _)
      · rw [Exec.handOver, if_neg place.used]
        exact Memory.writeBlock_place _ place writable suits takes
          (Nat.le_refl _)

/-! ## Calls -/

/-- A call quadruple, and machines that stand at it. -/
structure Calling (scene : Scene)
    (position entry : Nat)
    (value : Address)
    (active : Activation × Activation)
    (frame : Frame)
    (slots : Slots)
    (returns : Ty)
    (first second : Machine) :
    Prop
    extends scene.Stands position (announced active frame) slots
      first second where
  site : scene.image.Has position ⟨.call, (entry : Int), .unused, value⟩
  wide : scene.Wide slots
  deep : scene.Deep active
  single : returns.isList = false
  receives : Receives returns value

theorem deep_invoked (deep : scene.Deep active) (unsaved : frame.saved = none) :
    scene.Deep (invoked first active.1 frame unsaved,
      invoked second active.2 frame unsaved) := by
  constructor
  · exact Nat.le_succ_of_le deep.firstDeep
  · exact Nat.le_succ_of_le deep.secondDeep

/-- Machines that return from a function go on after the call. -/
theorem Calling.returning
    (calling : scene.Calling position entry value active frame slots
      returns first second)
    (unsaved : frame.saved = none)
    (onward : scene.Onward count (position + 1) active
      (slots.union (.range value returns.slotCount))) :
    scene.Returning count
      (invoked first active.1 frame unsaved,
        invoked second active.2 frame unsaved) returns
      true := by
  intro leavePosition address known has hands steps bound wider within
    firstLeft secondLeft stands _
  obtain ⟨firstFetched, secondFetched⟩ := stands.fetched has
  cases steps with
  | zero => exact .zero
  | succ steps =>
    obtain ⟨_, firstHanded, secondHanded, handed⟩ :=
      hands.handed calling.single (stands.toMatched.mono within)
    obtain ⟨firstMemory, secondMemory, firstOver, secondOver,
      agrees, firstIntact, secondIntact⟩ :=
      handed.over calling.receives calling.wide calling.agrees
        ⟨calling.firstRuns.intact, calling.secondRuns.intact⟩ stands.agrees
        ⟨stands.firstRuns.intact, stands.secondRuns.intact⟩
    have firstSite : scene.image.Has first.position
        ⟨.call, (entry : Int), .unused, value⟩ := by
      rw [calling.firstPosition]
      exact calling.site
    have secondSite :
        scene.image.Has second.position
        ⟨.call, (entry : Int), .unused, value⟩ := by
      rw [calling.secondPosition]
      exact calling.site
    have firstRan := execute_leave stands.firstRuns firstSite
      firstHanded firstOver
    have secondRan := execute_leave stands.secondRuns secondSite
      secondHanded secondOver
    rw [calling.firstPosition] at firstRan
    rw [calling.secondPosition] at secondRan
    have matched : scene.Matched active
        (slots.union (.range value returns.slotCount))
        { firstLeft with memory := firstMemory, frames := active.1.frames }
        { secondLeft with memory := secondMemory, frames := active.2.frames } :=
      ⟨⟨stands.firstRuns.code, rfl, stands.firstRuns.pending, firstIntact⟩,
        ⟨stands.secondRuns.code, rfl, stands.secondRuns.pending, secondIntact⟩,
        agrees, stands.alike⟩
    have sees : scene.Sees firstLeft secondLeft := by
      refine ⟨firstFetched.trans secondFetched.symm, stands.alike,
        stands.globals, stands.firstRuns.intact, ?_, ?_⟩
      · intro quad fetched isCall
        rw [firstFetched] at fetched
        cases fetched
        cases isCall
      · intro quad _ _
        rw [stands.firstRuns.frames, stands.secondRuns.frames]
        exact ⟨Nat.lt_succ_of_le calling.deep.firstDeep,
          Nat.lt_succ_of_le calling.deep.secondDeep⟩
    exact .step sees ⟨_, _, _, position + 1, firstFetched, firstRan, rfl, rfl⟩
      ⟨_, _, _, position + 1, secondFetched, secondRan, rfl, rfl⟩
      (onward steps (Nat.le_of_succ_le bound) _ (Slots.Within.refl _) _ _
        (matched.arrived (position + 1)) trivial)

/-- Machines stay in lockstep across a call with the same arguments. -/
theorem Onward.of_call {name : String}
    (found : scene.functions.find? name = some routine)
    (located : scene.image.entryOf name = some (entry : Int))
    (permitted : ∀ names, scene.settled = some names → name ∈ names)
    (signature : routine.returns.isList = false ∧
      ∀ parameter ∈ routine.parameters, parameter.Fits)
    (site : scene.image.Has position ⟨.call, (entry : Int), .unused, value⟩)
    (carries : frame.Carries routine.parameters)
    (receives : Receives routine.returns value)
    (wide : scene.Wide slots)
    (deep : scene.Deep active)
    (calls : ∀ fewer < count, scene.CallsOnward fewer)
    (onward : scene.Onward count (position + 1) active
      (slots.union (.range value routine.returns.slotCount))) :
    scene.Onward count position (announced active frame) slots := by
  intro steps bound wider within first second stands _
  obtain ⟨firstFetched, secondFetched⟩ := stands.fetched site
  cases steps with
  | zero => exact .zero
  | succ steps =>
    have deliverable := carries.deliverable fun type member =>
      (signature.2 type member).toDeclarable
    have calling : scene.Calling position entry value active frame wider
        routine.returns first second :=
      ⟨stands, site, wide.mono within, deep, signature.1, receives⟩
    have entered := matched_entering stands.firstRuns stands.secondRuns
      stands.agrees stands.alike carries.unsaved carries.unsaved rfl deliverable
    have sees : scene.Sees first second := by
      refine ⟨firstFetched.trans secondFetched.symm, stands.alike,
        stands.globals, stands.firstRuns.intact, ?_, ?_⟩
      · intro quad _ _
        exact ⟨⟨name, routine, entry, value, active.1, frame, found,
            located, firstFetched, receives, carries, stands.firstRuns⟩,
          ⟨name, routine, entry, value, active.2, frame, found, located,
            secondFetched, receives, carries, stands.secondRuns⟩⟩
      · intro quad fetched isReturn
        rw [firstFetched] at fetched
        cases fetched
        cases isReturn
    have returning := calling.returning carries.unsaved
      ((onward.le (Nat.le_of_succ_le bound)).mono (within.union_left _))
    have inside := calls steps bound name routine entry frame _ _ found located
      permitted carries (Slots.within_right wider _)
      ((wide.mono within).mono (Slots.within_left _ _))
      (deep_invoked deep carries.unsaved) returning
    exact .step sees
      ⟨_, _, _, entry, firstFetched, execute_enter stands.firstRuns deliverable,
        rfl, rfl⟩
      ⟨_, _, _, entry, secondFetched,
        execute_enter stands.secondRuns deliverable, rfl, rfl⟩
      (inside.lockstep (entered.arrived entry))

end Scene

end Easel
