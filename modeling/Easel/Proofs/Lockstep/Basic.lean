import Easel.Proofs.Code.Operands
import Easel.Proofs.Flow
import Easel.Proofs.Lockstep.Agreement
import Easel.Proofs.Session.CallerFrame

/-!
# Two runs in lockstep

Two machines that execute the same code are in lockstep as long as they stand
at the same positions, hold the same wherever the code looks, and tell their
screens the same.  They stay so until both return from the function in which
they started or both fail in the same way.

A machine is in lockstep with itself, so what lockstep says about two runs
says in particular that a single run meets no other fault.
-/

namespace Easel

variable {address : Address} {type : Ty} {location : Location}
variable {other : Activation × Activation}

/--
Two screens have been told the same since two moments, hold the same keys
down, and are closed when they would have been.
-/
structure Screen.Alike (origin : Screen × Screen) (first second : Screen) :
    Prop where
  lines : ∃ lines : Array String,
    first.lines = origin.1.lines ++ lines ∧
      second.lines = origin.2.lines ++ lines
  strokes : ∃ strokes : Array Stroke,
    first.strokes = origin.1.strokes ++ strokes ∧
      second.strokes = origin.2.strokes ++ strokes
  held : first.held = second.held
  closing : first.closeAfter = origin.1.closeAfter ∧
    second.closeAfter = origin.2.closeAfter

namespace Screen.Alike

variable {origin : Screen × Screen} {first second : Screen}

theorem print (alike : Alike origin first second) (text : String) :
    Alike origin (first.print text) (second.print text) := by
  obtain ⟨lines, firstLines, secondLines⟩ := alike.lines
  refine ⟨⟨lines.push text, ?_, ?_⟩, alike.strokes, alike.held, alike.closing⟩
  · rw [Screen.print, firstLines, Array.append_push]
  · rw [Screen.print, secondLines, Array.append_push]

theorem record (alike : Alike origin first second) (stroke : Stroke) :
    Alike origin (first.record stroke) (second.record stroke) := by
  obtain ⟨strokes, firstStrokes, secondStrokes⟩ := alike.strokes
  have lines : ∀ screen : Screen, (screen.record stroke).lines =
      screen.lines := by
    intro screen
    cases stroke <;> rfl
  have held : ∀ screen : Screen, (screen.record stroke).held = screen.held := by
    intro screen
    cases stroke <;> rfl
  have closing : ∀ screen : Screen, (screen.record stroke).closeAfter =
      screen.closeAfter := by
    intro screen
    cases stroke <;> rfl
  have drawn : ∀ screen : Screen, (screen.record stroke).strokes =
      screen.strokes.push stroke := by
    intro screen
    cases stroke <;> rfl
  refine ⟨?_, ⟨strokes.push stroke, ?_, ?_⟩, ?_, ?_⟩
  · rw [lines, lines]
    exact alike.lines
  · rw [drawn, firstStrokes, Array.append_push]
  · rw [drawn, secondStrokes, Array.append_push]
  · rw [held, held]
    exact alike.held
  · rw [closing, closing]
    exact alike.closing

theorem poll (alike : Alike origin first second) :
    Alike origin first.poll.2 second.poll.2 :=
  ⟨alike.lines, alike.strokes, alike.held, alike.closing⟩

end Screen.Alike

/-! ## Machines -/

namespace Machine

/-- The machine executes its next instruction and goes on. -/
def Continues (machine next : Machine) : Prop :=
  ∃ quad outcome left position, machine.code[machine.position]? = some quad ∧
    Exec.execute quad machine = .ok outcome left ∧
    outcome.destination? left.position = some position ∧
    next = left.arrived position

/-- The machine's next instruction ends in a fault and changes nothing. -/
def Fails (machine : Machine) (fault : Fault) : Prop :=
  ∃ quad, machine.code[machine.position]? = some quad ∧
    quad.operation ≠ .call ∧ quad.operation ≠ .ret ∧
    Exec.execute quad machine = .error fault machine

end Machine

/-- The faults that a compiled program can end with by itself. -/
def Fault.isExpected : Fault → Bool
  | .divisionByZero _ | .indexOutOfBounds _ _ => true
  | .invalidAddress _ | .typeCoercion _ _ _ | .invalidInstruction _
  | .stepLimit _ => false

/-- An invocation of a function that is running. -/
structure Activation where
  running : Frame
  /-- The frames of the functions that wait for it. -/
  waiting : List Frame
  /-- The calls that have been announced. -/
  pending : List Frame
  unsaved : running.saved = none

namespace Activation

def frames (activation : Activation) : List Frame :=
  activation.running :: activation.waiting

def announce (activation : Activation) (frame : Frame) : Activation :=
  { activation with pending := frame :: activation.pending }

end Activation

/-- The machine runs an invocation of a function of a program. -/
structure Machine.Runs (machine : Machine)
    (image : Image)
    (activation : Activation) : Prop where
  code : machine.code = image.code
  frames : machine.frames = activation.frames
  pending : machine.pending = activation.pending
  intact : machine.memory.Intact image.constants

theorem Machine.Runs.kinded {machine : Machine} {image : Image}
    {activation : Activation}
    (runs : machine.Runs image activation) :
    machine.memory.Kinded :=
  runs.intact.kinded

/-- What two runs have in common. -/
structure Scene where
  image : Image
  functions : Table Routine
  globals : Table Variable
  /-- The settled functions; without them the runs agree on all slots. -/
  settled : Option (List String)
  /-- The screens from which on the two runs are compared. -/
  origin : Screen × Screen
  /-- The frames that the two runs have when they return. -/
  base : List Frame × List Frame

namespace Scene

variable (scene : Scene)

/-- Two machines run the same code and hold the same in a set of slots. -/
structure Matched (active : Activation × Activation)
    (slots : Slots)
    (first second : Machine) : Prop where
  firstRuns : first.Runs scene.image active.1
  secondRuns : second.Runs scene.image active.2
  agrees : Memory.Agrees slots first.memory second.memory
  alike : Screen.Alike scene.origin first.screen second.screen

/-- Two machines stand at the same position. -/
structure Stands (position : Nat)
    (active : Activation × Activation)
    (slots : Slots)
    (first second : Machine) :
    Prop extends scene.Matched active slots first second where
  firstPosition : first.position = position
  secondPosition : second.position = position

/-- The machine is about to enter a function with the arguments passed. -/
def Enters (machine : Machine) : Prop :=
  ∃ (name : String) (routine : Routine) (entry : Nat) (result : Address)
    (activation : Activation) (frame : Frame),
    scene.functions.find? name = some routine ∧
      scene.image.entryOf name = some (entry : Int) ∧
      machine.code[machine.position]? = some ⟨.call, entry, .unused, result⟩ ∧
      Receives routine.returns result ∧ frame.Carries routine.parameters ∧
      machine.Runs scene.image (activation.announce frame)

/-- What can be seen of two machines in lockstep. -/
structure Sees (first second : Machine) : Prop where
  together : first.code[first.position]? = second.code[second.position]?
  alike : Screen.Alike scene.origin first.screen second.screen
  globals : first.memory.globals = second.memory.globals
  intact : first.memory.Intact scene.image.constants
  enters : ∀ quad, first.code[first.position]? = some quad →
    quad.operation = .call → scene.Enters first ∧ scene.Enters second
  deeper : ∀ quad, first.code[first.position]? = some quad →
    quad.operation = .ret → scene.base.1.length < first.frames.length ∧
      scene.base.2.length < second.frames.length

/-- Two machines come to an end together. -/
inductive Ends (first second : Machine) : Prop where
  | fault {fault : Fault} (expected : fault.isExpected = true)
      (firstFails : first.Fails fault) (secondFails : second.Fails fault)
      (alike : Screen.Alike scene.origin first.screen second.screen)
      (globals : first.memory.globals = second.memory.globals)
      (intact : first.memory.Intact scene.image.constants)
  | returns {address : Address} {values : Option (List Value)}
      (firstReturns : first.code[first.position]? =
        some ⟨.ret, .unused, .unused, address⟩)
      (secondReturns : second.code[second.position]? =
        some ⟨.ret, .unused, .unused, address⟩)
      (frames : first.frames = scene.base.1 ∧ second.frames = scene.base.2)
      (firstHands : Exec.handedBack first.memory address = .ok values)
      (secondHands : Exec.handedBack second.memory address = .ok values)
      (alike : Screen.Alike scene.origin first.screen second.screen)
      (globals : first.memory.globals = second.memory.globals)

/-- Two machines are in lockstep for some steps, or end together. -/
inductive Lockstep : Nat → Machine → Machine → Prop where
  | zero {first second : Machine} : Lockstep 0 first second
  | ends {count : Nat} {first second : Machine}
      (ends : scene.Ends first second) : Lockstep count first second
  | step {count : Nat} {first second firstNext secondNext : Machine}
      (sees : scene.Sees first second)
      (firstContinues : first.Continues firstNext)
      (secondContinues : second.Continues secondNext)
      (rest : Lockstep count firstNext secondNext) :
      Lockstep (count + 1) first second

/--
Machines that stand at a position, hold the same in at least the given slots,
and whose memories are related as required, are in lockstep for up to `count`
steps.
-/
def OnwardWhen (related : Memory → Memory → Prop)
    (count position : Nat)
    (active : Activation × Activation)
    (slots : Slots) : Prop :=
  ∀ steps ≤ count, ∀ wider, slots.Within wider → ∀ first second,
    scene.Stands position active wider first second →
    related first.memory second.memory →
      scene.Lockstep steps first second

/--
Machines that stand at a position and hold the same in at least the given
slots are in lockstep for up to `count` steps.
-/
def Onward (count position : Nat)
    (active : Activation × Activation)
    (slots : Slots) : Prop :=
  scene.OnwardWhen (fun _ _ => True) count position active slots

variable {scene}
variable {active : Activation × Activation} {slots : Slots}
  {first second : Machine}
variable {count position : Nat}

theorem Onward.mono {more : Slots}
    (onward : scene.Onward count position active slots)
    (within : slots.Within more) :
    scene.Onward count position active more :=
  fun steps bound wider inside => onward steps bound wider (within.trans inside)

variable {related : Memory → Memory → Prop} {fewer : Nat}

theorem OnwardWhen.le
    (onward : scene.OnwardWhen related count position active slots)
    (noMore : fewer ≤ count) :
    scene.OnwardWhen related fewer position active slots :=
  fun steps bound => onward steps (Nat.le_trans bound noMore)

theorem Onward.le (onward : scene.Onward count position active slots)
    (noMore : fewer ≤ count) :
    scene.Onward fewer position active slots :=
  OnwardWhen.le onward noMore

theorem Onward.lockstep (onward : scene.Onward count position active slots)
    (stands : scene.Stands position active slots first second) :
    scene.Lockstep count first second :=
  onward count (Nat.le_refl _) slots (Slots.Within.refl _) first second
    stands trivial

section

variable (matched : scene.Matched active slots first second)
include matched

theorem Matched.mono {fewer : Slots} (within : fewer.Within slots) :
    scene.Matched active fewer first second :=
  ⟨matched.firstRuns, matched.secondRuns, matched.agrees.mono within,
    matched.alike⟩

theorem Matched.globals : first.memory.globals = second.memory.globals :=
  matched.agrees.shared .global rfl

theorem Matched.arrived (position : Nat) :
    scene.Stands position active slots (first.arrived position)
      (second.arrived position) where
  firstRuns := ⟨matched.firstRuns.code, matched.firstRuns.frames,
    matched.firstRuns.pending, matched.firstRuns.intact⟩
  secondRuns := ⟨matched.secondRuns.code, matched.secondRuns.frames,
    matched.secondRuns.pending, matched.secondRuns.intact⟩
  agrees := matched.agrees
  alike := matched.alike.poll
  firstPosition := rfl
  secondPosition := rfl

theorem Matched.fill {values : List Value} {stored : Nat}
    (place : Place address type location)
    (varies : location.region.isVariable = true)
    (suits : Memory.Suits values type.element stored)
    (inside : stored ≤ type.slotCount) :
    scene.Matched active (slots.union (.range address stored))
      { first with
        memory := first.memory.fill location.region address values }
      { second with
        memory := second.memory.fill location.region address values } := by
  have spans := place.spans (suits.length ▸ inside)
  have agrees := matched.agrees.fill spans
  rw [suits.length] at agrees
  exact ⟨⟨matched.firstRuns.code, matched.firstRuns.frames,
      matched.firstRuns.pending,
      matched.firstRuns.intact.fill place varies suits inside⟩,
    ⟨matched.secondRuns.code, matched.secondRuns.frames,
      matched.secondRuns.pending,
      matched.secondRuns.intact.fill place varies suits inside⟩, agrees,
      matched.alike⟩

theorem Matched.erase (place : Place address type location)
    (varies : location.region.isVariable = true) :
    scene.Matched active (slots.union (.range address type.slotCount))
      { first with
        memory := first.memory.erase location.region address type.slotCount }
      { second with
        memory :=
          second.memory.erase location.region address type.slotCount } :=
  ⟨⟨matched.firstRuns.code, matched.firstRuns.frames, matched.firstRuns.pending,
      matched.firstRuns.intact.erase varies _⟩,
    ⟨matched.secondRuns.code, matched.secondRuns.frames,
      matched.secondRuns.pending, matched.secondRuns.intact.erase varies _⟩,
    matched.agrees.erase (place.spans (Nat.le_refl _)), matched.alike⟩

theorem Matched.shown {firstScreen secondScreen : Screen}
    (alike : Screen.Alike scene.origin firstScreen secondScreen) :
    scene.Matched active slots { first with screen := firstScreen }
      { second with screen := secondScreen } :=
  ⟨⟨matched.firstRuns.code, matched.firstRuns.frames, matched.firstRuns.pending,
      matched.firstRuns.intact⟩,
    ⟨matched.secondRuns.code, matched.secondRuns.frames,
      matched.secondRuns.pending, matched.secondRuns.intact⟩,
    matched.agrees, alike⟩

end

/-- Both invocations after the same call was announced. -/
def announced (active : Activation × Activation) (frame : Frame) :
    Activation × Activation :=
  (active.1.announce frame, active.2.announce frame)

theorem Matched.announce {frame : Frame}
    (matched : scene.Matched other slots first second)
    (firstFrames : other.1.frames = active.1.frames)
    (secondFrames : other.2.frames = active.2.frames) :
    scene.Matched (announced active frame) slots
      { first with pending := frame :: active.1.pending }
      { second with pending := frame :: active.2.pending } :=
  ⟨⟨matched.firstRuns.code, matched.firstRuns.frames.trans firstFrames, rfl,
      matched.firstRuns.intact⟩,
    ⟨matched.secondRuns.code, matched.secondRuns.frames.trans secondFrames, rfl,
      matched.secondRuns.intact⟩,
    matched.agrees, matched.alike⟩

/-! ## Steps -/

/-- What one instruction can do to two machines in lockstep. -/
inductive Steps (scene : Scene)
    (count position : Nat)
    (quad : Quad)
    (first second : Machine) : Prop where
  | fault {fault : Fault} (expected : fault.isExpected = true)
      (firstRan : Exec.execute quad first = .error fault first)
      (secondRan : Exec.execute quad second = .error fault second)
  | move {outcome : Outcome} {firstLeft secondLeft : Machine} {next : Nat}
      {active : Activation × Activation} {slots : Slots}
      {related : Memory → Memory → Prop}
      (firstRan : Exec.execute quad first = .ok outcome firstLeft)
      (secondRan : Exec.execute quad second = .ok outcome secondLeft)
      (leads : outcome.destination? position = some next)
      (matched : scene.Matched active slots firstLeft secondLeft)
      (holds : related firstLeft.memory secondLeft.memory)
      (onward : scene.OnwardWhen related count next active slots)

variable {quad : Quad}

theorem Stands.fetched
    (stands : scene.Stands position active slots first second)
    (has : scene.image.Has position quad) :
    first.code[first.position]? = some quad ∧
      second.code[second.position]? = some quad := by
  rw [stands.firstRuns.code, stands.firstPosition, stands.secondRuns.code,
    stands.secondPosition]
  exact ⟨has, has⟩

/--
Machines stay in lockstep across an instruction that is no call and no return,
if they do so from where it leads with fewer steps to go.
-/
theorem OnwardWhen.of_fewer (has : scene.image.Has position quad)
    (notCall : quad.operation ≠ .call)
    (notReturn : quad.operation ≠ .ret)
    (steps : ∀ fewer < count, ∀ wider first second, slots.Within wider →
      scene.Stands position active wider first second →
      related first.memory second.memory →
      scene.Steps fewer position quad first second) :
    scene.OnwardWhen related count position active slots := by
  intro taken bound wider within first second stands holds
  obtain ⟨firstFetched, secondFetched⟩ := stands.fetched has
  cases taken with
  | zero => exact .zero
  | succ taken =>
    cases steps taken bound wider first second within stands holds with
    | fault expected firstRan secondRan =>
      exact .ends (.fault expected ⟨quad, firstFetched, notCall,
        notReturn, firstRan⟩ ⟨quad, secondFetched, notCall, notReturn,
        secondRan⟩ stands.alike stands.globals stands.firstRuns.intact)
    | @move outcome firstLeft secondLeft next _ _ _ firstRan secondRan
        leads matched kept onward =>
      have sees : scene.Sees first second := by
        refine ⟨firstFetched.trans secondFetched.symm, stands.alike,
          stands.globals, stands.firstRuns.intact, ?_, ?_⟩
        · intro other fetched isCall
          rw [firstFetched] at fetched
          cases fetched
          exact (notCall isCall).elim
        · intro other fetched isReturn
          rw [firstFetched] at fetched
          cases fetched
          exact (notReturn isReturn).elim
      have firstLeads : outcome.destination? firstLeft.position =
          some next := by
        rw [(Exec.code_of_execute firstRan).2, stands.firstPosition]
        exact leads
      have secondLeads : outcome.destination? secondLeft.position =
          some next := by
        rw [(Exec.code_of_execute secondRan).2, stands.secondPosition]
        exact leads
      exact .step sees ⟨quad, outcome, firstLeft, next, firstFetched,
        firstRan, firstLeads, rfl⟩ ⟨quad, outcome, secondLeft, next,
        secondFetched, secondRan, secondLeads,
        rfl⟩ (onward taken (Nat.le_refl _) _ (Slots.Within.refl _) _ _
        (matched.arrived next) kept)

theorem Steps.le (steps : scene.Steps count position quad first second)
    (noMore : fewer ≤ count) :
    scene.Steps fewer position quad first second := by
  cases steps with
  | fault expected firstRan secondRan =>
    exact .fault expected firstRan secondRan
  | move firstRan secondRan leads matched holds onward =>
    exact .move firstRan secondRan leads matched holds (onward.le noMore)

theorem OnwardWhen.of_steps (has : scene.image.Has position quad)
    (notCall : quad.operation ≠ .call)
    (notReturn : quad.operation ≠ .ret)
    (steps : ∀ wider first second, slots.Within wider →
      scene.Stands position active wider first second →
      related first.memory second.memory →
      scene.Steps count position quad first second) :
    scene.OnwardWhen related count position active slots :=
  OnwardWhen.of_fewer has notCall notReturn
    fun _ isFewer wider first second within stands holds =>
      (steps wider first second within stands holds).le (Nat.le_of_lt isFewer)

theorem Onward.of_steps (has : scene.image.Has position quad)
    (notCall : quad.operation ≠ .call)
    (notReturn : quad.operation ≠ .ret)
    (steps : ∀ wider first second, slots.Within wider →
      scene.Stands position active wider first second →
      scene.Steps count position quad first second) :
    scene.Onward count position active slots :=
  OnwardWhen.of_steps has notCall notReturn
      fun wider first second within stands _ =>
    steps wider first second within stands

theorem Steps.next {firstLeft secondLeft : Machine} {known : Slots}
    (firstRan : Exec.execute quad first = .ok .next firstLeft)
    (secondRan : Exec.execute quad second = .ok .next secondLeft)
    (matched : scene.Matched other known firstLeft secondLeft)
    (onward : scene.Onward count (position + 1) other known) :
    scene.Steps count position quad first second :=
  .move firstRan secondRan rfl matched trivial onward

end Scene

end Easel
