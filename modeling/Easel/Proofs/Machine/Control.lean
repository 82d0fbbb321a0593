import Easel.Proofs.Machine.Faults
import Easel.Proofs.Memory.Writing
import Easel.Session

/-!
# What an instruction can change

Apart from calls and returns an instruction makes few kinds of small changes:
it stores a value that fits a slot, lets slots read as zero, tells the screen
something, announces a call or passes an argument.  A relation between
machines that allows these changes, and sequences of them, therefore holds
between the machine before and after every such instruction, whether the
instruction succeeds or fails.
-/

namespace Easel

/-- A relation between machines that allows new storage and screens. -/
structure AllowsStoring (relation : Machine → Machine → Prop) : Prop where
  refl : ∀ machine, relation machine machine
  trans : ∀ first second third,
    relation first second → relation second third → relation first third
  stored : ∀ (machine : Machine) (address : Address) (location : Location)
    (value fitted : Value), locate? address = some location →
      location.region ≠ .constant → value.fit? location.kind = some fitted →
      relation machine
        { machine with
          memory := machine.memory.assign location.region address fitted }
  cleared : ∀ (machine : Machine) (address : Address) (count : Nat)
    (memory : Memory), Memory.clear address count machine.memory =
      .ok () memory → relation machine { machine with memory }
  shown : ∀ (machine : Machine) (screen : Screen),
    relation machine { machine with screen }

/-- A relation between machines that allows small changes. -/
structure Allows (relation : Machine → Machine → Prop) :
    Prop extends AllowsStoring relation where
  announced : ∀ (machine : Machine) (footprint : Nat),
    relation machine { machine with pending := { footprint } ::
      machine.pending }
  passed : ∀ (machine : Machine) (frame staged : Frame) (outer : List Frame)
    (kind : Element) (values : List Value), machine.pending = frame :: outer →
      frame.stage kind values = .ok staged →
      relation machine { machine with pending := staged :: outer }

/-- A screen shows everything that it showed before, and then perhaps more. -/
structure Screen.Extends (before after : Screen) : Prop where
  lines : before.lines.toList <+: after.lines.toList
  strokes : before.strokes.toList <+: after.strokes.toList

/-- Whether an operation only changes storage or the screen. -/
def Operation.isQuiet : Operation → Bool
  | .era | .param | .call | .ret => false
  | _ => true

namespace Exec

/-- The machine that a computation leaves, whether or not it fails. -/
def leaves (action : Exec α) (machine : Machine) : Machine :=
  match action machine with
  | .ok _ left => left
  | .error _ left => left

theorem leaves_of_ok {action : Exec α} {machine left : Machine} {value : α}
    (ran : action machine = .ok value left) : action.leaves machine = left := by
  simp [leaves, ran]

/-- The value that a computation returns, if it succeeds. -/
def yields? (action : Exec α) (machine : Machine) : Option α :=
  match action machine with
  | .ok value _ => some value
  | .error _ _ => none

theorem eq_ok {action : Exec α} {machine : Machine} {value : α}
    (yields : action.yields? machine = some value) :
    action machine = .ok value (action.leaves machine) := by
  unfold yields? at yields
  unfold leaves
  cases ran : action machine with
  | ok found left =>
    rw [ran] at yields
    cases yields
    rfl
  | error fault left => simp [ran] at yields

theorem storing_bind (update : Storing α) (next : α → Storing β) :
    storing (update >>= next) = (storing update >>= fun value =>
      storing (next value)) := by
  funext machine
  simp only [storing, bind, EStateM.bind]
  cases update machine.memory with
  | ok value memory => rfl
  | error fault memory => rfl

/--
A computation that is made of elementary ones: it reads the machine and fails.
If it writes it also stores values, clears slots and adds to the screen, and
if it takes part in calls it rearranges the frames.
-/
inductive Made (writes calls : Bool) : {α : Type} → Exec α → Prop where
  | pure (value : α) : Made writes calls (pure value)
  | get : Made writes calls get
  | throw {α : Type} {fault : Fault} (ordinary : fault.isLimit = false) :
      Made writes calls (throw fault : Exec α)
  | bind {action : Exec α} {next : α → Exec β}
      (before : Made writes calls action) (after : ∀ value,
        Made writes calls (next value)) : Made writes calls (action >>= next)
  | store {address : Address} {value : Value} (allowed : writes = true := by
    rfl) :
      Made writes calls (store address value)
  | clear {address : Address} {count : Nat} (allowed : writes = true := by
    rfl) :
      Made writes calls (storing (Memory.clear address count))
  | onScreen {change : Screen → Screen} (grows : ∀ screen : Screen,
      screen.Extends (change screen)) (allowed : writes = true := by
        rfl) : Made writes calls (onScreen change)
  | rearrange {change : Machine → Machine} (allowed : calls = true := by rfl)
      (same : ∀ machine : Machine, (change machine).screen =
        machine.screen := by intros; rfl) :
      Made writes calls (modify change)

namespace Made

variable {writes calls : Bool} {address : Address} {quad : Quad}

theorem ofExcept {result : Except Fault α} (ordinary : Ordinary result) :
    Made writes calls (MonadExcept.ofExcept result) := by
  cases result with
  | ok value => exact pure value
  | error fault => exact throw (ordinary fault rfl)

theorem writeBlock (values : List Value) :
    Made true calls (storing (Memory.writeBlock address values)) := by
  induction values generalizing address with
  | nil => exact pure ()
  | cons value values induction =>
    rw [Memory.writeBlock, storing_bind]
    exact (store rfl).bind fun _ => induction

theorem copy {source : Address} :
    Made true calls (storing (Memory.copy source address)) := by
  have reads : storing (Memory.copy source address) = MonadState.get >>=
      fun machine =>
      MonadExcept.ofExcept (machine.memory.readWhole source) >>= fun values =>
        storing (Memory.writeBlock address values) := by
    funext machine
    simp only [storing, Memory.copy, Bind.bind, EStateM.bind, get_run]
    cases machine.memory.readWhole source <;> rfl
  rw [reads]
  exact get.bind fun _ => (ofExcept .readWhole).bind writeBlock

theorem fetch : Made writes calls (fetch address) :=
  get.bind fun _ => (ofExcept .read).bind fun _ => pure _

theorem fetchTruth : Made writes calls (fetchTruth address) :=
  fetch.bind fun _ => ofExcept (.expect _)

theorem fetchInteger : Made writes calls (fetchInteger address) :=
  fetch.bind fun _ => ofExcept (.expect _)

theorem fetchPointer : Made writes calls (fetchPointer address) :=
  fetch.bind fun _ => ofExcept (.expect _)

theorem fetchDrawing : Made writes calls (fetchDrawing address) :=
  get.bind fun _ => ofExcept .readDrawing

theorem printed : Made writes calls (printed address) := by
  refine fetch.bind fun cell => ?_
  split
  · exact fetchDrawing.bind fun _ => pure _
  · exact pure _

theorem evaluate : Made writes calls (evaluate quad) := by
  refine fetch.bind fun left => ?_
  split
  · rename_i isUnary
    exact ofExcept (.unary isUnary)
  · exact fetch.bind fun _ => get.bind fun _ => ofExcept .binary

theorem checkIndex {size : Address} :
    Made writes calls (checkIndex address size) := by
  refine fetchInteger.bind fun index => ?_
  split
  · exact pure _
  · exact throw rfl

theorem jumpTarget : Made writes calls (jumpTarget address) := by
  unfold Exec.jumpTarget
  split
  · exact throw rfl
  · exact pure _

theorem branch : Made writes calls (branch quad) := by
  refine jumpTarget.bind fun target => ?_
  split
  · exact (pure true).bind fun _ => pure _
  · exact fetchTruth.bind fun _ => pure _
  · exact bind (fetchTruth.bind fun _ => pure _) fun _ => pure _

theorem calculate : Made true calls (calculate quad) :=
  evaluate.bind fun _ => (store rfl).bind fun _ => pure _

theorem move : Made true calls (move quad) := by
  unfold Exec.move
  split
  case h_1 => exact copy.bind fun _ => pure _
  case h_2 | h_3 => exact fetchPointer.bind fun _ => copy.bind fun _ => pure _
  case h_4 =>
    refine bind ?_ fun _ => pure _
    exact fetchInteger.bind fun _ => (ofExcept .locate).bind fun _ => store
  case h_5 => exact checkIndex.bind fun _ => pure _
  case h_6 =>
    refine bind ?_ fun _ => pure _
    unfold declare
    split
    · exact throw rfl
    · exact clear
  case h_7 => exact bind (throw rfl) fun _ => pure _

theorem interact : Made true calls (interact quad) := by
  unfold Exec.interact
  split
  case h_1 =>
    refine printed.bind fun _ => (onScreen fun _ => ?_).bind fun _ => pure _
    exact ⟨by simp [Screen.print], List.prefix_rfl⟩
  case h_2 =>
    refine fetchDrawing.bind fun _ => (onScreen fun _ => ?_).bind
      fun _ => pure _
    exact ⟨List.prefix_rfl, by simp [Screen.draw]⟩
  case h_3 | h_4 =>
    refine (onScreen fun _ => ?_).bind fun _ => pure _
    exact ⟨List.prefix_rfl, by simp [Screen.clear, Screen.update]⟩
  case h_5 =>
    exact fetch.bind fun _ => (ofExcept (.expect _)).bind fun _ =>
        get.bind fun _ =>
      (store rfl).bind fun _ => pure _
  case h_6 =>
    exact fetchDrawing.bind fun _ => fetchDrawing.bind fun _ => (store rfl).bind
      fun _ => pure _
  case h_7 => exact bind (throw rfl) fun _ => pure _

theorem execute_quiet (isQuiet : quad.operation.isQuiet = true) :
    Made true calls (execute quad) := by
  unfold execute
  cases operation : quad.operation with
  | call | ret | era | param =>
    rw [operation] at isQuiet
    cases isQuiet
  | goto | gotoTrue | gotoFalse => exact branch
  | assign | assignIndex | assignIndexInverse | addAddress | checkBound
  | init => exact move
  | print | render | clear | update | keyPressed | checkCollision =>
    exact interact
  | _ => exact calculate

end Made

/-! ## What computations leave behind -/

/-- A relation holds between the machine before and after a computation. -/
def Respects (relation : Machine → Machine → Prop) (action : Exec α) : Prop :=
  ∀ machine, relation machine (action.leaves machine)

section

variable {relation : Machine → Machine → Prop} (allows : AllowsStoring relation)
include allows

theorem bind_respects {action : Exec α} {next : α → Exec β}
    (before : Respects relation action)
    (after : ∀ value, Respects relation (next value)) :
    Respects relation (action >>= next) := by
  intro machine
  have first := before machine
  unfold leaves at first ⊢
  change relation machine
    (match EStateM.bind action next machine with
      | .ok _ left => left
      | .error _ left => left)
  unfold EStateM.bind
  cases ran : action machine with
  | ok value left =>
    rw [ran] at first
    exact allows.trans machine left _ first (after value left)
  | error fault left =>
    rw [ran] at first
    exact first

theorem store_respects (address : Address) (value : Value) :
    Respects relation (store address value) := by
  intro machine
  unfold leaves store storing
  cases ran : Memory.write address value machine.memory with
  | ok done memory =>
    obtain ⟨location, fitted, located, writable, fits, rfl⟩ :=
      Memory.write_ok ran
    exact allows.stored machine address location value fitted
      located writable fits
  | error fault memory =>
    rw [Memory.write_error ran]
    exact allows.refl machine

theorem clear_respects (address : Address) (count : Nat) :
    Respects relation (storing (Memory.clear address count)) := by
  intro machine
  unfold leaves storing
  cases ran : Memory.clear address count machine.memory with
  | ok done memory => exact allows.cleared machine address count memory ran
  | error fault memory =>
    rw [Memory.clear_error ran]
    exact allows.refl machine

/-- What the elementary changes respect, whatever they make up respects. -/
theorem Made.respects {action : Exec α} {writes : Bool}
    (made : Made writes false action) :
    Respects relation action := by
  induction made with
  | pure | get | throw => exact allows.refl
  | bind _ _ before after => exact bind_respects allows before after
  | store => exact store_respects allows _ _
  | clear => exact clear_respects allows _ _
  | onScreen => exact fun machine => allows.shown machine _
  | rearrange allowed => cases allowed

/-- A relation that allows new storage holds across all but calls. -/
theorem execute_quiet_respects (quad : Quad)
    (quiet : quad.operation.isQuiet = true) :
    Respects relation (execute quad) :=
  (Made.execute_quiet quiet).respects allows

/-- Passing an argument only replaces the innermost announced frame. -/
theorem pass_respects_of
    (passes : ∀ machine frame staged outer kind values,
      machine.pending = frame :: outer →
      Frame.stage frame kind values = .ok staged →
      relation machine { machine with pending := staged :: outer })
    (address size : Address) :
    Respects relation (pass address size) := by
  have reads {α : Type} {action : Exec α} (made : Made false false action) :
      Respects relation action := made.respects allows
  refine bind_respects allows (reads (.ofExcept .locate)) fun location =>
    bind_respects allows (reads .get) fun _ =>
      bind_respects allows (reads (.ofExcept .readBlock)) fun values => ?_
  intro machine
  simp only [leaves, bind, EStateM.bind, get_run]
  cases pending : machine.pending with
  | nil => exact allows.refl machine
  | cons frame outer =>
    cases passed : frame.stage location.kind values with
    | error fault =>
      simp only [passed, MonadExcept.ofExcept]
      exact allows.refl machine
    | ok staged =>
      simp only [passed, MonadExcept.ofExcept]
      exact passes machine frame staged outer location.kind values
        pending passed

end

section

variable {relation : Machine → Machine → Prop} (allows : Allows relation)
include allows

theorem announce_respects (footprint : Address) :
    Respects relation (announce footprint) :=
  fun machine => allows.announced machine footprint.toNat

theorem pass_respects (address size : Address) :
    Respects relation (pass address size) :=
  pass_respects_of allows.toAllowsStoring allows.passed address size

/-- A relation that allows small changes holds without calls and returns. -/
theorem execute_respects (quad : Quad)
    (notCall : quad.operation ≠ .call)
    (notReturn : quad.operation ≠ .ret) :
    Respects relation (execute quad) := by
  cases operation : quad.operation with
  | call => exact (notCall operation).elim
  | ret => exact (notReturn operation).elim
  | era =>
    unfold execute
    rw [operation]
    exact announce_respects allows quad.left
  | param =>
    unfold execute
    rw [operation]
    exact pass_respects allows quad.left quad.right
  | _ =>
    exact execute_quiet_respects allows.toAllowsStoring quad
      (by rw [operation]; rfl)

end

end Exec

end Easel
