import Easel.Proofs.Lockstep.Basic
import Easel.Proofs.Meaning.Storage

/-!
# Machines that follow an evaluation

A machine shows a world if its variables hold what the store of the world
says and its screen was told what the world was told.  Two relations say that
a machine does what the evaluation says.  Where a value was found, the machine
gets to a position at which the value lies where it should; where a statement
was executed, it gets behind the statement, to a return, or it has taken at
least as many steps as rounds were allowed.  Where the evaluation came to a
mishap, the machine gets to an instruction that fails in the same way.
-/

namespace Easel

variable {steps : Nat} {type : Ty} {address : Address} {location : Location}

/-- A machine takes some steps; its window is closed as it would have been. -/
inductive Machine.Goes : Nat → Machine → Machine → Prop where
  | refl (machine : Machine) : Goes 0 machine machine
  | step {steps : Nat} {machine next last : Machine}
      (continues : machine.Continues next)
      (closing : next.screen.closeAfter = machine.screen.closeAfter)
      (rest : Goes steps next last) : Goes (steps + 1) machine last

theorem Machine.Goes.trans {machine next last : Machine} {more : Nat}
    (first : machine.Goes steps next)
    (rest : next.Goes more last) :
    machine.Goes (steps + more) last := by
  induction first with
  | refl => rwa [Nat.zero_add]
  | step continues closing _ induction =>
    rw [Nat.succ_add]
    exact .step continues closing (induction rest)

namespace Meaning

/-- A datum lies where an operand is. -/
structure Datum.LiesAt (datum : Datum) (operand : Operand) (memory : Memory) :
    Prop where
  typed : datum.Typed operand.type.element
  slots : memory.slots operand = datum.slots

variable {datum : Datum} {operand : Operand} {memory after : Memory}
  {value : Value}

/-- A datum stays where it is while new temporaries are used. -/
theorem Datum.LiesAt.keeps {temps : Element → Nat}
    (lies : datum.LiesAt operand memory)
    (changes : memory.ChangesOnly (laterTemps temps) after)
    (older : operand.slots.Before temps) :
    datum.LiesAt operand after :=
  ⟨lies.typed, (changes.block older.apart).trans lies.slots⟩

/-- A plain value is the contents of its slot. -/
theorem Datum.LiesAt.contents (lies : (Datum.plain value).LiesAt operand memory)
    (single : operand.type.isList = false) :
    memory.contents operand.address = value := by
  obtain ⟨_, first⟩ := memory.block_eq_cons operand.address single
  have slots := lies.slots
  rw [Memory.slots, first] at slots
  exact (List.cons.inj slots).1

/-- A datum of a type without attributes is plain. -/
theorem Datum.Typed.plain_of_scalar {element : Element}
    (typed : datum.Typed element)
    (scalar : element.isObject = false) :
    ∃ value, datum = .plain value ∧ value.Typed element :=
  typed.eq_plain (.same _) scalar

/-- The faults with which a machine comes to a mishap. -/
inductive Mishap.Matches : Mishap → Fault → Prop where
  | divisionByZero (position : Nat) :
      Matches .divisionByZero (.divisionByZero position)
  | indexOutOfBounds (index : Int64) (size : Address) :
      Matches (.indexOutOfBounds index size) (.indexOutOfBounds index size)

/-- An invocation of a function, and the screen at its world's start. -/
structure Stage where
  image : Image
  context : Context
  arranged : context.Arranged
  single : context.returns.isList = false
  literals : ∃ space : Space, space.Literals ∧ space.constants = image.constants
  activation : Activation
  origin : Screen

namespace Stage

/-- A machine shows a world. -/
structure Shows (stage : Stage) (world : World) (machine : Machine) : Prop where
  runs : machine.Runs stage.image stage.activation
  store : ScopeHolds stage.context.scope machine.memory world.store
  lines : machine.screen.lines = stage.origin.lines ++ world.lines
  strokes : machine.screen.strokes = stage.origin.strokes ++ world.strokes
  held : machine.screen.held = stage.origin.held
  closing : machine.screen.closeAfter = stage.origin.closeAfter

/-- A machine shows a world and stands at a position. -/
structure Stands (stage : Stage)
    (world : World)
    (position : Nat)
    (machine : Machine) : Prop extends stage.Shows world machine where
  position : machine.position = position

variable {stage : Stage} {world : World} {machine next : Machine}
  {position : Nat}
variable {between : Nat} {quad : Quad} {required : α → Memory → Prop}

theorem Shows.arrived (shows : stage.Shows world machine) (position : Nat) :
    stage.Stands world position (machine.arrived position) where
  runs := ⟨shows.runs.code, shows.runs.frames, shows.runs.pending,
    shows.runs.intact⟩
  store := shows.store
  lines := shows.lines
  strokes := shows.strokes
  held := shows.held
  closing := shows.closing
  position := rfl

section

variable (stands : stage.Stands world position machine)
  (has : stage.image.Has position quad)
include stands has

theorem Stands.fetched : machine.code[machine.position]? = some quad := by
  rw [stands.runs.code, stands.position]
  exact has

/-- The machine executes an instruction, then shows a world behind it. -/
theorem Stands.executes {left : Machine} {after : World}
    (ran : Exec.execute quad machine = .ok .next left)
    (shows : stage.Shows after left) :
    ∃ next, machine.Goes 1 next ∧ next.memory = left.memory ∧
      stage.Stands after (position + 1) next := by
  have unmoved : left.position = position := by
    rw [(Exec.code_of_execute ran).2, stands.position]
  have continues : machine.Continues (left.arrived (position + 1)) :=
    ⟨quad, .next, left, position + 1, stands.fetched has,
      ran, by rw [unmoved]; rfl, rfl⟩
  exact ⟨_, .step continues (shows.closing.trans stands.closing.symm) (.refl _),
    rfl, shows.arrived _⟩

theorem Stands.jumps {target : Nat}
    (ran : Exec.execute quad machine = .ok (.jump target) machine) :
    ∃ next, machine.Goes 1 next ∧ next.memory = machine.memory ∧
      stage.Stands world target next :=
  ⟨machine.arrived target,
    .step ⟨quad, _, machine, target, stands.fetched has, ran, rfl,
      rfl⟩ rfl (.refl _), rfl,
    stands.toShows.arrived target⟩

end

section

variable (shows : stage.Shows world machine)
include shows

/-- A new temporary changes nothing in the world. -/
theorem Shows.fills {before temps : Element → Nat} {values : List Value}
    (fresh : Space.Fresh before type address temps)
    (place : Place address type location)
    (inTemp : location.region = .temp)
    (suits : Memory.Suits values type.element type.slotCount) :
    stage.Shows world
      { machine with memory := machine.memory.fill .temp address values } := by
  have changes := machine.memory.changesOnly_fill .temp address values
  rw [suits.length] at changes
  have intact := shows.runs.intact.fill place (by rw [inTemp]; rfl) suits
    (Nat.le_refl _)
  rw [inTemp] at intact
  refine ⟨⟨shows.runs.code, shows.runs.frames, shows.runs.pending, intact⟩,
    ?_, shows.lines, shows.strokes, shows.held, shows.closing⟩
  refine shows.store.keeps stage.arranged
    (changes.mono (fresh.later place.stored)) ?_
  rintro slot ⟨found, located, isTemp, _⟩
  exact ⟨found, located, isTemp⟩

theorem Shows.declares {declaration : Declaration} {found : Variable}
    {first : Address}
    (known : stage.context.scope.locals.find? declaration.name = some found)
    (sameType : found.type = declaration.type)
    (hasAddress : found.address = some first)
    (place : Place first found.type location)
    (region : location.region = .local)
    (fits : found.type.Fits) :
    stage.Shows { world with store := world.store.declare declaration }
      { machine with
        memory := machine.memory.erase location.region first
          found.type.slotCount } where
  runs := ⟨shows.runs.code, shows.runs.frames, shows.runs.pending,
    shows.runs.intact.erase (by rw [region]; rfl) _⟩
  store := shows.store.declare stage.arranged known sameType hasAddress
    place region fits
  lines := shows.lines
  strokes := shows.strokes
  held := shows.held
  closing := shows.closing

theorem Shows.prints (text : String) :
    stage.Shows { world with lines := world.lines.push text }
      { machine with screen := machine.screen.print text } where
  runs := ⟨shows.runs.code, shows.runs.frames, shows.runs.pending,
    shows.runs.intact⟩
  store := shows.store
  lines := by simp only [Screen.print, shows.lines, Array.append_push]
  strokes := shows.strokes
  held := shows.held
  closing := shows.closing

theorem Shows.records (stroke : Stroke) :
    stage.Shows { world with strokes := world.strokes.push stroke }
      { machine with screen := machine.screen.record stroke } where
  runs := ⟨shows.runs.code, shows.runs.frames, shows.runs.pending,
    shows.runs.intact⟩
  store := shows.store
  lines := by cases stroke <;> exact shows.lines
  strokes := by
    have drawn : (machine.screen.record stroke).strokes =
        machine.screen.strokes.push stroke := by
      cases stroke <;> rfl
    simp only [drawn, shows.strokes, Array.append_push]
  held := by cases stroke <;> exact shows.held
  closing := by cases stroke <;> exact shows.closing

end

/-! ## Values -/

/--
The machine gets to a position where what was found is as required, having
used only new temporaries, or it gets to the mishap to which the evaluation
came.
-/
inductive Yields (stage : Stage)
    (world : World)
    (temps : Element → Nat)
    (stop : Nat)
    (machine : Machine)
    (required : α → Memory → Prop) : Except Mishap α → Prop where
  | value {found : α} {steps : Nat} {next : Machine}
      (goes : machine.Goes steps next) (stands : stage.Stands world stop next)
      (changes : machine.memory.ChangesOnly (laterTemps temps) next.memory)
      (holds : required found next.memory) :
      Yields stage world temps stop machine required (.ok found)
  | mishap {mishap : Mishap} {fault : Fault} {steps : Nat} {next : Machine}
      (goes : machine.Goes steps next) (shows : stage.Shows world next)
      (fails : next.Fails fault) (alike : mishap.Matches fault) :
      Yields stage world temps stop machine required (.error mishap)

variable {temps later : Element → Nat} {stop : Nat}

/-- What was found is where it should be without a step. -/
theorem Yields.here {found : α}
    (stands : stage.Stands world stop machine)
    (holds : required found machine.memory) :
    stage.Yields world temps stop machine required (.ok found) :=
  .value (.refl _) stands (.refl _ _) holds

variable {wanted : β → Memory → Prop} {found : Except Mishap α}

theorem Yields.imp {found : α} {other : β}
    (yields : stage.Yields world temps stop machine required (.ok found))
    (implies : ∀ memory, required found memory → wanted other memory) :
    stage.Yields world temps stop machine wanted (.ok other) := by
  cases yields with
  | value goes stands changes holds =>
    exact .value goes stands changes (implies _ holds)

/-- A machine that goes on as the evaluation does behind some steps. -/
theorem Yields.behind (goes : machine.Goes steps next)
    (changes : machine.memory.ChangesOnly (laterTemps temps) next.memory)
    (yields : stage.Yields world later stop next required found)
    (grown : TempsLe temps later) :
    stage.Yields world temps stop machine required found := by
  cases yields with
  | value more stands changesMore holds =>
    exact .value (goes.trans more) stands
      (changes.trans (changesMore.mono (laterTemps_within grown))) holds
  | mishap more shows fails alike =>
    exact .mishap (goes.trans more) shows fails alike

/-- One evaluation after the other. -/
theorem Yields.bind {rest : α → Except Mishap β}
    (first : stage.Yields world temps between machine required found)
    (grown : TempsLe temps later)
    (onward : ∀ value next, stage.Stands world between next →
      machine.memory.ChangesOnly (laterTemps temps) next.memory →
      required value next.memory →
      stage.Yields world later stop next wanted (rest value)) :
    stage.Yields world temps stop machine wanted (found >>= rest) := by
  cases first with
  | @value value _ next goes stands changes holds =>
    exact (onward value next stands changes holds).behind goes changes grown
  | mishap goes shows fails alike => exact .mishap goes shows fails alike

/-- An evaluation goes on where something was found. -/
theorem Yields.onward {value : α} {found : Except Mishap β}
    (first : stage.Yields world temps between machine required (.ok value))
    (grown : TempsLe temps later)
    (onward : ∀ next, stage.Stands world between next →
      machine.memory.ChangesOnly (laterTemps temps) next.memory →
      required value next.memory →
      stage.Yields world later stop next wanted found) :
    stage.Yields world temps stop machine wanted found := by
  cases first with
  | @value _ _ next goes stands changes holds =>
    exact (onward next stands changes holds).behind goes changes grown

/-- An instruction stores a datum in a new temporary. -/
theorem Yields.of_fill {point : Point}
    (stands : stage.Stands world point.position machine)
    (has : stage.image.Has point.position quad)
    (fresh : Space.Fresh point.temps type address temps)
    (aligned : point.Aligned)
    (single : type.isList = false)
    (stored : type.isVoid = false)
    (typed : datum.Typed type.element)
    (ran : Exec.execute quad machine =
      .ok .next { machine with
        memory := machine.memory.fill .temp address datum.slots }) :
    stage.Yields world point.temps (point.position + 1) machine
      (fun datum memory => datum.LiesAt ⟨address, type⟩ memory)
        (.ok datum) := by
  obtain ⟨_, place, inTemp⟩ := (fresh.receives aligned single).place stored
  have suits := typed.suits
  rw [← Ty.slotCount_of_single single] at suits
  obtain ⟨_, goes, memory, standsNext⟩ :=
    stands.executes has ran (stands.toShows.fills fresh place inTemp suits)
  refine .value goes standsNext ?_ ⟨typed, ?_⟩
  · have changes := machine.memory.changesOnly_fill .temp address datum.slots
    rw [suits.length] at changes
    rw [memory]
    exact changes.mono (fresh.later stored)
  · have filled := machine.memory.block_fill place suits.length
    rw [inTemp] at filled
    rw [memory]
    exact filled

/-- An instruction fails as the evaluation does. -/
theorem Yields.of_error {mishap : Mishap} {fault : Fault}
    (stands : stage.Stands world position machine)
    (has : stage.image.Has position quad)
    (proper : quad.operation ≠ .call ∧ quad.operation ≠ .ret)
    (ran : Exec.execute quad machine = .error fault machine)
    (alike : mishap.Matches fault) :
    stage.Yields world temps stop machine required (.error mishap) :=
  .mishap (.refl _) stands.toShows
    ⟨quad, stands.fetched has, proper.1, proper.2, ran⟩ alike

/-! ## Statements -/

/--
The machine does what an outcome says, within the code up to a position.  If
there is no outcome it takes at least the given number of steps.
-/
inductive Follows (stage : Stage) (least stop : Nat) (machine : Machine) :
    Outcome → Prop where
  | unfinished {steps : Nat} {next : Machine} (goes : machine.Goes steps next)
      (long : least ≤ steps) : Follows stage least stop machine none
  | next {world : World} {steps : Nat} {next : Machine}
      (goes : machine.Goes steps next) (stands : stage.Stands world stop next) :
      Follows stage least stop machine (some (.next, world))
  | returned {world : World} {steps : Nat} {next : Machine} {address : Address}
      (goes : machine.Goes steps next) (shows : stage.Shows world next)
      (returns : next.code[next.position]? =
        some ⟨.ret, .unused, .unused, address⟩) :
      Follows stage least stop machine (some (.returned, world))
  | failed {world : World} {mishap : Mishap} {fault : Fault} {steps : Nat}
      {next : Machine} (goes : machine.Goes steps next)
      (shows : stage.Shows world next) (fails : next.Fails fault)
      (alike : mishap.Matches fault) :
      Follows stage least stop machine (some (.failed mishap, world))

variable {least : Nat} {outcome : Outcome}

/-- A machine that goes on as an outcome says behind some steps. -/
theorem Follows.behind {fewer : Nat}
    (goes : machine.Goes steps next)
    (follows : stage.Follows fewer stop next outcome)
    (enough : least ≤ steps + fewer) :
    stage.Follows least stop machine outcome := by
  cases follows with
  | unfinished more long => exact .unfinished (goes.trans more) (by omega)
  | next more stands => exact .next (goes.trans more) stands
  | returned more shows returns =>
    exact .returned (goes.trans more) shows returns
  | failed more shows fails alike =>
    exact .failed (goes.trans more) shows fails alike

theorem Follows.le {fewer : Nat}
    (follows : stage.Follows least stop machine outcome)
    (noMore : fewer ≤ least) :
    stage.Follows fewer stop machine outcome :=
  follows.behind (.refl _) (by omega)

/-- Go on with a value that was found. -/
theorem Follows.given {rest : α → Outcome}
    (yields : stage.Yields world temps between machine required found)
    (onward : ∀ value next, stage.Stands world between next →
      machine.memory.ChangesOnly (laterTemps temps) next.memory →
      required value next.memory → stage.Follows least stop next (rest value)) :
    stage.Follows least stop machine (world.given found rest) := by
  cases yields with
  | @value value _ next goes stands changes holds =>
    exact (onward value next stands changes holds).behind goes
      (Nat.le_add_left _ _)
  | mishap goes shows fails alike => exact .failed goes shows fails alike

/-- An execution goes on where something was found. -/
theorem Follows.onward {value : α}
    (yields : stage.Yields world temps between machine required (.ok value))
    (onward : ∀ next, stage.Stands world between next →
      machine.memory.ChangesOnly (laterTemps temps) next.memory →
      required value next.memory → stage.Follows least stop next outcome) :
    stage.Follows least stop machine outcome := by
  cases yields with
  | @value _ _ next goes stands changes holds =>
    exact (onward next stands changes holds).behind goes (Nat.le_add_left _ _)

/-- Go on behind a statement. -/
theorem Follows.andThen {rest : World → Outcome}
    (first : stage.Follows least between machine outcome)
    (onward : ∀ world next, stage.Stands world between next →
      stage.Follows least stop next (rest world)) :
    stage.Follows least stop machine (outcome.andThen rest) := by
  cases first with
  | unfinished goes long => exact .unfinished goes long
  | @next world _ next goes stands =>
    exact (onward world next stands).behind goes (Nat.le_add_left _ _)
  | returned goes shows returns => exact .returned goes shows returns
  | failed goes shows fails alike => exact .failed goes shows fails alike

/-- A statement is left on a way of its own. -/
theorem Follows.through (first : stage.Follows least between machine outcome)
    (onward : ∀ world next, stage.Stands world between next →
      ∃ steps last, next.Goes steps last ∧ stage.Stands world stop last) :
    stage.Follows least stop machine outcome := by
  cases first with
  | unfinished goes long => exact .unfinished goes long
  | @next world _ next goes stands =>
    obtain ⟨steps, last, more, standsLast⟩ := onward world next stands
    exact .next (goes.trans more) standsLast
  | returned goes shows returns => exact .returned goes shows returns
  | failed goes shows fails alike => exact .failed goes shows fails alike

end Stage

end Meaning

end Easel
