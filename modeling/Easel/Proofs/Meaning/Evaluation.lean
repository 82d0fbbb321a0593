import Easel.Calculation
import Easel.Checked
import Easel.Code.Emit
import Easel.Proofs.Flow
import Easel.Proofs.Meaning.Store
import Easel.Screen

/-!
# The meaning of programs without calls

Expressions have values and change nothing; they are evaluated from left to
right, and an operator evaluates both of its operands.  Statements change the
store and tell the screen something.  A loop is followed for a limited number
of rounds, so that a program that does not come to an end has no outcome for
any number of rounds.

Functions of the program are not given a meaning: a program that calls one is
meaningless here.
-/

namespace Easel

/-- Whether an expression calls only built-in functions. -/
def Expr.selfContained (expression : Expr) : Bool :=
  expression.uses (fun _ => true) Builtin.isReserved

def Assignment.selfContained (assignment : Assignment) : Bool :=
  assignment.uses (fun _ => true) Builtin.isReserved

mutual

/-- Whether a statement calls only built-in functions. -/
def Stmt.selfContained : Stmt → Bool
  | .declare _ => true
  | .assign assignment => assignment.selfContained
  | .branch guard body _ | .whileLoop guard body _ =>
    guard.selfContained && selfContainedAll body
  | .branchElse guard body otherwise _ =>
    guard.selfContained && selfContainedAll body && selfContainedAll otherwise
  | .forLoop first guard step body _ =>
    first.selfContained && guard.selfContained && step.selfContained &&
      selfContainedAll body
  | .write value _ => value.selfContained
  | .ret value _ => value.all Expr.selfContained
  | .call name arguments line => (Expr.call name arguments line).selfContained

def selfContainedAll : List Stmt → Bool
  | [] => true
  | statement :: rest => statement.selfContained && selfContainedAll rest

end

namespace Meaning

/-! ## Expressions -/

namespace Datum

def truth : Datum → Except Mishap Bool
  | .plain (.bool value) => .ok value
  | _ => .error .meaningless

def integer : Datum → Except Mishap Int64
  | .plain (.int value) => .ok value
  | _ => .error .meaningless

/-- The datum as a number; whole numbers are rounded to the nearest one. -/
def number : Datum → Except Mishap Float
  | .plain value =>
    match value.number? with
    | some number => .ok number
    | none => .error .meaningless
  | _ => .error .meaningless

/-- The result of an operator. -/
def operate (operator : Operator) : Datum → Datum → Except Mishap Datum
  | .plain left, .plain right =>
    match Calculation.binary 0 operator.operation ⟨.unused, left⟩
      ⟨.unused, right⟩ with
    | .ok value => .ok (.plain value)
    | .error (.divisionByZero _) => .error .divisionByZero
    | .error _ => .error .meaningless
  | _, _ => .error .meaningless

end Datum

/--
The answer of a built-in function while keys are held down: a value, or a
change of the canvas.
-/
def answer (held : List String) (builtin : Builtin) (arguments : List Datum) :
    Except Mishap (Value ⊕ Stroke) :=
  match builtin.operation, arguments with
  | .keyPressed, [.plain (.string key)] =>
    .ok (.inl (.bool (held.contains key)))
  | .checkCollision, [first, second] =>
    .ok (.inl (.bool (first.drawing.overlaps second.drawing)))
  | .pow, [base, exponent] => do
    return .inl (.float ((← base.number).pow (← exponent.number)))
  | .sqrt, [operand] => do return .inl (.float (← operand.number).sqrt)
  | .render, [object] =>
    .ok (.inr (.draw (Shape.ofElement object.drawing.kind) object.drawing))
  | .clear, [] => .ok (.inr .clear)
  | .update, [] => .ok (.inr .update)
  | _, _ => .error .meaningless

section

variable (held : List String) (store : Store)

mutual

/-- The value of an expression. -/
def value : Expr → Except Mishap Datum
  | .literal literal _ =>
    match Value.ofLiteral? literal.text literal.element with
    | some value => .ok (.plain value)
    | none => .error .meaningless
  | .access name field _ => do
    let datum ← (← store.holding name).read none
    datum.select field
  | .item name index field _ => do
    let position ← (← value index).integer
    let datum ← (← store.holding name).read (some position)
    datum.select field
  | .call name arguments _ =>
    match Builtin.find? name with
    | none => .error .meaningless
    | some builtin => do
      match ← answer held builtin (← values arguments) with
      | .inl value => return .plain value
      | .inr _ => .error .meaningless
  | .not operand _ => do return .plain (.bool !(← (← value operand).truth))
  | .group inner _ => value inner
  | .binary operator left right => do
    let first ← value left
    let second ← value right
    first.operate operator second

def values : List Expr → Except Mishap (List Datum)
  | [] => return []
  | first :: rest => do
    let datum ← value first
    let data ← values rest
    return datum :: data

end

/-- The truth value of a guard. -/
def holds (guard : Expr) : Except Mishap Bool := do
  (← value held store guard).truth

/-- The index of an assignment's target, if it has one. -/
def index? : Option Expr → Except Mishap (Option Int64)
  | none => return none
  | some index => do return some (← (← value held store index).integer)

/-- The store after an assignment: first its value is found, then its index. -/
def assigned (assignment : Assignment) : Except Mishap Store := do
  let target := assignment.target
  let datum ← value held store assignment.value
  let index ← index? held store target.index
  let holding ← store.holding target.name
  return store.set target.name (← holding.update index fun old =>
    old.assign target.field datum)

end

/-- The store, and what the screen was told. -/
structure World where
  store : Store
  lines : Array String := #[]
  strokes : Array Stroke := #[]

/-- How the execution of a statement ends. -/
inductive Ending where
  | next
  | returned
  | failed (mishap : Mishap)

/-- The end of an execution and its world; none if it needs more rounds. -/
abbrev Outcome := Option (Ending × World)

/-- Go on with a value that was found in a world. -/
def World.given (world : World) (found : Except Mishap α) (next : α → Outcome) :
    Outcome :=
  match found with
  | .ok value => next value
  | .error mishap => some (.failed mishap, world)

/-- Go on behind a statement. -/
def Outcome.andThen (outcome : Outcome) (next : World → Outcome) : Outcome :=
  match outcome with
  | some (.next, world) => next world
  | other => other

/-- Execute a body as long as a guard holds, for a limited number of rounds. -/
def loop (guard : World → Except Mishap Bool) (body : World → Outcome) :
    Nat → World → Outcome
  | 0, _ => none
  | rounds + 1, world =>
    world.given (guard world) fun goesOn =>
      if goesOn then (body world).andThen (loop guard body rounds)
      else some (.next, world)

section

variable (held : List String) (rounds : Nat)

def assign (assignment : Assignment) (world : World) : Outcome :=
  world.given (assigned held world.store assignment) fun store =>
    some (.next, { world with store })

mutual

/-- Execute a statement. -/
def execute : Stmt → World → Outcome
  | .declare declaration, world =>
    some (.next, { world with store := world.store.declare declaration })
  | .assign assignment, world => assign held assignment world
  | .branch guard body _, world =>
    world.given (holds held world.store guard) fun taken =>
      if taken then executeAll body world else some (.next, world)
  | .branchElse guard body otherwise _, world =>
    world.given (holds held world.store guard) fun taken =>
      if taken then executeAll body world else executeAll otherwise world
  | .whileLoop guard body _, world =>
    loop (fun world => holds held world.store guard) (fun world =>
      executeAll body world) rounds world
  | .forLoop first guard step body _, world =>
    (assign held first world).andThen fun world =>
      loop (fun world => holds held world.store guard)
        (fun world => (executeAll body world).andThen (assign held step))
        rounds world
  | .write expression _, world =>
    world.given (value held world.store expression) fun datum =>
      some (.next, { world with lines := world.lines.push datum.text })
  | .ret none _, world => some (.returned, world)
  | .ret (some expression) _, world =>
    world.given (value held world.store expression) fun _ =>
      some (.returned, world)
  | .call name arguments _, world =>
    match Builtin.find? name with
    | none => some (.failed .meaningless, world)
    | some builtin =>
      world.given (do answer held builtin (← values held world.store arguments))
        fun
        | .inl _ => some (.next, world)
        | .inr stroke =>
          some (.next, { world with strokes := world.strokes.push stroke })

def executeAll : List Stmt → World → Outcome
  | [], world => some (.next, world)
  | statement :: rest, world =>
    (execute statement world).andThen (executeAll rest)

end

end

/-- The world in which a function is started. -/
def initial (program : Program) (function : Function) : World where
  store :=
    { locals :=
        Store.zeros (function.parameters ++ declarationsOf function.body)
      globals := Store.zeros program.globals }

/-- The mishap with which an execution ends. -/
def Ending.mishap? : Ending → Option Mishap
  | .next | .returned => none
  | .failed mishap => some mishap

/--
The evaluation of a program that starts in the function `entry` ends, with or
without a mishap, and has written lines and drawn strokes by then.
-/
def Ends (program : Program)
    (entry : String)
    (held : List String)
    (mishap : Option Mishap)
    (lines : Array String)
    (strokes : Array Stroke) : Prop :=
  ∃ function ∈ program.functions, function.name = entry ∧
    ∃ rounds ending world,
      executeAll held rounds function.body (initial program function) =
        some (ending, world) ∧ ending.mishap? = mishap ∧ world.lines = lines ∧
        world.strokes = strokes

end Meaning

end Easel
