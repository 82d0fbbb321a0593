import Easel.Checked

/-!
# Which variables have been set

A walk through the body of a function finds out which of its parameters and
variables have been set wherever control can be: a parameter from the start,
a variable once its declaration or an assignment to all of it was passed on
every way there.  A function is settled if it uses none of its variables
before it was set, and calls only functions that are themselves settled and do
not come to their end where they have to return an object.
-/

namespace Easel

mutual

/-- Whether an expression uses only variables and functions that it may use. -/
def Expr.uses (readable callable : String → Bool) : Expr → Bool
  | .literal _ _ => true
  | .access name _ _ => readable name
  | .item name index _ _ => readable name && index.uses readable callable
  | .call name arguments _ =>
    callable name && usesAll readable callable arguments
  | .not operand _ => operand.uses readable callable
  | .group inner _ => inner.uses readable callable
  | .binary _ left right =>
    left.uses readable callable && right.uses readable callable

def usesAll (readable callable : String → Bool) : List Expr → Bool
  | [] => true
  | first :: rest =>
    first.uses readable callable && usesAll readable callable rest

end

/-- The variables that have been set; none if control does not get there. -/
abbrev Known := Option (List String)

namespace Known

/-- What is known once a variable has been set. -/
def add (known : Known) (name : String) : Known :=
  known.map (name :: ·)

/-- What is known where two ways meet. -/
def meet : Known → Known → Known
  | none, other => other
  | known, none => known
  | some names, some others => some (names.filter others.contains)

/-- Whether a variable has been set, or is one outside the function. -/
def readable (known : Known) (locals : List String) (name : String) : Bool :=
  !locals.contains name || known.all (·.contains name)

theorem readable_add {known : Known} {locals : List String}
    {name other : String}
    (isReadable : (known.add name).readable locals other = true) :
    other = name ∨ known.readable locals other = true := by
  cases known with
  | none => exact .inr isReadable
  | some names =>
    by_cases same : other = name
    · exact .inl same
    · exact .inr (by simpa [readable, add, same] using isReadable)

/-- Where two ways meet, a variable can be read if it can be on both of them. -/
theorem readable_meet (known other : Known)
    (locals : List String)
    (name : String) :
    (known.meet other).readable locals name =
      (known.readable locals name && other.readable locals name) := by
  cases known with
  | none => simp [meet, readable]
  | some names =>
    cases other with
    | none => simp [meet, readable]
    | some others =>
      simp only [meet, readable, Option.all_some]
      rw [Bool.eq_iff_iff]
      cases locals.contains name <;> simp [List.mem_filter]

/-- Control gets to where two ways meet if it does on one of them. -/
theorem isSome_meet {known other : Known}
    (reached : known.isSome = true ∨ other.isSome = true) :
    (known.meet other).isSome = true := by
  cases known with
  | none => simpa [meet] using reached
  | some names => cases other <;> rfl

end Known

namespace Assignment

def knownAfter (assignment : Assignment) (known : Known) : Known :=
  match assignment.target.index, assignment.target.field with
  | none, none => known.add assignment.target.name
  | _, _ => known

def uses (readable callable : String → Bool) (assignment : Assignment) : Bool :=
  assignment.value.uses readable callable &&
    assignment.target.index.all (·.uses readable callable)

end Assignment

mutual

/-- What is known after a statement. -/
def Stmt.knownAfter (known : Known) : Stmt → Known
  | .declare declaration => known.add declaration.name
  | .assign assignment => assignment.knownAfter known
  | .branchElse _ body otherwise _ =>
    (knownAfterAll known body).meet (knownAfterAll known otherwise)
  | .forLoop first _ _ _ _ => first.knownAfter known
  | .ret _ _ => none
  | .branch .. | .whileLoop .. | .write .. | .call .. => known

def knownAfterAll (known : Known) : List Stmt → Known
  | [] => known
  | statement :: rest => knownAfterAll (statement.knownAfter known) rest

end

section

variable (locals : List String) (callable : String → Bool)

mutual

/-- Whether a statement uses what has been set and may be called. -/
def Stmt.settled (known : Known) : Stmt → Bool
  | .declare _ => true
  | .assign assignment => assignment.uses (known.readable locals) callable
  | .branch guard body _ | .whileLoop guard body _ =>
    guard.uses (known.readable locals) callable && settledAll known body
  | .branchElse guard body otherwise _ =>
    guard.uses (known.readable locals) callable && settledAll known body &&
      settledAll known otherwise
  | .forLoop first guard step body _ =>
    first.uses (known.readable locals) callable &&
      guard.uses ((first.knownAfter known).readable locals) callable &&
      settledAll (first.knownAfter known) body &&
      step.uses ((knownAfterAll (first.knownAfter known) body).readable locals)
      callable
  | .write value _ => value.uses (known.readable locals) callable
  | .ret value _ => value.all (·.uses (known.readable locals) callable)
  | .call name arguments line =>
    (Expr.call name arguments line).uses (known.readable locals) callable

def settledAll (known : Known) : List Stmt → Bool
  | [] => true
  | statement :: rest =>
    statement.settled known && settledAll (statement.knownAfter known) rest

end

end

/-- Whether a name is that of a built-in function or of a given one. -/
def callableAmong (names : List String) (name : String) : Bool :=
  (Builtin.find? name).isSome || names.contains name

namespace Function

/-- The names of the parameters and variables of a function. -/
def localNames (function : Function) : List String :=
  (function.parameters ++ declarationsOf function.body).map (·.name)

def knownAtStart (function : Function) : Known :=
  some (function.parameters.map (·.name))

/-- Whether a function uses what it has set and calls given functions. -/
def settled (function : Function) (names : List String) : Bool :=
  settledAll function.localNames (callableAmong names)
    function.knownAtStart function.body

/-- Whether a function does not end where it has to return an object. -/
def answers (function : Function) : Bool :=
  !function.returns.isObject ||
    (knownAfterAll function.knownAtStart function.body).isNone

end Function

/-- Whether given functions are settled, answer, and call one another. -/
def Program.settled (program : Program) (names : List String) : Bool :=
  program.functions.all fun function =>
    !names.contains function.name || function.settled names && function.answers

end Easel
