import Easel.Proofs.Code.Layout

/-!
# The calls of a program

The functions that an expression or a statement calls are listed in the order
in which the code for their calls stands.  Calls are the only quadruples that
wait for the position of a function.
-/

namespace Easel

/-- Whether an operation can lead to a position that it names. -/
def Operation.isJump : Operation → Bool
  | .goto | .gotoTrue | .gotoFalse => true
  | _ => false

/-- Whether an operation does nothing to the flow of control. -/
def Operation.isStraight (operation : Operation) : Bool :=
  !operation.isJump && operation != .call

mutual

/-- The functions of the program that an expression calls, in order. -/
@[grind =]
def Expr.calls : Expr → List String
  | .literal .. | .access .. => []
  | .item _ index _ _ => index.calls
  | .call name arguments _ =>
    callsOf arguments ++ if Builtin.isReserved name then [] else [name]
  | .not operand _ => operand.calls
  | .group inner _ => inner.calls
  | .binary _ left right => left.calls ++ right.calls

@[grind =]
def callsOf : List Expr → List String
  | [] => []
  | first :: rest => first.calls ++ callsOf rest

end

/-- The functions that an assignment calls: for its value, then its index. -/
def Assignment.calls (assignment : Assignment) : List String :=
  assignment.value.calls ++ (assignment.target.index.map Expr.calls).getD []

mutual

/-- The functions that a statement calls, in the order of generation. -/
@[grind =]
def Stmt.calls : Stmt → List String
  | .declare _ => []
  | .assign assignment => assignment.calls
  | .branch guard body _ | .whileLoop guard body _ =>
    guard.calls ++ callsIn body
  | .branchElse guard body otherwise _ =>
    guard.calls ++ callsIn body ++ callsIn otherwise
  | .forLoop first guard step body _ =>
    first.calls ++ guard.calls ++ callsIn body ++ step.calls
  | .write value _ => value.calls
  | .ret value _ => (value.map Expr.calls).getD []
  | .call name arguments line => (Expr.call name arguments line).calls

@[grind =]
def callsIn : List Stmt → List String
  | [] => []
  | statement :: rest => statement.calls ++ callsIn rest

end

def Phrase.calls : Phrase → List String
  | .value expression _ => expression.calls
  | .operands expressions _ | .arguments expressions _ => callsOf expressions

def Clause.calls : Clause → List String
  | .statement action => action.calls
  | .block body => callsIn body

/-- The calls of a piece of code. -/
def callQuads (code : List Quad) : List Quad :=
  code.filter (·.operation = .call)

/-- The positions of the calls in code that stands at `start`. -/
def callSites (start : Nat) : List Quad → List Nat
  | [] => []
  | quad :: rest =>
    if quad.operation = .call then start :: callSites (start + 1) rest
    else callSites (start + 1) rest

theorem callSites_append (start : Nat) (first second : List Quad) :
    callSites start (first ++ second) =
      callSites start first ++ callSites (start + first.length) second := by
  induction first generalizing start with
  | nil => rfl
  | cons quad rest ih =>
    have moved : start + 1 + rest.length = start + (quad :: rest).length := by
      rw [List.length_cons, Nat.add_assoc, Nat.add_comm 1]
    rw [List.cons_append, callSites, callSites, ih (start + 1), moved]
    split
    · rw [List.cons_append]
    · rfl

/-- There is a call at every position of a call. -/
theorem mem_callSites {start position : Nat} {code : List Quad}
    (member : position ∈ callSites start code) :
    ∃ (index : Nat) (quad : Quad), position = start + index ∧
      code[index]? = some quad ∧ quad.operation = .call := by
  induction code generalizing start with
  | nil => cases member
  | cons first rest ih =>
    rw [callSites] at member
    have later (inRest : position ∈ callSites (start + 1) rest) :
        ∃ (index : Nat) (quad : Quad), position = start + index ∧
          (first :: rest)[index]? = some quad ∧ quad.operation = .call := by
      obtain ⟨index, quad, rfl, found, isCall⟩ := ih inRest
      exact ⟨index + 1, quad, by omega, found, isCall⟩
    split at member
    · rename_i isCall
      rcases List.mem_cons.mp member with rfl | inRest
      · exact ⟨0, first, rfl, rfl, isCall⟩
      · exact later inRest
    · exact later member

theorem Operation.ne_call_of_straight {operation : Operation}
    (straight : operation.isStraight = true) :
    operation ≠ .call := by
  rintro rfl
  cases straight

theorem Operation.not_jump_of_straight {operation : Operation}
    (straight : operation.isStraight = true) : operation.isJump = false := by
  cases operation <;> first | rfl | cases straight

theorem Builtin.operation_straight {name : String} {builtin : Builtin}
    (found : Builtin.find? name = some builtin) :
    builtin.operation.isStraight = true := by
  have member : builtin ∈ Builtin.all := List.mem_of_find?_eq_some found
  have all : ∀ other ∈ Builtin.all, other.operation.isStraight = true := by
    decide
  exact all builtin member

theorem Operator.operation_straight (operator : Operator) :
    operator.operation.isStraight = true := by
  cases operator <;> rfl

end Easel
