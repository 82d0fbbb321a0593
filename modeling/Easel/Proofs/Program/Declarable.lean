import Easel.Compile
import Easel.Proofs.Grammar.Acceptance

/-!
# Types that source text can declare

Source text declares single values and lists of them.  A list has at least
one item, and nothing is declared with the absent type.  What is read from a
source text therefore declares only types of this kind.
-/

namespace Easel

/-- A type of which variables can be declared. -/
structure Ty.Declarable (type : Ty) : Prop where
  flat : type.depth ≤ 1
  stored : type.element ≠ .void
  filled : type.isList = true → 0 < type.size

/-- The declarations of all variables and parameters of a program. -/
def Program.declarations (program : Program) : List Declaration :=
  program.globals ++ program.functions.flatMap fun function =>
    function.parameters ++ declarationsOf function.body

/-- Every declaration in a list is of a type that variables can have. -/
def AllDeclarable (declarations : List Declaration) : Prop :=
  ∀ declaration ∈ declarations, declaration.type.Declarable

theorem AllDeclarable.nil : AllDeclarable [] :=
  nofun

theorem AllDeclarable.cons {declaration : Declaration}
    {declarations : List Declaration}
    (first : declaration.type.Declarable)
    (rest : AllDeclarable declarations) :
    AllDeclarable (declaration :: declarations) :=
  List.forall_mem_cons.mpr ⟨first, rest⟩

theorem AllDeclarable.append {first second : List Declaration}
    (before : AllDeclarable first)
    (after : AllDeclarable second) :
    AllDeclarable (first ++ second) :=
  List.forall_mem_append.mpr ⟨before, after⟩

theorem declarationsOf_append (first second : List Stmt) :
    declarationsOf (first ++ second) = declarationsOf first ++
      declarationsOf second := by
  induction first with
  | nil => rfl
  | cons statement first induction =>
    rw [List.cons_append, declarationsOf, declarationsOf, induction,
      List.append_assoc]

theorem declarationsOf_map_declare (declarations : List Declaration) :
    declarationsOf (declarations.map .declare) = declarations := by
  induction declarations with
  | nil => rfl
  | cons declaration declarations induction =>
    rw [List.map_cons, declarationsOf, induction]
    rfl

theorem declarationsOf_singleton (statement : Stmt) :
    declarationsOf [statement] = statement.declarations := by
  rw [declarationsOf, declarationsOf, List.append_nil]

namespace Grammar

variable {tokens : List Token}

/-- A type that stands in a text is declarable unless it is the absent one. -/
theorem TypePhrase.declarable {type : Ty}
    (phrase : TypePhrase tokens type)
    (notVoid : type.isVoid = false) :
    type.Declarable := by
  cases phrase with
  | @basic element =>
    refine ⟨Nat.zero_le 1, ?_, nofun⟩
    rintro rfl
    cases notVoid
  | list stored positive => exact ⟨Nat.le_refl 1, stored, fun _ => positive⟩

theorem NamesPhrase.declarable {type : Ty} {declarations : List Declaration}
    (phrase : NamesPhrase type tokens declarations)
    (declarable : type.Declarable) :
    AllDeclarable declarations := by
  induction phrase with
  | last => exact .cons declarable .nil
  | more _ induction => exact .cons declarable induction

theorem DeclarationPhrase.declarable {declarations : List Declaration}
    (phrase : DeclarationPhrase tokens declarations) :
    AllDeclarable declarations := by
  obtain ⟨typed, notVoid, names⟩ := phrase
  exact names.declarable (typed.declarable notVoid)

theorem ParametersPhrase.declarable {parameters : List Declaration}
    (phrase : ParametersPhrase tokens parameters) :
    AllDeclarable parameters := by
  induction phrase with
  | last typed notVoid => exact .cons (typed.declarable notVoid) .nil
  | more typed notVoid _ induction =>
    exact .cons (typed.declarable notVoid) induction

theorem CodePhrase.declarable {part : CodePart} {code : List Stmt}
    (phrase : CodePhrase part tokens code) :
    AllDeclarable (declarationsOf code) := by
  induction phrase with
  | declare declaration =>
    rw [declarationsOf_map_declare]
    exact declaration.declarable
  | branch _ _ body | whileLoop _ _ body | forLoop _ _ body =>
    rw [declarationsOf_singleton, Stmt.declarations]
    exact body
  | branchElse _ _ _ body otherwise =>
    rw [declarationsOf_singleton, Stmt.declarations]
    exact body.append otherwise
  | assign _ | write _ | bareReturn | «return» _ | call _ | done => exact .nil
  | block _ body => exact body
  | step _ _ first others =>
    rw [declarationsOf_append]
    exact first.append others

theorem FunctionPhrase.declarable {function : Function}
    (phrase : FunctionPhrase tokens function) :
    AllDeclarable (function.parameters ++ declarationsOf function.body) := by
  cases phrase with
  | bare _ block => exact block.declarable
  | mk _ parameters block => exact parameters.declarable.append block.declarable

theorem GlobalsPhrase.declarable {globals : List Declaration}
    (phrase : GlobalsPhrase tokens globals) : AllDeclarable globals := by
  induction phrase with
  | none => exact .nil
  | more declaration _ induction =>
    exact declaration.declarable.append induction

theorem FunctionsPhrase.declarable {functions : List Function}
    (phrase : FunctionsPhrase tokens functions) :
    AllDeclarable (functions.flatMap fun function =>
      function.parameters ++ declarationsOf function.body) := by
  induction phrase with
  | none => exact .nil
  | more function _ induction =>
    rw [List.flatMap_cons]
    exact function.declarable.append induction

end Grammar

/-- A program that was read declares only types that variables can have. -/
theorem Program.declarable_of_parse {source : String} {program : Program}
    (parsed : Program.parse source = .ok program) :
    AllDeclarable program.declarations := by
  obtain ⟨_, _, _, _, globals, functions⟩ := Grammar.phrase_of_parse parsed
  exact globals.declarable.append functions.declarable

end Easel
