import Easel.Proofs.Code.Assembly
import Easel.Proofs.Program.Literals

/-!
# The expressions that generation visits

Generating code for a program generates code for its expressions, one after
the other, and stops at the first for which no storage is left.  A visit is a
position and a draft for which the code of an expression is generated.  Where
generation does not stop, every expression of the program is visited, in the
order in which they stand in the code.

At each visit the operand has the type that the checker found for the
expression, and it lies in a slot of that type.
-/

namespace Easel

/-! ## Visits -/

def Phrase.parts : Phrase → List Expr
  | .value expression _ => expression.parts
  | .operands expressions _ | .arguments expressions _ => partsOf expressions

def Clause.parts : Clause → List Expr
  | .statement action => action.parts
  | .block body => partsIn body

/-- A position and a draft for which the code of an expression is generated. -/
structure Visit where
  start : Nat
  draft : Draft
  expression : Expr

/-- The visits after a piece of code, if it was generated. -/
def following {α β : Type}
    (generated : Except CompileError (α × Draft))
    (visits : α → Draft → List β) : List β :=
  match generated with
  | .ok (value, left) => visits value left
  | .error _ => []

namespace Context

mutual

/-- The visits for an expression at a position, in a draft. -/
def visits (context : Context) (start : Nat) (draft : Draft) : Expr → List Visit
  | .literal value line => [⟨start, draft, .literal value line⟩]
  | .access name field line => [⟨start, draft, .access name field line⟩]
  | .item name index field line =>
    ⟨start, draft, .item name index field line⟩ ::
      context.visits start draft index
  | .call name arguments line =>
    ⟨start, draft, .call name arguments line⟩ ::
      match Builtin.find? name with
      | some _ => context.visitsOfOperands start 2 draft arguments
      | none =>
        match context.functions.find? name with
        | none => []
        | some routine =>
          context.visitsOfArguments (start + 1) draft arguments
            routine.parameters
  | .not operand line =>
    ⟨start, draft, .not operand line⟩ :: context.visits start draft operand
  | .group inner line =>
    ⟨start, draft, .group inner line⟩ :: context.visits start draft inner
  | .binary operator left right =>
    ⟨start, draft, .binary operator left right⟩ ::
      (context.visits start draft left ++
        following (context.emitExpr start left draft) fun (_, code) between =>
        context.visits (start + code.length) between right)

def visitsOfOperands (context : Context) (start count : Nat) (draft : Draft) :
    List Expr → List Visit
  | [] => []
  | first :: rest =>
    match count with
    | 0 => []
    | count + 1 =>
      context.visits start draft first ++
        following (context.emitExpr start first draft) fun (_, code) between =>
          context.visitsOfOperands (start + code.length) count between rest

def visitsOfArguments (context : Context) (start : Nat) (draft : Draft) :
    List Expr → List Ty → List Visit
  | [], _ => []
  | argument :: arguments, parameters =>
    match parameters with
    | [] => []
    | parameter :: parameters =>
      context.visits start draft argument ++
        following (context.emitExpr start argument draft)
        fun (value, code) between =>
          following (emitWidening parameter value between)
              fun (_, widening) widened =>
            context.visitsOfArguments
              (start + code.length + widening.length + 1) widened
              arguments parameters

end

def visitsOfAssignment (context : Context)
    (start : Nat)
    (draft : Draft)
    (assignment : Assignment) : List Visit :=
  context.visits start draft assignment.value ++
    following (context.emitExpr start assignment.value draft)
    fun (_, code) between =>
      match assignment.target.index with
      | none => []
      | some index => context.visits (start + code.length) between index

mutual

def visitsOfStmt (context : Context) (start : Nat) (draft : Draft) :
    Stmt → List Visit
  | .declare _ => []
  | .assign assignment => context.visitsOfAssignment start draft assignment
  | .branch guard body _ | .whileLoop guard body _ =>
    context.visits start draft guard ++
      following (context.emitExpr start guard draft)
      fun (_, guardCode) between =>
        context.visitsOfBlock (start + guardCode.length + 1) between body
  | .branchElse guard body otherwise _ =>
    context.visits start draft guard ++
      following (context.emitExpr start guard draft)
      fun (_, guardCode) between =>
        context.visitsOfBlock (start + guardCode.length + 1) between body ++
          following
          (context.emitBlock (start + guardCode.length + 1) body between)
            fun bodyCode middle => context.visitsOfBlock
              (start + guardCode.length + 1 + bodyCode.length + 1)
              middle otherwise
  | .forLoop first guard step body _ =>
    context.visitsOfAssignment start draft first ++
      following (context.emitAssignment start first draft)
      fun firstCode begun =>
        context.visits (start + firstCode.length) begun guard ++
          following (context.emitExpr (start + firstCode.length) guard begun)
            fun (_, guardCode) between =>
              context.visitsOfBlock
                  (start + firstCode.length + guardCode.length + 1)
                  between body ++
                following (context.emitBlock
                    (start + firstCode.length + guardCode.length +
                      1) body between)
                  fun bodyCode middle => context.visitsOfAssignment
                    (start + firstCode.length + guardCode.length + 1 +
                      bodyCode.length) middle
                    step
  | .write value _ => context.visits start draft value
  | .ret none _ => []
  | .ret (some value) _ => context.visits start draft value
  | .call name arguments line =>
    context.visits start draft (.call name arguments line)

def visitsOfBlock (context : Context) (start : Nat) (draft : Draft) :
    List Stmt → List Visit
  | [] => []
  | statement :: rest =>
    context.visitsOfStmt start draft statement ++
      following (context.emitStmt start statement draft) fun code between =>
        context.visitsOfBlock (start + code.length) between rest

end

end Context

/-! ## Visits and the expressions of a program -/

/-- A visit of an expression that was checked, in a draft that is in order. -/
structure Visit.Proper (plain : Context) (visit : Visit) : Prop where
  sound : visit.draft.Sound
  checked : ∃ declared type, plain.typeOf declared visit.expression = .ok type

/-- Generation of a piece of code that stores no literals. -/
def Idle {α : Type} (action : Gen α) : Prop :=
  ∀ draft value left, action draft = .ok (value, left) →
    left.space.constants = draft.space.constants

namespace Idle

variable {α β : Type} {first : Gen α} {next : α → Gen β}

theorem pure (value : α) : Idle (Pure.pure value) := by
  rintro draft _ left ⟨⟩
  rfl

theorem lift (plain : Except CompileError α) : Idle (liftM plain) := by
  intro draft value left ran
  rw [(Threaded.lift_eq_ok.mp ran).2]

theorem bind (before : Idle first) (after : ∀ value, Idle (next value)) :
    Idle (first >>= next) := by
  intro draft result left ran
  obtain ⟨value, _, ranFirst, ranNext⟩ := Threaded.bind_eq_ok.mp ran
  exact (after value _ _ _ ranNext).trans (before _ _ _ ranFirst)

theorem temp (type : Ty) : Idle (Gen.temp type) := by
  intro draft address left ran
  simp only [Gen.temp, Gen.allocate, Threaded.get_bind, Threaded.bind_eq_ok,
    Threaded.lift_eq_ok, Threaded.set_bind, Threaded.pure_eq_ok, and_assoc,
    exists_and_left, exists_eq_left] at ran
  obtain ⟨⟨_, _⟩, granted, rfl, rfl⟩ := ran
  unfold Space.nextTemp at granted
  split at granted
  · cases granted
    rfl
  · exact (Space.next_kept granted).1

theorem link (index : Nat) (field : Field) (target : String) :
    Idle (Gen.link index field target) := by
  rintro draft _ left ⟨⟩
  rfl

theorem pointer (context : Context)
    (name : String)
    (index : Operand)
    (field : Option String)
    (line : Nat) :
    Idle (context.emitPointer name index field line) :=
  (lift _).bind fun _ => (lift _).bind fun _ => (temp _).bind fun _ => .pure _

theorem access (context : Context)
    (name : String)
    (field : Option String)
    (line : Nat) :
    Idle (context.emitAccess name field line) :=
  (lift _).bind fun _ => (lift _).bind fun _ => .pure _

theorem widening (parameter : Ty) (argument : Operand) :
    Idle (Context.emitWidening parameter argument) := by
  unfold Context.emitWidening
  split
  · exact .pure _
  · exact (temp _).bind fun _ => .pure _

end Idle

/-- An expression and what comes of generating its code. -/
abbrev Emission := Expr × Except CompileError ((Operand × List Quad) × Draft)

def Visit.emission (context : Context) (visit : Visit) : Emission :=
  (visit.expression, context.emitExpr visit.start visit.expression visit.draft)

/--
What was generated between two drafts: code for each of the given expressions,
with literals that are still stored at the end, and the literals that were
stored are among the expressions.
-/
structure Completes (draft left : Draft)
    (emissions : List Emission)
    (parts : List Expr) : Prop where
  expressions : emissions.map Prod.fst = parts
  kept : ∀ emission ∈ emissions, ∃ value last, emission.2 = .ok (value, last) ∧
    last.space.constants <+: left.space.constants
  grown : draft.space.constants <+: left.space.constants
  stored : ∀ constant ∈ left.space.constants, constant ∈ draft.space.constants ∨
    ∃ literal line, .literal literal line ∈ parts ∧
      constant.text = literal.text ∧ constant.element = literal.element

namespace Completes

variable {draft between left : Draft} {emissions others : List Emission}
  {parts more : List Expr}

theorem nothing (same : left.space.constants = draft.space.constants) :
    Completes draft left [] [] :=
  ⟨rfl, nofun, same ▸ List.prefix_refl _, fun _ member => .inl (same ▸ member)⟩

theorem append (first : Completes draft between emissions parts)
    (second : Completes between left others more) :
    Completes draft left (emissions ++ others) (parts ++ more) := by
  refine ⟨?_, List.forall_mem_append.mpr ⟨?_, second.kept⟩,
    first.grown.trans second.grown, ?_⟩
  · rw [List.map_append, first.expressions, second.expressions]
  · intro emission member
    obtain ⟨value, last, ran, still⟩ := first.kept emission member
    exact ⟨value, last, ran, still.trans second.grown⟩
  · intro constant member
    rcases second.stored constant member with earlier
      | ⟨literal, line, isPart, same⟩
    · rcases first.stored constant earlier with before
        | ⟨literal, line, isPart, same⟩
      · exact .inl before
      · exact .inr ⟨literal, line, List.mem_append_left _ isPart, same⟩
    · exact .inr ⟨literal, line, List.mem_append_right _ isPart, same⟩

end Completes

/--
All of the visits are proper and, if what they are for was generated, they are
the visits of the given expressions.
-/
structure Surveys {α : Type}
    (plain context : Context)
    (draft : Draft)
    (generated : Except CompileError (α × Draft))
    (visits : List Visit)
    (parts : List Expr) : Prop where
  proper : ∀ visit ∈ visits, visit.Proper plain
  complete : ∀ value left, generated = .ok (value, left) →
    Completes draft left (visits.map (·.emission context)) parts

namespace Surveys

variable {α β : Type} {plain context : Context} {draft : Draft}
  {visits : List Visit}
variable {parts : List Expr} {first : Gen α} {next : α → Gen β}

theorem nothing (idle : Idle first) :
    Surveys plain context draft (first draft) [] [] :=
  ⟨nofun, fun _ _ ran => .nothing (idle _ _ _ ran)⟩

theorem visit {start : Nat} {expression : Expr}
    (proper : Visit.Proper plain ⟨start, draft, expression⟩)
    (surveys : Surveys plain context draft
      (context.emitExpr start expression draft) visits parts) :
    Surveys plain context draft (context.emitExpr start expression draft)
      (⟨start, draft, expression⟩ :: visits) (expression :: parts) := by
  refine ⟨List.forall_mem_cons.mpr ⟨proper, surveys.proper⟩,
    fun value left ran => ?_⟩
  have inside := surveys.complete value left ran
  refine ⟨congrArg (expression :: ·) inside.expressions,
    List.forall_mem_cons.mpr ⟨⟨value, left, ran, List.prefix_refl _⟩,
      inside.kept⟩, inside.grown,
    fun constant member => (inside.stored constant member).imp_right ?_⟩
  rintro ⟨literal, line, isPart, same⟩
  exact ⟨literal, line, List.mem_cons_of_mem _ isPart, same⟩

theorem bind {later : α → Draft → List Visit} {others : List Expr}
    {post : α → Draft → Prop}
    (surveys : Surveys plain context draft (first draft) visits parts)
    (yields : Yields (first draft) post)
    (rest : ∀ value between, post value between →
      Surveys plain context between (next value between) (later value between)
      others) :
    Surveys plain context draft ((first >>= next) draft)
      (visits ++ following (first draft) later) (parts ++ others) := by
  constructor
  · intro visit member
    rcases List.mem_append.mp member with here | after
    · exact surveys.proper visit here
    · unfold following at after
      split at after
      · rename_i ran
        exact (rest _ _ (yields.works _ _ ran)).proper visit after
      · cases after
  · intro result left ran
    obtain ⟨value, between, ranFirst, ranNext⟩ := Threaded.bind_eq_ok.mp ran
    rw [ranFirst, following, List.map_append]
    exact (surveys.complete value between ranFirst).append
      ((rest value between (yields.works _ _ ranFirst)).complete
        result left ranNext)

/-- What comes after the last visit stores no literals. -/
theorem before
    (surveys : Surveys plain context draft (first draft) visits parts)
    (idle : ∀ value, Idle (next value)) :
    Surveys plain context draft ((first >>= next) draft) visits parts := by
  refine ⟨surveys.proper, fun result left ran => ?_⟩
  obtain ⟨value, between, ranFirst, ranNext⟩ := Threaded.bind_eq_ok.mp ran
  simpa using (surveys.complete value between ranFirst).append
    (.nothing (idle value _ _ _ ranNext))

end Surveys

/-! ## Expressions -/

section

variable {plain context : Context}

mutual

theorem visits_survey (prepared : plain.Prepared context)
    {declared : List String} {start : Nat} {draft : Draft} {type : Ty} :
    (expression : Expr) → draft.Sound →
      plain.typeOf declared expression = .ok type →
      Surveys plain context draft (context.emitExpr start expression draft)
        (context.visits start draft expression) expression.parts
  | .literal value line, sound, checked => by
    have proper : Visit.Proper plain ⟨start, draft, .literal value line⟩ :=
      ⟨sound, declared, type, checked⟩
    rw [Context.visits, Expr.parts]
    refine ⟨by simpa using proper, fun result left ran => ?_⟩
    have emitted := ran
    rw [Context.emitExpr] at emitted
    obtain ⟨_, between, ranConstant, same⟩ := Threaded.bind_eq_ok.mp emitted
    cases same
    obtain ⟨_, _, further, added⟩ := (Gen.constant_yields sound).works
      _ _ ranConstant
    refine ⟨rfl, ?_, further.constants, fun constant member =>
      (added constant member).imp_right fun same =>
        ⟨value, line, List.mem_cons_self, same⟩⟩
    rintro emission (_ | ⟨_, ⟨⟩⟩)
    exact ⟨_, left, ran, List.prefix_refl _⟩
  | .access name field line, sound, checked => by
    rw [Context.visits, Expr.parts]
    refine .visit ⟨sound, declared, type, checked⟩ ?_
    rw [Context.emitExpr]
    exact .nothing ((Idle.access context name field line).bind fun _ => .pure _)
  | .item name index field line, sound, checked => by
    rw [Context.visits, Expr.parts]
    refine .visit ⟨sound, declared, type, checked⟩ ?_
    rw [Context.typeOf] at checked
    obtain ⟨_, checkedIndex, _⟩ := bind_eq_ok.mp checked
    rw [Context.emitExpr]
    exact (visits_survey prepared index sound checkedIndex).before fun (_, _) =>
      (Idle.pointer _ _ _ _ _).bind fun (_, _) => (Idle.temp _).bind
        fun _ => .pure _
  | .call name arguments line, sound, checked => by
    rw [Context.visits, Expr.parts]
    refine .visit ⟨sound, declared, type, checked⟩ ?_
    rw [Context.typeOf] at checked
    obtain ⟨_, checkedArguments, checkedCall⟩ := bind_eq_ok.mp checked
    have count := typesOf_length checkedArguments
    rw [Context.emitExpr]
    cases found : Builtin.find? name with
    | some builtin =>
      obtain ⟨_, sameCount, _⟩ := callType_of_builtin found checkedCall
      have few := Builtin.parameters_le found
      exact (visitsOfOperands_survey prepared arguments (by omega) sound
        checkedArguments).before fun (_, _) => (Idle.temp _).bind
        fun _ => .pure _
    | none =>
      obtain ⟨_, knownBefore, _, sameCount, takes⟩ :=
        callType_of_routine found checkedCall
      obtain ⟨_, known, _, sameParameters⟩ := prepared.routine knownBefore
      rw [← sameParameters] at sameCount takes
      rw [known]
      exact (visitsOfArguments_survey prepared arguments
        (sameCount.trans count) sound checkedArguments takes).before fun _ =>
          (Idle.temp _).bind fun _ => (Idle.link _ _ _).bind fun _ => .pure _
  | .not operand line, sound, checked => by
    rw [Context.visits, Expr.parts]
    refine .visit ⟨sound, declared, type, checked⟩ ?_
    rw [Context.typeOf] at checked
    obtain ⟨_, checkedOperand, _⟩ := bind_eq_ok.mp checked
    rw [Context.emitExpr]
    exact (visits_survey prepared operand sound checkedOperand).before
        fun (_, _) =>
      (Idle.lift _).bind fun _ => (Idle.temp _).bind fun _ => .pure _
  | .group inner line, sound, checked => by
    rw [Context.visits, Expr.parts]
    refine .visit ⟨sound, declared, type, checked⟩ ?_
    rw [Context.typeOf] at checked
    rw [Context.emitExpr]
    exact visits_survey prepared inner sound checked
  | .binary operator first second, sound, checked => by
    rw [Context.visits, Expr.parts]
    refine .visit ⟨sound, declared, type, checked⟩ ?_
    rw [Context.typeOf] at checked
    obtain ⟨_, checkedFirst, checked⟩ := bind_eq_ok.mp checked
    obtain ⟨_, checkedSecond, _⟩ := bind_eq_ok.mp checked
    rw [Context.emitExpr]
    refine (visits_survey prepared first sound checkedFirst).bind
      (emitExpr_yields prepared first sound checkedFirst) ?_
    rintro ⟨value, _⟩ between ⟨_, _, computed⟩
    exact (visits_survey prepared second computed.emitted.sound
      checkedSecond).before fun (_, _) => (Idle.lift _).bind fun _ =>
      (Idle.temp _).bind fun _ => .pure _

theorem visitsOfOperands_survey (prepared : plain.Prepared context)
    {declared : List String} {start count : Nat} {draft : Draft}
    {types : List Ty} :
    (expressions : List Expr) → expressions.length ≤ count → draft.Sound →
      plain.typesOf declared expressions = .ok types →
      Surveys plain context draft
        (context.emitOperands start count expressions draft)
        (context.visitsOfOperands start count draft expressions)
        (partsOf expressions)
  | [], _, _, _ => by
    rw [Context.visitsOfOperands, partsOf, Context.emitOperands]
    exact .nothing (.pure _)
  | first :: rest, enough, sound, checked => by
    rw [Context.typesOf] at checked
    obtain ⟨_, checkedFirst, checked⟩ := bind_eq_ok.mp checked
    obtain ⟨_, checkedRest, _⟩ := bind_eq_ok.mp checked
    cases count with
    | zero => simp at enough
    | succ count =>
      rw [Context.visitsOfOperands, partsOf, Context.emitOperands]
      refine (visits_survey prepared first sound checkedFirst).bind
        (emitExpr_yields prepared first sound checkedFirst) ?_
      rintro ⟨_, _⟩ between ⟨_, _, computed⟩
      exact (visitsOfOperands_survey prepared rest
        (Nat.le_of_succ_le_succ enough) computed.emitted.sound
        checkedRest).before fun (_, _) => .pure _

theorem visitsOfArguments_survey (prepared : plain.Prepared context)
    {declared : List String} {start : Nat} {draft : Draft}
    {types parameters : List Ty} :
    (expressions : List Expr) → parameters.length = expressions.length →
      draft.Sound → plain.typesOf declared expressions = .ok types →
      (∀ (index : Nat) (parameter : Ty) (argument : Expr) (found : Ty),
        parameters[index]? = some parameter →
          expressions[index]? = some argument → types[index]? = some found →
          takesArgument parameter argument found = true) →
      Surveys plain context draft
        (context.emitArguments start expressions parameters draft)
        (context.visitsOfArguments start draft expressions parameters)
        (partsOf expressions)
  | [], _, _, _, _ => by
    rw [Context.visitsOfArguments, partsOf, Context.emitArguments]
    exact .nothing (.pure _)
  | first :: rest, count, sound, checked, takes => by
    rw [Context.typesOf] at checked
    obtain ⟨_, checkedFirst, checked⟩ := bind_eq_ok.mp checked
    obtain ⟨_, checkedRest, checked⟩ := bind_eq_ok.mp checked
    cases pure_eq_ok.mp checked
    cases parameters with
    | nil => simp at count
    | cons parameter parameters =>
      rw [Context.visitsOfArguments, partsOf, Context.emitArguments]
      refine (visits_survey prepared first sound checkedFirst).bind
        (emitExpr_yields prepared first sound checkedFirst) ?_
      rintro ⟨value, code⟩ between ⟨rfl, narrow, computed⟩
      have firstTakes := takes 0 parameter first value.type rfl rfl rfl
      refine (Surveys.nothing (.widening parameter value)).bind
        (emitWidening_yields computed.emitted.sound firstTakes narrow
          context.functions (start + code.length)) ?_
      rintro ⟨_, _⟩ widened ⟨_, brought, _⟩
      refine Surveys.before ?_ fun _ => .pure _
      simp only [List.length_append, List.length_singleton, ← Nat.add_assoc]
      exact visitsOfArguments_survey prepared rest
        (Nat.succ.inj count) brought.sound checkedRest fun index =>
        takes (index + 1)

end

end

/-! ## Statements -/

section

variable {plain context : Context}

theorem visitsOfAssignment_survey {declared : List String} {start : Nat}
    {draft : Draft} {assignment : Assignment}
    (prepared : plain.Prepared context)
    (sound : draft.Sound)
    (checked : plain.checkAssignment declared assignment = .ok ()) :
    Surveys plain context draft (context.emitAssignment start assignment draft)
      (context.visitsOfAssignment start draft assignment) assignment.parts := by
  obtain ⟨_, _, checkedTarget, checkedValue, _⟩ := checkAssignment_ok checked
  unfold Context.visitsOfAssignment Assignment.parts Context.emitAssignment
  refine (visits_survey prepared assignment.value sound checkedValue).bind
    (emitExpr_yields prepared assignment.value sound checkedValue) ?_
  rintro ⟨_, _⟩ between ⟨_, _, computed⟩
  cases indexed : assignment.target.index with
  | none => exact .nothing ((Idle.access _ _ _ _).bind fun _ => .pure _)
  | some index =>
    obtain ⟨_, checkedIndex, _⟩ := targetType_item indexed checkedTarget
    exact (visits_survey prepared index computed.emitted.sound
      checkedIndex).before fun (_, _) => (Idle.pointer _ _ _ _ _).bind
      fun (_, _) => .pure _

mutual

theorem visitsOfStmt_survey (prepared : plain.Prepared context)
    {declared after : List String} {start : Nat} {draft : Draft} :
    (statement : Stmt) → context.Lists statement.declarations → draft.Sound →
      plain.checkStmt declared statement = .ok after →
      Surveys plain context draft (context.emitStmt start statement draft)
        (context.visitsOfStmt start draft statement) statement.parts
  | .declare declaration, _, _, _ => by
    rw [Context.visitsOfStmt, Stmt.parts, Context.emitStmt]
    cases found : context.scope.locals.find? declaration.name with
    | none => exact ⟨nofun, fun _ _ ran => absurd ran Threaded.throw_ne_ok⟩
    | some owner => exact .nothing ((Idle.lift _).bind fun _ => .pure _)
  | .assign assignment, _, sound, checked => by
    rw [Context.checkStmt] at checked
    obtain ⟨_, checkedAssignment, _⟩ := bind_eq_ok.mp checked
    rw [Context.visitsOfStmt, Stmt.parts, Context.emitStmt]
    exact visitsOfAssignment_survey prepared sound checkedAssignment
  | .branch guard body line, lists, sound, checked
  | .whileLoop guard body line, lists, sound, checked => by
    rw [Context.checkStmt] at checked
    rw [Stmt.declarations] at lists
    obtain ⟨_, guarded, checkedBody⟩ := bind_eq_ok.mp checked
    obtain ⟨type, checkedGuard, _⟩ := checkGuard_ok guarded
    rw [Context.visitsOfStmt, Stmt.parts, Context.emitStmt]
    refine (visits_survey prepared guard sound checkedGuard).bind
      (emitExpr_yields prepared guard sound checkedGuard) ?_
    rintro ⟨value, guardCode⟩ between ⟨_, _, computed⟩
    exact (visitsOfBlock_survey prepared body lists computed.emitted.sound
      checkedBody).before fun _ => .pure _
  | .branchElse guard body otherwise line, lists, sound, checked => by
    rw [Context.checkStmt] at checked
    rw [Stmt.declarations] at lists
    obtain ⟨_, guarded, checked⟩ := bind_eq_ok.mp checked
    obtain ⟨_, checkedBody, checkedOtherwise⟩ := bind_eq_ok.mp checked
    obtain ⟨type, checkedGuard, _⟩ := checkGuard_ok guarded
    rw [Context.visitsOfStmt, Stmt.parts, Context.emitStmt]
    refine (visits_survey prepared guard sound checkedGuard).bind
      (emitExpr_yields prepared guard sound checkedGuard) ?_
    rintro ⟨value, guardCode⟩ between ⟨_, _, computed⟩
    refine (visitsOfBlock_survey prepared body lists.left computed.emitted.sound
      checkedBody).bind
      (emitBlock_yields prepared body lists.left computed.emitted.sound
        checkedBody) ?_
    intro bodyCode middle inside
    exact (visitsOfBlock_survey prepared otherwise lists.right
      inside.emitted.sound checkedOtherwise).before fun _ => .pure _
  | .forLoop first guard step body line, lists, sound, checked => by
    rw [Context.checkStmt] at checked
    rw [Stmt.declarations] at lists
    obtain ⟨_, checkedFirst, checked⟩ := bind_eq_ok.mp checked
    obtain ⟨_, guarded, checked⟩ := bind_eq_ok.mp checked
    obtain ⟨_, checkedStep, checkedBody⟩ := bind_eq_ok.mp checked
    obtain ⟨type, checkedGuard, _⟩ := checkGuard_ok guarded
    rw [Context.visitsOfStmt, Stmt.parts, Context.emitStmt]
    refine (visitsOfAssignment_survey prepared sound checkedFirst).bind
      (emitAssignment_yields prepared sound checkedFirst) ?_
    intro firstCode begun initially
    refine (visits_survey prepared guard initially.emitted.sound
      checkedGuard).bind
      (emitExpr_yields prepared guard initially.emitted.sound checkedGuard) ?_
    rintro ⟨value, guardCode⟩ between ⟨_, _, computed⟩
    refine (visitsOfBlock_survey prepared body lists computed.emitted.sound
      checkedBody).bind
      (emitBlock_yields prepared body lists computed.emitted.sound checkedBody)
      ?_
    intro bodyCode middle inside
    exact (visitsOfAssignment_survey prepared inside.emitted.sound
      checkedStep).before fun _ => .pure _
  | .write value line, _, sound, checked => by
    rw [Context.checkStmt] at checked
    obtain ⟨_, printable, _⟩ := bind_eq_ok.mp checked
    unfold Context.checkWrite at printable
    obtain ⟨type, checkedValue, _⟩ := bind_eq_ok.mp printable
    rw [Context.visitsOfStmt, Stmt.parts, Context.emitStmt]
    exact (visits_survey prepared value sound checkedValue).before
      fun (_, _) => .pure _
  | .ret none line, _, _, _ => by
    rw [Context.visitsOfStmt, Stmt.parts, Context.emitStmt]
    exact .nothing (.pure _)
  | .ret (some value) line, _, sound, checked => by
    rw [Context.checkStmt] at checked
    obtain ⟨_, returns, _⟩ := bind_eq_ok.mp checked
    unfold Context.checkReturn at returns
    obtain ⟨type, checkedValue, _⟩ := bind_eq_ok.mp returns
    rw [Context.visitsOfStmt, Stmt.parts, Context.emitStmt]
    exact (visits_survey prepared value sound checkedValue).before
      fun (_, _) => .pure _
  | .call name arguments line, _, sound, checked => by
    rw [Context.checkStmt] at checked
    obtain ⟨types, checkedArguments, checked⟩ := bind_eq_ok.mp checked
    obtain ⟨type, checkedCall, _⟩ := bind_eq_ok.mp checked
    have checkedValue : plain.typeOf declared (.call name arguments line) =
        .ok type := by
      rw [Context.typeOf]
      exact bind_eq_ok.mpr ⟨types, checkedArguments, checkedCall⟩
    rw [Context.visitsOfStmt, Stmt.parts, Context.emitStmt]
    exact (visits_survey prepared (.call name arguments line) sound
      checkedValue).before fun (_, _) => .pure _

theorem visitsOfBlock_survey (prepared : plain.Prepared context)
    {declared after : List String} {start : Nat} {draft : Draft} :
    (statements : List Stmt) → context.Lists (declarationsOf statements) →
      draft.Sound → plain.checkBlock declared statements = .ok after →
      Surveys plain context draft (context.emitBlock start statements draft)
        (context.visitsOfBlock start draft statements) (partsIn statements)
  | [], _, _, _ => by
    rw [Context.visitsOfBlock, partsIn, Context.emitBlock]
    exact .nothing (.pure _)
  | statement :: rest, lists, sound, checked => by
    rw [Context.checkBlock] at checked
    obtain ⟨_, checkedFirst, checkedRest⟩ := bind_eq_ok.mp checked
    rw [declarationsOf] at lists
    rw [Context.visitsOfBlock, partsIn, Context.emitBlock]
    refine (visitsOfStmt_survey prepared statement lists.left sound
      checkedFirst).bind
      (emitStmt_yields prepared statement lists.left sound checkedFirst) ?_
    intro firstCode middle first
    exact (visitsOfBlock_survey prepared rest lists.right first.emitted.sound
      checkedRest).before fun _ => .pure _

end

end

end Easel
