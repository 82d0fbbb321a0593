import Easel.Proofs.Code.Program
import Easel.Proofs.Flow

/-!
# Names and the order of statements

A body mentions names in the order in which it is checked: it declares them and
it uses them.  A name that a function declares anywhere is its own variable
from the declaration on and cannot be used before; any other name is a global
variable.  A program that passes its checks keeps to this rule, and the code
that is generated for each use works on the variable that the rule gives.
-/

namespace Easel

variable {known : List String}

/-- A use of a name: a variable, an item of a list, or an attribute. -/
structure Reference where
  name : String
  indexed : Bool
  field : Option String
  line : Nat

/-- The distance of the designated storage from its variable or item. -/
def Reference.offset (reference : Reference) : Nat :=
  ((reference.field.bind Attribute.ofName?).map Attribute.offset).getD 0

mutual

/-- The uses of names in an expression. -/
def Expr.references : Expr → List Reference
  | .literal .. => []
  | .access name field line => [⟨name, false, field, line⟩]
  | .item name index field line =>
    index.references ++ [⟨name, true, field, line⟩]
  | .call _ arguments _ => referencesIn arguments
  | .not operand _ => operand.references
  | .group inner _ => inner.references
  | .binary _ left right => left.references ++ right.references

def referencesIn : List Expr → List Reference
  | [] => []
  | first :: rest => first.references ++ referencesIn rest

end

/-- The uses of names in an assignment: index, target, value. -/
def Assignment.references (assignment : Assignment) : List Reference :=
  let target := assignment.target
  (target.index.map Expr.references).getD [] ++
    ⟨target.name, target.index.isSome, target.field, target.line⟩ ::
      assignment.value.references

/-- What a body says about a name. -/
inductive Mention where
  | declares (name : String)
  | refers (reference : Reference)

def uses (references : List Reference) : List Mention :=
  references.map .refers

mutual

/-- The mentions of a statement: guards and headers before the blocks. -/
def Stmt.mentions : Stmt → List Mention
  | .declare declaration => [.declares declaration.name]
  | .assign assignment => uses assignment.references
  | .branch guard body _ | .whileLoop guard body _ =>
    uses guard.references ++ mentionsIn body
  | .branchElse guard body otherwise _ =>
    uses guard.references ++ (mentionsIn body ++ mentionsIn otherwise)
  | .forLoop start guard step body _ =>
    uses start.references ++
      (uses guard.references ++ (uses step.references ++ mentionsIn body))
  | .write value _ => uses value.references
  | .ret value _ => uses ((value.map Expr.references).getD [])
  | .call _ arguments _ => uses (referencesIn arguments)

def mentionsIn : List Stmt → List Mention
  | [] => []
  | statement :: rest => statement.mentions ++ mentionsIn rest

end

/--
The rule for a use of a name after given mentions: a function's own name is
that of a parameter or was declared, and any other name is that of a global
variable.
-/
def Program.Binds (program : Program)
    (function : Function)
    (before : List Mention)
    (name : String) : Prop :=
  if name ∈ function.localNames then
    name ∈ function.parameters.map (·.name) ∨ .declares name ∈ before
  else name ∈ program.globals.map (·.name)

/-! ## What the checks admit -/

/-- A use of a name that the checks admit, by what is declared so far. -/
def Context.Knows (context : Context)
    (declared : List String)
    (reference : Reference) : Prop :=
  ∃ type, context.placeType declared reference.name reference.indexed
    reference.field reference.line = .ok type

/-- Mentions that the checks admit, and what is declared around them. -/
inductive Context.Admits (context : Context) :
    List String → List Mention → List String → Prop where
  | nil {declared : List String} : Admits context declared [] declared
  | declares {declared after : List String} {name : String}
      {rest : List Mention}
      (later : Admits context (name :: declared) rest after) :
      Admits context declared (.declares name :: rest) after
  | refers {declared after : List String} {reference : Reference}
      {rest : List Mention} (known : context.Knows declared reference)
      (later : Admits context declared rest after) :
      Admits context declared (.refers reference :: rest) after

section

variable {context : Context} {declared between after : List String} {type : Ty}

theorem Context.Admits.append {first second : List Mention}
    (before : context.Admits declared first between)
    (behind : context.Admits between second after) :
    context.Admits declared (first ++ second) after := by
  induction before with
  | nil => exact behind
  | declares _ ih => exact .declares (ih behind)
  | refers known _ ih => exact .refers known (ih behind)

theorem Context.Admits.uses {references : List Reference}
    (known : ∀ reference ∈ references, context.Knows declared reference) :
    context.Admits declared (uses references) declared := by
  induction references with
  | nil => exact .nil
  | cons first rest ih =>
    obtain ⟨here, later⟩ := List.forall_mem_cons.mp known
    exact .refers here (ih later)

theorem Context.Admits.knows {before later : List Mention}
    {reference : Reference}
    (admits : context.Admits declared (before ++ .refers reference :: later)
      after) :
    ∃ known, context.Knows known reference ∧
      ∀ name, name ∈ known ↔ name ∈ declared ∨ .declares name ∈ before := by
  induction before generalizing declared with
  | nil =>
    cases admits with
    | refers known _ => exact ⟨declared, known, by simp⟩
  | cons mention before ih =>
    cases admits with
    | declares rest =>
      obtain ⟨known, knows, members⟩ := ih rest
      refine ⟨known, knows, fun name => ?_⟩
      rw [members name]
      simp only [List.mem_cons, Mention.declares.injEq]
      tauto
    | refers _ rest =>
      obtain ⟨known, knows, members⟩ := ih rest
      exact ⟨known, knows, fun name => by simp [members name]⟩

mutual

theorem typeOf_knows (expression : Expr) {context : Context}
    {declared : List String} {type : Ty}
    (checked : context.typeOf declared expression = .ok type) :
    ∀ reference ∈ expression.references, context.Knows declared reference := by
  cases expression with
  | literal value line => exact nofun
  | access name field line =>
    rintro reference (_ | ⟨_, ⟨⟩⟩)
    exact ⟨type, checked⟩
  | item name index field line =>
    rw [Context.typeOf] at checked
    obtain ⟨_, indexChecked, checked⟩ := bind_eq_ok.mp checked
    obtain ⟨_, _, checked⟩ := bind_eq_ok.mp checked
    intro reference member
    rcases List.mem_append.mp member with inIndex | (_ | ⟨_, ⟨⟩⟩)
    · exact typeOf_knows index indexChecked reference inIndex
    · exact ⟨type, checked⟩
  | call name arguments line =>
    rw [Context.typeOf] at checked
    obtain ⟨_, argumentsChecked, _⟩ := bind_eq_ok.mp checked
    exact typesOf_knows arguments argumentsChecked
  | not operand line =>
    rw [Context.typeOf] at checked
    obtain ⟨_, operandChecked, _⟩ := bind_eq_ok.mp checked
    exact typeOf_knows operand operandChecked
  | group inner line =>
    rw [Context.typeOf] at checked
    exact typeOf_knows inner checked
  | binary operator left right =>
    rw [Context.typeOf] at checked
    obtain ⟨_, leftChecked, checked⟩ := bind_eq_ok.mp checked
    obtain ⟨_, rightChecked, _⟩ := bind_eq_ok.mp checked
    intro reference member
    rcases List.mem_append.mp member with inLeft | inRight
    · exact typeOf_knows left leftChecked reference inLeft
    · exact typeOf_knows right rightChecked reference inRight

theorem typesOf_knows (expressions : List Expr) {context : Context}
    {declared : List String} {types : List Ty}
    (checked : context.typesOf declared expressions = .ok types) :
    ∀ reference ∈ referencesIn expressions,
      context.Knows declared reference := by
  cases expressions with
  | nil => exact nofun
  | cons first rest =>
    rw [Context.typesOf] at checked
    obtain ⟨_, firstChecked, checked⟩ := bind_eq_ok.mp checked
    obtain ⟨_, restChecked, _⟩ := bind_eq_ok.mp checked
    intro reference member
    rcases List.mem_append.mp member with inFirst | inRest
    · exact typeOf_knows first firstChecked reference inFirst
    · exact typesOf_knows rest restChecked reference inRest

end

theorem checkGuard_admits {guard : Expr} {line : Nat}
    (checked : context.checkGuard declared guard line = .ok ()) :
    context.Admits declared (uses guard.references) declared := by
  obtain ⟨_, guardChecked, _⟩ := bind_eq_ok.mp checked
  exact .uses (typeOf_knows guard guardChecked)

theorem checkAssignment_admits {assignment : Assignment}
    (checked : context.checkAssignment declared assignment = .ok ()) :
    context.Admits declared (uses assignment.references) declared := by
  obtain ⟨⟨name, index, field, line⟩, value, _⟩ := assignment
  obtain ⟨target, targetChecked, checked⟩ := bind_eq_ok.mp checked
  obtain ⟨_, valueChecked, _⟩ := bind_eq_ok.mp checked
  have targetKnown : (∀ reference ∈ (index.map Expr.references).getD [],
        context.Knows declared reference) ∧
      context.Knows declared ⟨name, index.isSome, field, line⟩ := by
    cases index with
    | none => exact ⟨nofun, target, targetChecked⟩
    | some index =>
      obtain ⟨_, indexChecked, targetChecked⟩ := bind_eq_ok.mp targetChecked
      obtain ⟨_, _, placed⟩ := bind_eq_ok.mp targetChecked
      exact ⟨typeOf_knows index indexChecked, target, placed⟩
  refine .uses fun reference member => ?_
  rcases List.mem_append.mp member with inIndex | inRest
  · exact targetKnown.1 reference inIndex
  · rcases List.mem_cons.mp inRest with rfl | inValue
    · exact targetKnown.2
    · exact typeOf_knows value valueChecked reference inValue

mutual

theorem checkStmt_admits (statement : Stmt) {context : Context}
    {declared after : List String}
    (checked : context.checkStmt declared statement = .ok after) :
    context.Admits declared statement.mentions after := by
  cases statement with
  | declare declaration =>
    rw [Context.checkStmt] at checked
    cases checked
    exact .declares .nil
  | assign assignment =>
    rw [Context.checkStmt] at checked
    obtain ⟨_, assignmentChecked, checked⟩ := bind_eq_ok.mp checked
    cases checked
    exact checkAssignment_admits assignmentChecked
  | branch guard body line | whileLoop guard body line =>
    rw [Context.checkStmt] at checked
    obtain ⟨_, guardChecked, checked⟩ := bind_eq_ok.mp checked
    exact (checkGuard_admits guardChecked).append
      (checkBlock_admits body checked)
  | branchElse guard body otherwise line =>
    rw [Context.checkStmt] at checked
    obtain ⟨_, guardChecked, checked⟩ := bind_eq_ok.mp checked
    obtain ⟨_, bodyChecked, checked⟩ := bind_eq_ok.mp checked
    exact (checkGuard_admits guardChecked).append
      ((checkBlock_admits body bodyChecked).append
        (checkBlock_admits otherwise checked))
  | forLoop start guard step body line =>
    rw [Context.checkStmt] at checked
    obtain ⟨_, startChecked, checked⟩ := bind_eq_ok.mp checked
    obtain ⟨_, guardChecked, checked⟩ := bind_eq_ok.mp checked
    obtain ⟨_, stepChecked, checked⟩ := bind_eq_ok.mp checked
    exact (checkAssignment_admits startChecked).append
      ((checkGuard_admits guardChecked).append
        ((checkAssignment_admits stepChecked).append
          (checkBlock_admits body checked)))
  | write value line =>
    rw [Context.checkStmt] at checked
    obtain ⟨_, valueChecked, checked⟩ := bind_eq_ok.mp checked
    cases checked
    obtain ⟨_, typed, _⟩ := bind_eq_ok.mp valueChecked
    exact .uses (typeOf_knows value typed)
  | ret value line =>
    rw [Context.checkStmt] at checked
    obtain ⟨_, valueChecked, checked⟩ := bind_eq_ok.mp checked
    cases checked
    cases value with
    | none => exact .nil
    | some value =>
      obtain ⟨_, typed, _⟩ := bind_eq_ok.mp valueChecked
      exact .uses (typeOf_knows value typed)
  | call name arguments line =>
    rw [Context.checkStmt] at checked
    obtain ⟨_, argumentsChecked, checked⟩ := bind_eq_ok.mp checked
    obtain ⟨_, _, checked⟩ := bind_eq_ok.mp checked
    cases checked
    exact .uses (typesOf_knows arguments argumentsChecked)

theorem checkBlock_admits (block : List Stmt) {context : Context}
    {declared after : List String}
    (checked : context.checkBlock declared block = .ok after) :
    context.Admits declared (mentionsIn block) after := by
  cases block with
  | nil =>
    rw [Context.checkBlock] at checked
    cases checked
    exact .nil
  | cons statement rest =>
    rw [Context.checkBlock] at checked
    obtain ⟨_, statementChecked, checked⟩ := bind_eq_ok.mp checked
    exact (checkStmt_admits statement statementChecked).append
      (checkBlock_admits rest checked)

end

/-- A known use names a variable in scope, a declared one if it is local. -/
theorem Context.Knows.found {reference : Reference}
    (known : context.Knows declared reference) :
    (reference.name ∈ context.scope.locals.names → reference.name ∈ declared) ∧
      ∃ resolved,
        context.scope.resolve reference.name reference.indexed reference.field
        reference.line = .ok resolved := by
  obtain ⟨_, checked⟩ := known
  obtain ⟨_, isDeclared, checked⟩ := bind_eq_ok.mp checked
  obtain ⟨resolved, resolves, _⟩ := bind_eq_ok.mp checked
  refine ⟨fun own => ?_, resolved, resolves⟩
  by_contra missing
  have inTable : context.scope.locals.contains reference.name = true := by
    rw [Table.contains, Option.isSome_iff_ne_none]
    exact fun absent => Table.find?_eq_none_iff.mp absent own
  simp [Context.checkDeclared, inTable, missing] at isDeclared

end

/-! ## The code for a use of a name -/

/--
Wherever code is generated for a use of a name, it works on the variable of a
type at an address: its value is taken from there or stored there, or the index
is checked against the size of the list and the item is found from there.
-/
structure Context.Addresses (context : Context)
    (reference : Reference)
    (type : Ty)
    (address : Address) : Prop where
  access : reference.indexed = false → ∀ start draft, ∃ found,
    context.emitExpr start
      (.access reference.name reference.field reference.line) draft =
        .ok ((⟨address + reference.offset, found⟩, []), draft)
  assign : reference.indexed = false → ∀ value line start code draft left,
    context.emitAssignment start
        ⟨⟨reference.name, none, reference.field, reference.line⟩,
          value, line⟩ draft =
      .ok (code, left) →
    ∃ source valueCode,
      context.emitExpr start value draft = .ok ((source, valueCode), left) ∧
      code = valueCode ++
        [⟨.assign, source.address, .unused, address + reference.offset⟩]
  item : reference.indexed = true → ∀ index start operand code draft left,
    context.emitExpr start
      (.item reference.name index reference.field reference.line) draft =
        .ok ((operand, code), left) →
    ∃ position indexCode pointer between,
      context.emitExpr start index draft = .ok ((position, indexCode),
        between) ∧
      code = indexCode ++
        [⟨.checkBound, .wrap type.size, .unused, position.address⟩,
          ⟨.addAddress, address + reference.offset, position.address, pointer⟩,
        ⟨.assignIndexInverse, pointer, .unused, operand.address⟩]
  assignItem : reference.indexed = true →
    ∀ index value line start code draft left, context.emitAssignment start
        ⟨⟨reference.name, some index, reference.field, reference.line⟩,
          value, line⟩ draft =
      .ok (code, left) →
    ∃ source valueCode middle position indexCode between pointer,
      context.emitExpr start value draft = .ok ((source, valueCode), middle) ∧
      context.emitExpr (start + valueCode.length) index middle =
        .ok ((position, indexCode), between) ∧
      code = valueCode ++ indexCode ++
        [⟨.checkBound, .wrap type.size, .unused, position.address⟩,
          ⟨.addAddress, address + reference.offset, position.address, pointer⟩,
        ⟨.assignIndex, source.address, .unused, pointer⟩]

section

variable {context : Context} {reference : Reference} {resolved : Resolved}
  {address : Address}

theorem Scope.Resolves.field_eq {scope : Scope} {name : String} {indexed : Bool}
    {field : Option String}
    (resolves : scope.Resolves name indexed field resolved) :
    resolved.field = field.bind Attribute.ofName? := by
  cases resolves with
  | whole _ _ => rfl
  | member _ _ chosen => exact (Option.filter_eq_some_iff.mp chosen).1.symm

/-- What a use of a name designates is what its code works on. -/
theorem Context.addresses_of_resolve
    (resolves : context.scope.resolve reference.name reference.indexed
      reference.field reference.line = .ok resolved)
    (stored : resolved.owner.address = some address) :
    context.Addresses reference resolved.owner.type address := by
  obtain ⟨name, indexed, field, line⟩ := reference
  dsimp only at resolves
  have based : resolved.base name =
      .ok (address + (Reference.mk name indexed field line).offset) := by
    simp only [Resolved.base, addressOf, stored,
      (Scope.resolves_of_resolve resolves).field_eq]
    rfl
  have accessed (isWhole : indexed = false) (draft : Draft) :
      context.emitAccess name field line draft =
        .ok (⟨address + (Reference.mk name indexed field line).offset,
          resolved.type⟩, draft) := by
    subst isWhole
    refine Threaded.bind_eq_ok.mpr
      ⟨resolved, draft, Threaded.lift_eq_ok.mpr ⟨resolves, rfl⟩, ?_⟩
    exact Threaded.bind_eq_ok.mpr
      ⟨_, draft, Threaded.lift_eq_ok.mpr ⟨based, rfl⟩, rfl⟩
  have pointed (isItem : indexed = true) {index pointer : Operand}
      {code : List Quad}
      {draft left : Draft}
      (ran : context.emitPointer name index field line draft =
        .ok ((pointer, code), left)) :
      code = [⟨.checkBound, .wrap resolved.owner.type.size, .unused,
        index.address⟩,
        ⟨.addAddress, address + (Reference.mk name indexed field line).offset,
          index.address, pointer.address⟩] := by
    subst isItem
    simp only [emitPointer, Threaded.bind_eq_ok, Threaded.lift_eq_ok,
      Threaded.pure_eq_ok] at ran
    obtain ⟨_, _, ⟨otherResolves, rfl⟩, _, _, ⟨otherBased, rfl⟩, place, _,
        _, same, _⟩ :=
      ran
    rw [resolves] at otherResolves
    cases otherResolves
    rw [based] at otherBased
    cases otherBased
    cases same
    rfl
  refine ⟨?_, ?_, ?_, ?_⟩
  · intro isWhole start draft
    refine ⟨resolved.type, ?_⟩
    rw [emitExpr]
    exact Threaded.bind_eq_ok.mpr ⟨_, draft, accessed isWhole draft, rfl⟩
  · intro isWhole value _ start code draft left ran
    simp only [emitAssignment, Threaded.bind_eq_ok] at ran
    obtain ⟨⟨source, valueCode⟩, between, valueRan, place, _, placeRan, ran⟩ :=
      ran
    rw [accessed isWhole] at placeRan
    cases placeRan
    cases ran
    exact ⟨source, valueCode, valueRan, rfl⟩
  · intro isItem index start operand code draft left ran
    simp only [emitExpr, Threaded.bind_eq_ok] at ran
    obtain ⟨⟨position, indexCode⟩, between, indexRan, ⟨pointer, pointerCode⟩,
      _, pointerRan, value, _, _, ran⟩ := ran
    cases ran
    refine ⟨position, indexCode, pointer.address, between, indexRan, ?_⟩
    rw [pointed isItem pointerRan]
    simp
  · intro isItem index value _ start code draft left ran
    simp only [emitAssignment, Threaded.bind_eq_ok] at ran
    obtain ⟨⟨source, valueCode⟩, middle, valueRan, ⟨position, indexCode⟩,
      between, indexRan, ⟨pointer, pointerCode⟩, _, pointerRan, ran⟩ := ran
    cases ran
    refine ⟨source, valueCode, middle, position, indexCode, between,
      pointer.address, valueRan, indexRan, ?_⟩
    rw [pointed isItem pointerRan]
    simp

end

/-! ## Programs -/

section

variable {table : Table Variable} {declarations : List Declaration}
  {name : String}

theorem names_of_declarations
    (same : typed table.entries = typed (declarations.map Declaration.entry)) :
    table.names = declarations.map (·.name) := by
  have names : table.names =
      (Table.mk (declarations.map Declaration.entry)).names :=
    names_of_typed same
  rw [names, Table.names, List.map_map]
  rfl

theorem declaration_of_find? {found : Variable}
    (same : typed table.entries = typed (declarations.map Declaration.entry))
    (known : table.find? name = some found) :
    ∃ declaration ∈ declarations, declaration.name = name ∧
      declaration.type = found.type := by
  have member : (name, found.type) ∈ typed table.entries :=
    List.mem_map.mpr ⟨_, Table.mem_of_find? known, rfl⟩
  rw [same, typed, List.map_map] at member
  obtain ⟨declaration, listed, entry⟩ := List.mem_map.mp member
  exact ⟨declaration, listed, congrArg Prod.fst entry, congrArg Prod.snd entry⟩

end

namespace Program.Checks

variable {program : Program} {entry : String} {checked placed : Checked}
  {function : Function}
variable {plain routine : Routine} {before later : List Mention}
  {reference : Reference}

/-- A use of a name in a checked program is known where it stands. -/
theorem knows (checks : program.Checks entry checked)
    (member : function ∈ program.functions)
    (stands : mentionsIn function.body = before ++ .refers reference :: later) :
    ∃ plain known, checked.functions.find? function.name = some plain ∧
      function.Declares plain ∧
      (plain.context checked.functions checked.globals).Knows known reference ∧
      ∀ name, name ∈ known ↔
        name ∈ function.parameters.map (·.name) ∨ .declares name ∈ before := by
  obtain ⟨plain, found, declares⟩ :=
    checks.functions.find? checks.uniqueFunctions member
  have bodyChecked := checks.bodies function member
  simp only [checkFunction, found] at bodyChecked
  obtain ⟨_, blockChecked, _⟩ := bind_eq_ok.mp bodyChecked
  have admits := checkBlock_admits function.body blockChecked
  rw [stands] at admits
  obtain ⟨known, knows, members⟩ := admits.knows
  exact ⟨plain, known, found, declares, knows, members⟩

theorem binds (checks : program.Checks entry checked)
    (declares : function.Declares plain)
    (knows : (plain.context checked.functions checked.globals).Knows
      known reference)
    (members : ∀ name, name ∈ known ↔ name ∈ function.parameters.map (·.name) ∨
      .declares name ∈ before) :
    program.Binds function before reference.name := by
  have locals : plain.locals.names = function.localNames :=
    names_of_declarations (congrArg typed declares.locals)
  have globals : checked.globals.names = program.globals.map (·.name) :=
    names_of_declarations (congrArg typed checks.globals)
  obtain ⟨declared, _, resolves⟩ := knows.found
  unfold Program.Binds
  split
  case isTrue own =>
    exact (members reference.name).mp (declared (locals.symm ▸ own))
  case isFalse foreign =>
    have absent : plain.locals.find? reference.name = none :=
      Table.find?_eq_none_iff.mpr (locals ▸ foreign)
    have inScope := (Scope.resolves_of_resolve resolves).found
    simp only [Routine.context, Scope.find?, absent] at inScope
    rw [← globals]
    by_contra missing
    rw [Table.find?_eq_none_iff.mpr missing] at inScope
    cases inScope

/-- The variable that a known use works on after layout. -/
theorem addresses {countable : Prop}
    (checks : program.Checks entry checked)
    (places : checked.Places countable placed)
    (declares : function.Declares plain)
    (placesRoutine : plain.Places countable routine)
    (knows : (plain.context checked.functions checked.globals).Knows
      known reference) :
    ∃ declaration owner address,
      (if reference.name ∈ function.localNames then
        declaration ∈ function.parameters ++ declarationsOf function.body ∧
          routine.locals.find? reference.name = some owner
      else declaration ∈ program.globals ∧
        placed.globals.find? reference.name = some owner) ∧
      declaration.name = reference.name ∧ declaration.type = owner.type ∧
      owner.address = some address ∧
      (routine.context placed.functions placed.globals).Addresses
        reference owner.type address := by
  have localEntries := placesRoutine.locals.trans
    (congrArg typed declares.locals)
  have globalEntries := places.globals.trans (congrArg typed checks.globals)
  obtain ⟨_, _, resolvesBefore⟩ := knows.found
  obtain ⟨resolved, resolves⟩ : ∃ resolved,
      (routine.context placed.functions placed.globals).scope.resolve
      reference.name
        reference.indexed reference.field reference.line = .ok resolved := by
    refine Scope.resolve_of_alike ?_ resolvesBefore
    have sameLocals := Table.find?_map_eq Variable.type Variable.type
      placesRoutine.locals reference.name
    have sameGlobals := Table.find?_map_eq Variable.type Variable.type
      places.globals reference.name
    simp only [Routine.context, Scope.find?]
    cases placedLocal : routine.locals.find? reference.name <;>
      cases plainLocal : plain.locals.find? reference.name <;>
      simp_all
  have inScope := (Scope.resolves_of_resolve resolves).found
  simp only [Routine.context, Scope.find?] at inScope
  cases own : routine.locals.find? reference.name with
  | some owner =>
    rw [own] at inScope
    cases inScope
    obtain ⟨declaration, listed, sameName, sameType⟩ :=
      declaration_of_find? localEntries own
    obtain ⟨address, stored, _⟩ :=
      placesRoutine.stored _ (Table.mem_of_find? own)
    have isOwn : reference.name ∈ function.localNames := by
      rw [← sameName]
      exact List.mem_map_of_mem listed
    refine ⟨declaration, resolved.owner, address, ?_, sameName,
      sameType, stored, Context.addresses_of_resolve resolves stored⟩
    rw [if_pos isOwn]
    exact ⟨listed, rfl⟩
  | none =>
    rw [own] at inScope
    have foreign : reference.name ∉ function.localNames := by
      rw [Function.localNames, ← names_of_declarations localEntries]
      exact Table.find?_eq_none_iff.mp own
    obtain ⟨declaration, listed, sameName, sameType⟩ :=
      declaration_of_find? globalEntries inScope
    obtain ⟨address, stored, _⟩ := places.stored _ (Table.mem_of_find? inScope)
    refine ⟨declaration, resolved.owner, address, ?_, sameName,
      sameType, stored, Context.addresses_of_resolve resolves stored⟩
    rw [if_neg foreign]
    exact ⟨listed, inScope⟩

end Program.Checks

/--
Names resolve by the order of statements.  In every function of a program that
passes its checks, a use of a name that the function declares anywhere is a use
of a parameter or comes after the declaration, and a use of any other name is a
use of a global variable.  Once storage is laid out, the code for the use works
on that variable: the function's own if it has one of that name, and otherwise
the global one.  A program in which some use breaks the rule does not pass.
-/
theorem Program.names_in_order (program : Program) (entry : String) :
    (∀ checked, program.check entry = .ok checked →
      ∀ function ∈ program.functions, ∀ before reference later,
        mentionsIn function.body = before ++ .refers reference :: later →
          program.Binds function before reference.name ∧
          ∀ placed space, checked.place.run .fresh = .ok (placed, space) →
            ∃ routine, placed.functions.find? function.name = some routine ∧
              ∃ declaration owner address,
                (if reference.name ∈ function.localNames then
                  declaration ∈ function.parameters ++
                    declarationsOf function.body ∧
                    routine.locals.find? reference.name = some owner
                else declaration ∈ program.globals ∧
                  placed.globals.find? reference.name = some owner) ∧
                declaration.name = reference.name ∧
                  declaration.type = owner.type ∧
                owner.address = some address ∧
                (routine.context placed.functions placed.globals).Addresses
                  reference owner.type address) ∧
    ((∃ function ∈ program.functions, ∃ before reference later,
        mentionsIn function.body = before ++ .refers reference :: later ∧
          ¬ program.Binds function before reference.name) →
      ∃ problem, program.check entry = .error problem) := by
  constructor
  · intro checked passed function member before reference later stands
    have checks := Program.checks_of_check passed
    obtain ⟨plain, known, found, declares, knows, members⟩ :=
      checks.knows member stands
    refine ⟨checks.binds declares knows members, fun placed space laid => ?_⟩
    have places := (checks.laid laid).1
    obtain ⟨routine, placedFound, placesRoutine⟩ := places.routine checks found
    exact ⟨routine, placedFound,
      checks.addresses places declares placesRoutine knows⟩
  · rintro ⟨function, member, before, reference, later, stands, broken⟩
    cases passed : program.check entry with
    | error problem => exact ⟨problem, rfl⟩
    | ok checked =>
      have checks := Program.checks_of_check passed
      obtain ⟨plain, known, _, declares, knows, members⟩ :=
        checks.knows member stands
      exact (broken (checks.binds declares knows members)).elim

/-- A program with a global variable `n` and a function whose body is given. -/
def oneGlobal (body : List Stmt) : Program :=
  ⟨"p", [⟨"n", .basic .int, 1⟩], [⟨"main", [], .basic .void, body, 1⟩]⟩

/--
A block declares `n` and the statement behind the block uses it: it means the
variable of the function.  In the other order it means nothing.
-/
theorem Program.names_in_order_nested :
    let block := Stmt.branch (.literal (.bool true) 2)
      [.declare ⟨"n", .basic .int, 2⟩] 2
    let use := Stmt.write (.access "n" none 3) 3
    (∃ problem, (oneGlobal [use, block]).check "main" = .error problem) ∧
    ∃ checked placed space routine owner address,
      (oneGlobal [block, use]).check "main" = .ok checked ∧
      checked.place.run .fresh = .ok (placed, space) ∧
      placed.functions.find? "main" = some routine ∧
      routine.locals.find? "n" = some owner ∧ owner.address = some address ∧
      (routine.context placed.functions placed.globals).Addresses ⟨"n", false,
        none, 3⟩ owner.type address := by
  intro block use
  refine ⟨(names_in_order (oneGlobal [use, block]) "main").2
    ⟨_, List.mem_cons_self, [], ⟨"n", false, none, 3⟩, _, rfl, ?_⟩, ?_⟩
  · simp [Program.Binds, Function.localNames, block, use, declarationsOf,
      Stmt.declarations]
  · have evaluated : (do
        let checked ← ((oneGlobal [block, use]).check "main").toOption
        (checked.place.run .fresh).toOption).isSome = true := by
      decide +kernel
    simp only [Option.isSome_iff_exists, bind, Option.bind_eq_some_iff,
      toOption_eq_some] at evaluated
    obtain ⟨⟨placed, space⟩, checked, passed, laid⟩ := evaluated
    obtain ⟨_, later⟩ := (names_in_order (oneGlobal [block, use]) "main").1
      checked passed _ List.mem_cons_self [.declares "n"] ⟨"n", false,
        none, 3⟩ [] rfl
    obtain ⟨routine, found, _, owner, address, own, _, _, stored, addresses⟩ :=
      later placed space laid
    have isOwn : "n" ∈
        (Function.mk "main" [] (.basic .void) [block, use] 1).localNames := by
      simp [Function.localNames, block, use, declarationsOf, Stmt.declarations]
    rw [if_pos isOwn] at own
    exact ⟨checked, placed, space, routine, owner, address, passed, laid, found,
      own.2, stored, addresses⟩

end Easel
