import Easel.Proofs.Code.Temporaries
import Easel.Proofs.Code.Assembly
import Easel.Proofs.Code.Visits
import Easel.Proofs.Lockstep.Statement
import Easel.Proofs.Machine.Writes

/-!
# The role of each instruction

Every position in the code of a function holds an instruction that was
generated for a purpose.  Its role says which slots it writes, where it leads,
and, for the instructions that look up an item of a list, which access in the
text of the function they belong to.

The instructions that follow a pointer can only be reached from the ones that
compute it: no jump, no call and no return leads into their midst.
-/

namespace Easel

variable {builtin : Builtin} {parameter type : Ty} {address pointer : Address}
variable {phrase : Phrase} {assignment : Assignment} {guard : Expr}
variable {value index : Operand} {target : Nat} {clause : Clause}
variable {location : Location} {field : Option String} {element : Element}

/-- An access to an item of a list, or to an attribute of one. -/
structure Access where
  name : String
  index : Expr
  field : Option String

mutual

/-- The accesses to items in an expression. -/
def Expr.accesses : Expr → List Access
  | .literal .. | .access .. => []
  | .item name index field _ => ⟨name, index, field⟩ :: index.accesses
  | .call _ arguments _ => accessesOf arguments
  | .not operand _ => operand.accesses
  | .group inner _ => inner.accesses
  | .binary _ left right => left.accesses ++ right.accesses

def accessesOf : List Expr → List Access
  | [] => []
  | first :: rest => first.accesses ++ accessesOf rest

end

/-- The access to an item that an assignment sets, and those in its index. -/
def Target.accesses (target : Target) : List Access :=
  match target.index with
  | none => []
  | some index => ⟨target.name, index, target.field⟩ :: index.accesses

/-- The accesses to items in an assignment. -/
def Assignment.accesses (assignment : Assignment) : List Access :=
  assignment.value.accesses ++ assignment.target.accesses

mutual

/-- The accesses to items in a statement. -/
def Stmt.accesses : Stmt → List Access
  | .declare _ => []
  | .assign assignment => assignment.accesses
  | .branch guard body _ | .whileLoop guard body _ =>
    guard.accesses ++ accessesIn body
  | .branchElse guard body otherwise _ =>
    guard.accesses ++ (accessesIn body ++ accessesIn otherwise)
  | .forLoop first guard step body _ =>
    first.accesses ++ (guard.accesses ++ (accessesIn body ++ step.accesses))
  | .write value _ => value.accesses
  | .ret value _ => (value.map Expr.accesses).getD []
  | .call _ arguments _ => accessesOf arguments

def accessesIn : List Stmt → List Access
  | [] => []
  | statement :: rest => statement.accesses ++ accessesIn rest

end

def Phrase.accesses : Phrase → List Access
  | .value expression _ => expression.accesses
  | .operands expressions _ => accessesOf expressions
  | .arguments expressions _ => accessesOf expressions

def Clause.accesses : Clause → List Access
  | .statement action => action.accesses
  | .block body => accessesIn body

/-! ## Storage of a function -/

def Table.slots (table : Table Variable) : Slots := fun slot =>
  ∃ name found address, table.find? name = some found ∧
    found.address = some address ∧ Slots.range address found.type.slotCount slot

/-- The code of a function, and what belongs to it. -/
structure Site where
  image : Image
  context : Context
  /-- The temporaries that the code takes. -/
  temps : Element → Nat
  body : List Stmt

/-- The slots of global variables, of a function's own and temporaries. -/
def Site.owned (site : Site) : Slots :=
  (site.context.scope.globals.slots.union site.context.scope.locals.slots).union
    (tempSlots site.temps)

/-- The temporaries of the function, except for the older ones. -/
def Site.scratch (site : Site) (older : Element → Nat) : Slots := fun slot =>
  tempSlots site.temps slot ∧ laterTemps older slot

/-- Whether an instruction is reached only from the one in front of it. -/
def Operation.isInner : Operation → Bool
  | .addAddress | .assignIndex | .assignIndexInverse => true
  | _ => false

/-- Whether an instruction writes no slot and leads to the one behind it. -/
def Operation.isSilent : Operation → Bool
  | .checkBound | .era | .param | .print | .render | .clear | .update => true
  | _ => false

/-- Control may be led to a position from anywhere. -/
def Image.Opens (image : Image) (position : Nat) : Prop :=
  ∀ quad, image.Has position quad → quad.operation.isInner = false

theorem Image.Has.opens {image : Image} {position : Nat} {quad : Quad}
    (has : image.Has position quad)
    (plain : quad.operation.isInner = false) :
    image.Opens position := by
  intro other found
  unfold Image.Has at has found
  rw [has] at found
  cases found
  exact plain

/-- The code that computes where the item of an access lies. -/
structure Site.Reaches (site : Site)
    (access : Access)
    (index : Operand)
    (resolved : Resolved)
    (pointer : Address)
    (start stop : Point) : Prop where
  written : access ∈ accessesIn site.body
  computed : ∃ begins,
    ExprCode site.image site.context (.value access.index index) begins start
  placed : index.Placed
  aligned : start.Aligned
  pointed : PointerCode site.image site.context access.name access.field index
    resolved pointer start stop
  bounded : TempsLe stop.temps site.temps

/-- What an instruction of a function is for. -/
inductive Role (site : Site) (position : Nat) : Quad → Prop where
  | silent {quad : Quad} (isSilent : quad.operation.isSilent = true) :
      Role site position quad
  | result {quad : Quad} (isResult : quad.operation.isResult = true)
      (plain : quad.operation.isInner = false)
      (inside : tempSlots site.temps quad.result) :
      Role site position quad
  | assign {source target : Address}
      (inside : (Slots.range target (widthAt source)).Within site.owned) :
      Role site position ⟨.assign, source, .unused, target⟩
  | init {address : Address} {type : Ty} (fits : type.Fits)
      (inside : (Slots.range address type.slotCount).Within site.owned) :
      Role site position (initQuad address type)
  | point {access : Access} {index : Operand} {resolved : Resolved}
      {base pointer : Address}
      {start stop : Point}
      (reaches : site.Reaches access index resolved pointer start stop)
      (here : start.position + 1 = position) :
      Role site position ⟨.addAddress, base, index.address, pointer⟩
  | load {access : Access} {index : Operand} {resolved : Resolved}
      {pointer value : Address}
      {start stop : Point}
      (reaches : site.Reaches access index resolved pointer start stop)
      (here : stop.position = position)
      (inside : (Slots.range value resolved.type.slotCount).Within
        (tempSlots site.temps)) :
      Role site position ⟨.assignIndexInverse, pointer, .unused, value⟩
  | store {access : Access} {index : Operand} {resolved : Resolved}
      {pointer source : Address}
      {start stop : Point}
      (reaches : site.Reaches access index resolved pointer start stop)
      (here : stop.position = position)
      (width : widthAt source = resolved.type.slotCount) :
      Role site position ⟨.assignIndex, source, .unused, pointer⟩
  | jump {quad : Quad} {target : Nat} (isJump : quad.operation.isJump = true)
      (leads : quad.result = target) (opens : site.image.Opens target) :
      Role site position quad
  | call {name : String} {routine : Routine} {entry value : Address}
      (found : site.context.functions.find? name = some routine)
      (located : site.image.entryOf name = some entry)
      (opens : site.image.Opens (position + 1))
      (received : value = .unused ∨
        (Slots.range value routine.returns.slotCount).Within
          (tempSlots site.temps))
      (receives : Receives routine.returns value) :
      Role site position ⟨.call, entry, .unused, value⟩
  | ret {address : Address}
      (handed : address = .unused ∨
        widthAt address = site.context.returns.slotCount) :
      Role site position ⟨.ret, .unused, .unused, address⟩

/--
What an instruction in the code of an expression is for.  It writes no variable
and none of the older temporaries.
-/
inductive Work (site : Site) (older : Element → Nat) (position : Nat) :
    Quad → Prop where
  | silent {quad : Quad} (isSilent : quad.operation.isSilent = true) :
      Work site older position quad
  | result {quad : Quad} (isResult : quad.operation.isResult = true)
      (plain : quad.operation.isInner = false)
      (inside : site.scratch older quad.result) :
      Work site older position quad
  | copy {source target : Address}
      (inside : (Slots.range target (widthAt source)).Within
        (site.scratch older)) :
      Work site older position ⟨.assign, source, .unused, target⟩
  | point {access : Access} {index : Operand} {resolved : Resolved}
      {base pointer : Address}
      {start stop : Point}
      (reaches : site.Reaches access index resolved pointer start stop)
      (here : start.position + 1 = position)
      (later : TempsLe older start.temps) :
      Work site older position ⟨.addAddress, base, index.address, pointer⟩
  | load {access : Access} {index : Operand} {resolved : Resolved}
      {pointer value : Address}
      {start stop : Point}
      (reaches : site.Reaches access index resolved pointer start stop)
      (here : stop.position = position)
      (inside : (Slots.range value resolved.type.slotCount).Within
        (site.scratch older)) :
      Work site older position ⟨.assignIndexInverse, pointer, .unused, value⟩
  | call {name : String} {routine : Routine} {entry value : Address}
      (found : site.context.functions.find? name = some routine)
      (located : site.image.entryOf name = some entry)
      (opens : site.image.Opens (position + 1))
      (received : value = .unused ∨
        (Slots.range value routine.returns.slotCount).Within
          (site.scratch older))
      (receives : Receives routine.returns value) :
      Work site older position ⟨.call, entry, .unused, value⟩

section

variable {site : Site} {position : Nat} {quad : Quad}

/-- A call leads to a function and returns behind it with a value. -/
theorem Role.of_call (role : Role site position quad)
    (isCall : quad.operation = .call) :
    ∃ name routine, site.context.functions.find? name = some routine ∧
      site.image.entryOf name = some quad.left ∧
        site.image.Opens (position + 1) ∧
      (quad.result = .unused ∨
        (Slots.range quad.result routine.returns.slotCount).Within
          (tempSlots site.temps)) := by
  cases role with
  | call found located opens received =>
    exact ⟨_, _, found, located, opens, received⟩
  | silent isSilent =>
    rw [isCall] at isSilent
    cases isSilent
  | result isResult =>
    rw [isCall] at isResult
    cases isResult
  | jump isJump =>
    rw [isCall] at isJump
    cases isJump
  | assign | init | point | load | store | ret => cases isCall

/-- A return hands over nothing, or as many slots as the function returns. -/
theorem Role.of_return (role : Role site position quad)
    (isReturn : quad.operation = .ret) :
    quad.result = .unused ∨
      widthAt quad.result = site.context.returns.slotCount := by
  cases role with
  | ret handed => exact handed
  | silent isSilent =>
    rw [isReturn] at isSilent
    cases isSilent
  | result isResult =>
    rw [isReturn] at isResult
    cases isResult
  | jump isJump =>
    rw [isReturn] at isJump
    cases isJump
  | assign | init | point | load | store | call => cases isReturn

/-- A jump leads to where control may be led. -/
theorem Role.of_jump (role : Role site position quad)
    (isJump : quad.operation.isJump = true) :
    ∃ target : Nat, quad.result = target ∧ site.image.Opens target := by
  cases role with
  | jump _ leads opens => exact ⟨_, leads, opens⟩
  | silent isSilent =>
    cases operation : quad.operation <;>
      simp_all [Operation.isJump, Operation.isSilent]
  | result isResult =>
    cases operation : quad.operation <;>
      simp_all [Operation.isJump, Operation.isResult]
  | assign | init | point | load | store | call | ret => cases isJump

theorem Work.role {older : Element → Nat}
    (work : Work site older position quad) :
    Role site position quad := by
  have inTemps : (site.scratch older).Within (tempSlots site.temps) :=
    fun _ member => member.1
  cases work with
  | silent isSilent => exact .silent isSilent
  | result isResult plain inside => exact .result isResult plain inside.1
  | copy inside =>
    exact .assign ((inside.trans inTemps).trans (Slots.within_right _ _))
  | point reaches here => exact .point reaches here
  | load reaches here inside => exact .load reaches here (inside.trans inTemps)
  | call found located opens received receives =>
    exact .call found located opens (received.imp_right (·.trans inTemps))
      receives

end

/-- A binary operation, its values, and the points between its code. -/
structure Term where
  operator : Operator
  left : Expr
  right : Expr
  leftValue : Operand
  rightValue : Operand
  result : Address
  begins : Point
  /-- Where the left operand has been computed. -/
  between : Point
  /-- Where the right operand has been computed too. -/
  ends : Point

namespace Term

def expression (term : Term) : Expr :=
  .binary term.operator term.left term.right

def quad (term : Term) : Quad :=
  ⟨term.operator.operation, term.leftValue.address, term.rightValue.address,
    term.result⟩

end Term

/-- The code of a binary operation in a function. -/
structure Site.Computes (site : Site) (term : Term) : Prop where
  leftCode : ExprCode site.image site.context (.value term.left term.leftValue)
    term.begins term.between
  rightCode : ExprCode site.image site.context
    (.value term.right term.rightValue) term.between term.ends
  apply : site.image.Has term.ends.position term.quad
  typed : ∃ element temps,
    term.operator.type? term.leftValue.type term.rightValue.type =
      some (.basic element) ∧
      Space.Fresh term.ends.temps (.basic element) term.result temps
  aligned : term.begins.Aligned
  bounded : TempsLe term.ends.temps site.temps
  accesses : term.right.accesses ⊆ accessesIn site.body

/--
Every position from one to another holds an instruction that does its duty, and
each binary operation among the given expressions is computed.
-/
structure Site.Filled (site : Site)
    (duty : Nat → Quad → Prop)
    (parts : List Expr)
    (first last : Nat) : Prop where
  ordered : first ≤ last
  duties : ∀ position, first ≤ position → position < last →
    ∃ quad, site.image.Has position quad ∧ duty position quad
  terms : ∀ operator left right, .binary operator left right ∈ parts →
    ∃ term, term.expression = .binary operator left right ∧ site.Computes term

namespace Site.Filled

variable {site : Site} {duty : Nat → Quad → Prop} {parts others : List Expr}
variable {first middle last : Nat}

theorem nil (position : Nat) : site.Filled duty [] position position :=
  ⟨Nat.le_refl _, fun _ above below => absurd below (Nat.not_lt.mpr above),
    fun _ _ _ member => by cases member⟩

theorem single {position : Nat} {quad : Quad}
    (has : site.image.Has position quad)
    (does : duty position quad) :
    site.Filled duty [] position (position + 1) := by
  refine ⟨Nat.le_succ _, ?_, fun _ _ _ member => by cases member⟩
  intro other above below
  obtain rfl : other = position := by omega
  exact ⟨quad, has, does⟩

theorem append (before : site.Filled duty parts first middle)
    (after : site.Filled duty others middle last) :
    site.Filled duty (parts ++ others) first last := by
  refine ⟨Nat.le_trans before.ordered after.ordered, ?_, ?_⟩
  · intro position above below
    rcases Nat.lt_or_ge position middle with isBefore | isAfter
    · exact before.duties position above isBefore
    · exact after.duties position isAfter below
  · intro operator left right member
    rcases List.mem_append.mp member with inFirst | inOthers
    · exact before.terms operator left right inFirst
    · exact after.terms operator left right inOthers

theorem extend (before : site.Filled duty parts first middle)
    (after : site.Filled duty [] middle last) :
    site.Filled duty parts first last := by
  have filled := before.append after
  rwa [List.append_nil] at filled

theorem snoc {quad : Quad}
    (before : site.Filled duty parts first last)
    (has : site.image.Has last quad)
    (does : duty last quad) :
    site.Filled duty parts first (last + 1) :=
  before.extend (single has does)

/-- One more expression, which is no binary operation or is computed itself. -/
theorem cons {expression : Expr}
    (filled : site.Filled duty parts first last)
    (here : ∀ operator left right, expression = .binary operator left right →
      ∃ term, term.expression = .binary operator left right ∧
      site.Computes term) :
    site.Filled duty (expression :: parts) first last := by
  refine ⟨filled.ordered, filled.duties, ?_⟩
  intro operator left right member
  rcases List.mem_cons.mp member with same | inside
  · exact here operator left right same.symm
  · exact filled.terms operator left right inside

theorem roles {older : Element → Nat}
    (filled : site.Filled (Work site older) parts first last) :
    site.Filled (Role site) parts first last := by
  refine ⟨filled.ordered, ?_, filled.terms⟩
  intro position above below
  obtain ⟨quad, has, work⟩ := filled.duties position above below
  exact ⟨quad, has, work.role⟩

end Site.Filled

section

variable {image : Image} {context : Context}
variable {start stop : Point}

theorem Operator.operation_plain (operator : Operator) :
    operator.operation.isInner = false := by
  cases operator <;> rfl

theorem Builtin.operation_plain {name : String}
    (found : Builtin.find? name = some builtin) :
    builtin.operation.isInner = false := by
  have all : ∀ other ∈ Builtin.all, other.operation.isInner = false := by decide
  exact all builtin (Builtin.find?_mem found)

theorem Widening.opens {argument : Operand} {size : Address}
    (widening : Widening image parameter argument address start stop)
    (pass : image.Has stop.position ⟨.param, address, size, .unused⟩) :
    image.Opens start.position := by
  cases widening with
  | same => exact pass.opens rfl
  | widened _ _ assign => exact assign.opens rfl

/-- The code of an expression may be entered if that behind it may be. -/
theorem ExprCode.opens (code : ExprCode image context phrase start stop)
    (behind : image.Opens stop.position) :
    image.Opens start.position := by
  induction code with
  | literal | access | noOperands | noArguments => exact behind
  | item _ pointed _ _ induction => exact induction (pointed.check.opens rfl)
  | builtin found _ _ _ apply induction =>
    exact induction (apply.opens (Builtin.operation_plain found))
  | call _ _ _ announce => exact announce.opens rfl
  | not _ _ _ negate induction => exact induction (negate.opens rfl)
  | group _ induction => exact induction behind
  | @binary operator _ _ _ _ _ _ _ _ _ _ _ _ _ _ apply first second =>
    exact first (second (apply.opens operator.operation_plain))
  | operand _ _ first rest => exact first (rest behind)
  | argument _ _ widening pass _ first _ => exact first (widening.opens pass)

theorem AssignCode.opens
    (code : AssignCode image context assignment start stop) :
    image.Opens start.position := by
  cases code with
  | whole _ computed _ _ _ assign => exact computed.opens (assign.opens rfl)
  | item _ computed located pointed =>
    exact computed.opens (located.opens (pointed.check.opens rfl))

theorem GuardCode.opens (code : GuardCode image context guard value start stop)
    (skip : image.Has stop.position (Context.jumpUnless value target)) :
    image.Opens start.position :=
  code.computed.opens (skip.opens rfl)

/-- The code of a statement may be entered if that behind it may be. -/
theorem StmtCode.opens (code : StmtCode image context clause start stop)
    (behind : image.Opens stop.position) :
    image.Opens start.position := by
  induction code with
  | declare _ _ _ _ _ init => exact init.opens rfl
  | assign code => exact code.opens
  | branch condition skip | branchElse condition skip
  | whileLoop condition skip => exact condition.opens skip
  | forLoop initially => exact initially.opens
  | write computed _ print => exact computed.opens (print.opens rfl)
  | leave _ ret => exact ret.opens rfl
  | ret computed _ _ ret => exact computed.opens (ret.opens rfl)
  | call code => exact code.opens behind
  | nil => exact behind
  | cons _ _ first rest => exact first (rest behind)

end

theorem Place.widthAt (place : Place address type location)
    (single : type.isList = false) :
    widthAt address = type.slotCount := by
  rw [Ty.slotCount_of_single single, ← place.width_eq]
  simp [Easel.widthAt, place.located]

section

variable {site : Site}
variable {start stop : Point} {name : String} {resolved : Resolved}
variable {older before after : Element → Nat}

theorem Site.temps_within (site : Site) :
    (tempSlots site.temps).Within site.owned :=
  Slots.within_right _ _

theorem Context.Designates.owned {indexed : Bool} {first : Address}
    (designates : site.context.Designates name indexed field resolved
      first location) :
    (Slots.range first resolved.owner.type.slotCount).Within site.owned := by
  intro slot member
  obtain ⟨_, ran⟩ := designates.named
  have found := (Scope.resolves_of_resolve ran).found
  unfold Scope.find? at found
  cases inside : site.context.scope.locals.find? name with
  | some owner =>
    rw [inside] at found
    cases found
    exact .inl (.inr ⟨name, _, first, inside, designates.address, member⟩)
  | none =>
    rw [inside] at found
    exact .inl (.inl ⟨name, _, first, found, designates.address, member⟩)

/-- A value that is copied to a place takes as many slots as the place has. -/
theorem Exec.Copies.within {source target : Address} {targetType : Ty}
    {region : Region} {slots : Slots}
    (copies : Exec.Copies source type target targetType region)
    (inside : (Slots.range target targetType.slotCount).Within slots) :
    (Slots.range target (widthAt source)).Within slots := by
  obtain ⟨_, place⟩ := copies.source
  rw [place.widthAt copies.single, copies.narrow]
  exact inside

theorem PointerCode.stored {image : Image} {context : Context}
    (code : PointerCode image context name field index resolved
      pointer start stop) :
    resolved.type.isVoid = false := by
  obtain ⟨_, _, designates, _⟩ := code.designated
  obtain ⟨_, ran⟩ := designates.named
  have list := (Scope.resolves_of_resolve ran).list
  obtain ⟨_, place, _⟩ := designates.item (designates.fits.filled list)
  exact place.stored

theorem Site.Reaches.works {access : Access}
    (reaches : site.Reaches access index resolved pointer start stop)
    (later : TempsLe older start.temps) :
    site.Filled (Work site older) [] start.position stop.position := by
  obtain ⟨_, _, _, add⟩ := reaches.pointed.designated
  rw [reaches.pointed.position]
  exact (Site.Filled.single reaches.pointed.check (.silent rfl)).snoc add
    (.point reaches rfl later)

/-- The slots of a new temporary for a value are none of the older ones. -/
theorem Space.Fresh.scratch (fresh : Space.Fresh before type address after)
    (stored : type.isVoid = false)
    (later : TempsLe older before)
    (bounded : TempsLe after site.temps) :
    (Slots.range address type.slotCount).Within (site.scratch older) :=
  fun slot member =>
  ⟨tempSlots_within bounded slot (fresh.inside stored slot member),
    laterTemps_within later slot (fresh.later stored slot member)⟩

/-! ## Expressions -/

/-- The parameters that arguments are passed to can be declared. -/
def Phrase.Fits : Phrase → Prop
  | .value _ _ => True
  | .operands _ _ => True
  | .arguments _ parameters => ∀ parameter ∈ parameters, parameter.Fits

/-- An argument may be widened in front of the instruction that passes it. -/
theorem Widening.works {argument : Expr} {operand : Operand}
    (widening : Widening site.image parameter operand address start stop)
    (takes : takesArgument parameter argument operand.type = true)
    (placed : operand.Placed)
    (fits : parameter.Fits)
    (aligned : start.Aligned)
    (later : TempsLe older start.temps)
    (bounded : TempsLe stop.temps site.temps) :
    site.Filled (Work site older) [] start.position stop.position := by
  cases widening with
  | same => exact .nil _
  | widened differs fresh assign =>
    have copies := Exec.Copies.of_widening takes differs placed
      fits aligned fresh
    have stored : parameter.isVoid = false := by
      simp [Ty.isVoid, fits.stored]
    exact .single assign
      (.copy (copies.within (fresh.scratch stored later bounded)))

theorem Space.Fresh.work {quad : Quad} {position : Nat}
    (fresh : Space.Fresh before (.basic element) quad.result after)
    (later : TempsLe older before)
    (bounded : TempsLe after site.temps)
    (isResult : quad.operation.isResult = true)
    (plain : quad.operation.isInner = false)
    (stored : element ≠ .void) :
    Work site older position quad := by
  have isValue : (Ty.basic element).isVoid = false := by
    simp [Ty.isVoid, stored]
  refine .result isResult plain (fresh.scratch isValue later bounded _ ?_)
  refine ⟨0, ?_, (Int.add_zero _).symm⟩
  rw [Ty.slotCount_basic]
  exact Element.slotWidth_pos _

/-- A built-in function leaves its value in a temporary, or leaves none. -/
theorem Builtin.work {operands : List Operand} {value : Address}
    {position : Nat}
    (found : Builtin.find? name = some builtin)
    (fresh : Space.Fresh before (.basic builtin.returns) value after)
    (later : TempsLe older before)
    (bounded : TempsLe after site.temps) :
    Work site older position (builtin.quad operands value) := by
  have kinds : ∀ other ∈ Builtin.all, other.operation.isSilent = true ∨
      (other.operation.isResult = true ∧ other.operation.isInner = false ∧
        other.returns ≠ .void) := by
    decide
  rcases kinds builtin (Builtin.find?_mem found) with isSilent
    | ⟨isResult, plain, stored⟩
  · exact .silent isSilent
  · have stores : Space.Fresh before (.basic builtin.returns)
        (builtin.quad operands value).result after := fresh
    exact stores.work later bounded isResult plain stored

theorem Operator.operation_result (operator : Operator) :
    operator.operation.isResult = true := by
  cases operator <;> rfl

theorem Operator.type?_stored {operator : Operator} {left right : Ty}
    (typed : operator.type? left right = some (.basic element)) :
    element ≠ .void :=
  (Operator.element?_scalar (Operator.type?_eq_some typed).2.2).2.2.2

section

variable (code : ExprCode site.image site.context phrase start stop)
  (arranged : site.context.Arranged) (aligned : start.Aligned)
  (fits : phrase.Fits)
include code arranged aligned fits

/--
Every instruction in the code of an expression works on new temporaries, and the
binary operations in it are computed.
-/
theorem ExprCode.works (later : TempsLe older start.temps)
    (bounded : TempsLe stop.temps site.temps)
    (behind : site.image.Opens stop.position)
    (written : phrase.accesses ⊆ accessesIn site.body) :
    site.Filled (Work site older) phrase.parts start.position
      stop.position := by
  have returns := arranged.singleReturns
  induction code with
  | literal | access => exact .cons (.nil _) (fun _ _ _ same => by cases same)
  | noOperands | noArguments => exact .nil _
  | @item name index field line position resolved pointer value start afterIndex
      afterPointer temps indexed pointed fresh load induction =>
    obtain ⟨here, inside⟩ := List.cons_subset.mp written
    obtain ⟨afterAligned, placed⟩ := indexed.placed returns aligned
    have reaches : site.Reaches ⟨name, index, field⟩ position resolved
        pointer afterIndex afterPointer :=
      ⟨here, ⟨_, indexed⟩, placed, afterAligned, pointed,
        fresh.le.trans bounded⟩
    have indexWorks := induction aligned trivial later
      ((pointed.le.trans fresh.le).trans bounded)
      (pointed.check.opens rfl) inside
    have indexLater := later.trans indexed.le
    refine .cons ((indexWorks.extend (reaches.works indexLater)).snoc load
      (.load reaches rfl ?_)) (fun _ _ _ same => by cases same)
    exact fresh.scratch pointed.stored (indexLater.trans pointed.le) bounded
  | builtin found computed takes fresh apply induction =>
    have operandsWork := induction aligned trivial later
      (fresh.le.trans bounded) (apply.opens (Builtin.operation_plain found))
      written
    exact .cons (operandsWork.snoc apply
      (Builtin.work found fresh (later.trans computed.le) bounded))
      (fun _ _ _ same => by cases same)
  | @call name arguments line routine entry value start stop temps user found
      located announce passed fresh enter induction =>
    have argumentsWork := induction aligned
      (arranged.signatures name routine found).2 later (fresh.le.trans bounded)
      (enter.opens rfl) written
    have announced : site.Filled (Work site older) [] _ _ :=
      .single announce (.silent rfl)
    have receives := fresh.receives (passed.placed returns aligned).1
      (returns name routine found)
    refine .cons ((announced.append argumentsWork).snoc enter
      (.call found located behind ?_ receives))
      (fun _ _ _ same => by cases same)
    rcases receives with ⟨_, absent⟩ | ⟨stored, _⟩
    · exact .inl absent
    · exact .inr (fresh.scratch stored (later.trans passed.le) bounded)
  | not computed truth fresh negate induction =>
    have operandWorks := induction aligned trivial later
      (fresh.le.trans bounded) (negate.opens rfl) written
    exact .cons (operandWorks.snoc negate
      (Space.Fresh.work fresh (later.trans computed.le) bounded rfl
        rfl (by decide)))
      (fun _ _ _ same => by cases same)
  | group computed induction =>
    exact .cons (induction aligned trivial later bounded behind written)
      (fun _ _ _ same => by cases same)
  | @binary operator left right leftValue rightValue element value start between
      stop temps leftCode rightCode typed fresh apply leftInduction
      rightInduction =>
    obtain ⟨leftWritten, rightWritten⟩ := List.append_subset.mp written
    have opens := apply.opens operator.operation_plain
    have inUse := fresh.le.trans bounded
    have leftWorks := leftInduction aligned trivial later
      (rightCode.le.trans inUse) (rightCode.opens opens) leftWritten
    have rightWorks := rightInduction (leftCode.placed returns aligned).1
      trivial (later.trans leftCode.le) inUse opens rightWritten
    refine .cons
      ((leftWorks.append rightWorks).snoc
        apply (Space.Fresh.work fresh
          ((later.trans leftCode.le).trans rightCode.le) bounded
          operator.operation_result
      operator.operation_plain (Operator.type?_stored typed))) ?_
    rintro _ _ _ ⟨⟩
    exact ⟨⟨operator, left, right, leftValue, rightValue, value, start,
      between, stop⟩, rfl, leftCode, rightCode, apply,
      ⟨element, temps, typed, fresh⟩, aligned, inUse, rightWritten⟩
  | operand computed others first rest =>
    obtain ⟨firstWritten, restWritten⟩ := List.append_subset.mp written
    have firstWorks := first aligned trivial later (others.le.trans bounded)
      (others.opens behind) firstWritten
    exact firstWorks.append (rest (computed.placed returns aligned).1 trivial
      (later.trans computed.le) bounded behind restWritten)
  | argument code takes widening pass others first rest =>
    obtain ⟨firstWritten, restWritten⟩ := List.append_subset.mp written
    obtain ⟨computedAligned, placed⟩ := code.placed returns aligned
    have inUse := others.le.trans bounded
    have codeLater := later.trans code.le
    have firstWorks := first aligned trivial later (widening.le.trans inUse)
      (widening.opens pass) firstWritten
    have widened := widening.works takes placed (fits _ List.mem_cons_self)
      computedAligned codeLater inUse
    have passes := widened.snoc pass (.silent rfl)
    have restWorks := rest (widening.aligned computedAligned)
      (fun parameter member => fits parameter (List.mem_cons_of_mem _ member))
      (codeLater.trans widening.le) bounded behind restWritten
    exact firstWorks.append (passes.append restWorks)

/-- Every instruction in the code of an expression has a role. -/
theorem ExprCode.filled (bounded : TempsLe stop.temps site.temps)
    (behind : site.image.Opens stop.position)
    (written : phrase.accesses ⊆ accessesIn site.body) :
    site.Filled (Role site) phrase.parts start.position stop.position :=
  (code.works arranged aligned fits (.refl _) bounded behind written).roles

end

/-! ## Statements -/

theorem AssignCode.filled
    (code : AssignCode site.image site.context assignment start stop)
    (arranged : site.context.Arranged)
    (aligned : start.Aligned)
    (bounded : TempsLe stop.temps site.temps)
    (written : assignment.accesses ⊆ accessesIn site.body) :
    site.Filled (Role site) assignment.parts start.position stop.position := by
  have returns := arranged.singleReturns
  obtain ⟨valueWritten, targetWritten⟩ := List.append_subset.mp written
  cases code with
  | whole unindexed computed designates single accepts assign =>
    obtain ⟨_, placed⟩ := computed.placed returns aligned
    obtain ⟨_, place, inRegion⟩ := designates.whole
    have copies :=
      Exec.Copies.of_accepts placed place (inRegion ▸ designates.varies)
        single accepts
    have valueFilled := computed.filled arranged aligned trivial bounded
      (assign.opens rfl) valueWritten
    rw [Assignment.parts, unindexed, Option.map_none, Option.getD_none,
      List.append_nil]
    refine valueFilled.snoc assign (.assign (copies.within ?_))
    exact (Slots.range_within designates.whole_inside).trans designates.owned
  | @item value position index resolved pointer start between afterIndex
      afterPointer indexed computed located pointed single accepts assign =>
    unfold Target.accesses at targetWritten
    rw [indexed] at targetWritten
    obtain ⟨here, indexWritten⟩ := List.cons_subset.mp targetWritten
    obtain ⟨betweenAligned, valuePlaced⟩ := computed.placed returns aligned
    obtain ⟨afterAligned, indexPlaced⟩ := located.placed returns betweenAligned
    have indexBounded := pointed.le.trans bounded
    have opens := pointed.check.opens rfl
    have valueFilled := computed.filled arranged aligned trivial
      (located.le.trans indexBounded) (located.opens opens) valueWritten
    have indexFilled := located.filled arranged betweenAligned trivial
      indexBounded opens indexWritten
    have reaches : site.Reaches ⟨assignment.target.name, index,
        assignment.target.field⟩ position resolved pointer afterIndex
        afterPointer :=
      ⟨here, ⟨_, located⟩, indexPlaced, afterAligned, pointed, bounded⟩
    obtain ⟨sourceSingle, takes⟩ := Ty.takes_of_accepts single accepts
    obtain ⟨_, sourcePlace⟩ := valuePlaced.place (by
      have stored := pointed.stored
      simp only [Ty.isVoid, single, Bool.not_false, Bool.and_true,
        beq_eq_false_iff_ne] at stored
      simp [Ty.isVoid, takes.stored stored])
    rw [Assignment.parts, indexed, Option.map_some, Option.getD_some]
    refine (valueFilled.append indexFilled).extend
      ((reaches.works (.refl _)).roles.snoc assign (.store reaches rfl ?_))
    rw [sourcePlace.widthAt sourceSingle,
      Ty.slotCount_of_takes single sourceSingle takes]

theorem GuardCode.filled
    (code : GuardCode site.image site.context guard value start stop)
    (skip : site.image.Has stop.position (Context.jumpUnless value target))
    (arranged : site.context.Arranged)
    (aligned : start.Aligned)
    (bounded : TempsLe stop.temps site.temps)
    (opens : site.image.Opens target)
    (written : guard.accesses ⊆ accessesIn site.body) :
    site.Filled (Role site) guard.parts start.position (stop.position + 1) := by
  have guardFilled := code.computed.filled arranged aligned trivial bounded
    (skip.opens rfl) written
  exact guardFilled.snoc skip (.jump rfl rfl opens)

/-- Every instruction in the code of a statement has a role. -/
theorem StmtCode.filled
    (code : StmtCode site.image site.context clause start stop)
    (arranged : site.context.Arranged)
    (single : site.context.returns.isList = false)
    (aligned : start.Aligned)
    (bounded : TempsLe stop.temps site.temps)
    (behind : site.image.Opens stop.position)
    (written : clause.accesses ⊆ accessesIn site.body) :
    site.Filled (Role site) clause.parts start.position stop.position := by
  have returns := arranged.singleReturns
  induction code with
  | @declare declaration found address location point known hasAddress place
      region fits init =>
    refine .single init (.init fits ?_)
    exact fun slot member =>
      .inl (.inr ⟨_, found, address, known, hasAddress, member⟩)
  | assign code => exact code.filled arranged aligned bounded written
  | branch condition skip inside induction =>
    obtain ⟨guardWritten, bodyWritten⟩ := List.append_subset.mp written
    have guardFilled := condition.filled skip arranged aligned
      (inside.le.trans bounded) behind guardWritten
    exact guardFilled.append
      (induction (condition.computed.placed returns aligned).1 bounded
        behind bodyWritten)
  | branchElse condition skip inside across outside insideInduction
      outsideInduction =>
    obtain ⟨guardWritten, restWritten⟩ := List.append_subset.mp written
    obtain ⟨bodyWritten, elseWritten⟩ := List.append_subset.mp restWritten
    have guardedAligned := (condition.computed.placed returns aligned).1
    have inUse := outside.le.trans bounded
    have guardFilled := condition.filled skip arranged aligned
      (inside.le.trans inUse) (outside.opens behind) guardWritten
    have bodyFilled := insideInduction guardedAligned inUse
      (across.opens rfl) bodyWritten
    have elseFilled := outsideInduction (inside.aligned returns guardedAligned)
      bounded behind elseWritten
    exact guardFilled.append
      ((bodyFilled.snoc across (.jump rfl rfl behind)).append elseFilled)
  | whileLoop condition skip inside again induction =>
    obtain ⟨guardWritten, bodyWritten⟩ := List.append_subset.mp written
    have guardFilled := condition.filled skip arranged aligned
      (inside.le.trans bounded) behind guardWritten
    have bodyFilled := induction (condition.computed.placed returns aligned).1
      bounded (again.opens rfl) bodyWritten
    exact (guardFilled.append bodyFilled).snoc again
      (.jump rfl rfl (condition.opens skip))
  | forLoop initially condition skip inside advance again induction =>
    obtain ⟨firstWritten, restWritten⟩ := List.append_subset.mp written
    obtain ⟨guardWritten, laterWritten⟩ := List.append_subset.mp restWritten
    obtain ⟨bodyWritten, stepWritten⟩ := List.append_subset.mp laterWritten
    have begunAligned := initially.aligned returns aligned
    have guardedAligned := (condition.computed.placed returns begunAligned).1
    have inUse := advance.le.trans bounded
    have guardBounded := inside.le.trans inUse
    have firstFilled := initially.filled arranged aligned
      (condition.computed.le.trans guardBounded) firstWritten
    have guardFilled := condition.filled skip arranged begunAligned
      guardBounded behind guardWritten
    have bodyFilled := induction guardedAligned inUse advance.opens bodyWritten
    have stepFilled := advance.filled arranged
      (inside.aligned returns guardedAligned) bounded stepWritten
    have loops := stepFilled.snoc again (.jump rfl rfl (condition.opens skip))
    exact firstFilled.append (guardFilled.append (bodyFilled.append loops))
  | write computed printable print =>
    exact (computed.filled arranged aligned trivial bounded (print.opens rfl)
      written).snoc print (.silent rfl)
  | leave nothing ret => exact .single ret (.ret (.inl rfl))
  | ret computed something accepts ret =>
    obtain ⟨_, placed⟩ := computed.placed returns aligned
    obtain ⟨valueSingle, takes⟩ := Ty.takes_of_accepts single accepts
    have stored : site.context.returns.element ≠ .void := by
      simpa [Ty.isVoid, single] using something
    obtain ⟨_, place⟩ := Operand.Placed.place placed
      (by simp [Ty.isVoid, takes.stored stored])
    refine (computed.filled arranged aligned trivial bounded (ret.opens rfl)
      written).snoc ret (.ret (.inr ?_))
    rw [place.widthAt valueSingle,
      Ty.slotCount_of_takes single valueSingle takes]
  | call code =>
    exact code.filled arranged aligned trivial bounded behind written
  | nil => exact .nil _
  | cons first others firstInduction othersInduction =>
    obtain ⟨firstWritten, othersWritten⟩ := List.append_subset.mp written
    have firstFilled := firstInduction aligned (others.le.trans bounded)
      (others.opens behind) firstWritten
    exact firstFilled.append
      (othersInduction (first.aligned returns aligned) bounded behind
        othersWritten)

end

end Easel
