import Easel.Proofs.Code.Scope
import Easel.Proofs.Memory.Contents

/-!
# Where values lie

Temporaries of objects fill whole blocks, so a temporary is a place of its
type, and so is the operand of every expression that has a value.  What a use
of a name designates lies inside the variable that it belongs to.
-/

namespace Easel

variable {element : Element} {operator : Operator} {builtin : Builtin}
variable {parameter : Ty} {argument : Expr} {index : Operand}
variable {pointer : Address}

variable {context : Context} {image : Image} {type : Ty} {address : Address}
  {start stop : Point}
variable {position : Nat} {temps after : Element → Nat}

/-- The temporaries in use are whole blocks. -/
def Point.Aligned (point : Point) : Prop :=
  ∀ element, element.isObject = true →
    point.temps element % Element.blockSize = 0

theorem Space.Fresh.aligned {next : Nat}
    (fresh : Space.Fresh temps type address after)
    (aligned : Point.Aligned ⟨position, temps⟩) :
    Point.Aligned ⟨next, after⟩ := by
  intro element object
  have before := aligned element object
  dsimp only at before ⊢
  cases fresh with
  | absent isVoid => exact before
  | slots stored answers =>
    rw [Space.counts, Nat.add_mod, before]
    split
    · rename_i same
      rw [Ty.slotCount_mod_blockSize (same.symm ▸ object),
        Nat.add_zero, Nat.zero_mod]
    · rfl

/-- A temporary is a place of its type; there is none for the absent value. -/
theorem Space.Fresh.place (fresh : Space.Fresh temps type address after)
    (aligned : Point.Aligned ⟨position, temps⟩)
    (single : type.isList = false) :
    (type.isVoid = true ∧ address = .unused) ∨
      (type.isVoid = false ∧
        Place address type ⟨.temp, type.element, temps type.element⟩) := by
  cases fresh with
  | absent isVoid => exact .inl ⟨isVoid, rfl⟩
  | slots stored answers =>
    refine .inr ⟨stored, answers.place ?_ (aligned _)⟩
    rw [Ty.slotCount_of_single single]
    exact type.element.slotWidth_pos

/-- A temporary for a value of an element type that is stored. -/
theorem Space.Fresh.basic
    (fresh : Space.Fresh temps (.basic element) address after)
    (aligned : Point.Aligned ⟨position, temps⟩)
    (stored : element ≠ .void) :
    Place address (.basic element) ⟨.temp, element, temps element⟩ := by
  rcases fresh.place aligned rfl with ⟨isVoid, _⟩ | ⟨_, place⟩
  · simp [Ty.isVoid, stored] at isVoid
  · exact place

/-- Where a new value goes: into a temporary, unless there is no value. -/
def Receives (type : Ty) (address : Address) : Prop :=
  (type.isVoid = true ∧ address = .unused) ∨
    (type.isVoid = false ∧ ∃ location, Place address type location ∧
      location.region = .temp)

theorem Space.Fresh.receives (fresh : Space.Fresh temps type address after)
    (aligned : Point.Aligned ⟨position, temps⟩)
    (single : type.isList = false) :
    Receives type address := by
  rcases fresh.place aligned single with absent | ⟨stored, place⟩
  · exact .inl absent
  · exact .inr ⟨stored, _, place, rfl⟩

theorem Place.stored {location : Location}
    (place : Place address type location) :
    type.isVoid = false := by
  have stored := Location.kind_not_void place.located
  rw [place.kind] at stored
  simp [Ty.isVoid, stored]

theorem Place.used {location : Location} (place : Place address type location) :
    address ≠ .unused := by
  rintro rfl
  cases place.located

theorem Receives.place (receives : Receives type address)
    (stored : type.isVoid = false) :
    ∃ location, Place address type location ∧ location.region = .temp := by
  rcases receives with ⟨isVoid, _⟩ | ⟨_, place⟩
  · rw [isVoid] at stored
    cases stored
  · exact place

/-- The value of an operand lies at a place of its type, if there is a value. -/
def Operand.Placed (operand : Operand) : Prop :=
  operand.type.isVoid = true ∨
    ∃ location, Place operand.address operand.type location

theorem Operand.Placed.place {operand : Operand}
    (placed : operand.Placed)
    (stored : operand.type.isVoid = false) :
    ∃ location, Place operand.address operand.type location := by
  rcases placed with isVoid | place
  · rw [isVoid] at stored
    cases stored
  · exact place

theorem Ty.eq_of_agrees (agrees : type.agrees (.basic element) = true) :
    type.element = element ∧ type.isList = false := by
  simp only [Ty.agrees, Bool.and_eq_true, beq_iff_eq] at agrees
  exact ⟨agrees.1, by rw [Ty.isList, agrees.2]; rfl⟩

/-! ## Operands that are used -/

theorem Operator.arithmetic?_scalar {left right result : Element}
    (accepted : Operator.arithmetic? left right = some result) :
    left ≠ .void ∧ right ≠ .void ∧ result.isObject = false ∧
      result ≠ .void := by
  cases left <;> cases right <;> cases accepted <;> decide

/-- Operators work on values, and their results are no objects. -/
theorem Operator.element?_scalar {left right result : Element}
    (accepted : operator.element? left right = some result) :
    left ≠ .void ∧ right ≠ .void ∧ result.isObject = false ∧
      result ≠ .void := by
  have truth : ∀ {test : Bool}, (test = true → left ≠ .void ∧ right ≠ .void) →
      (if test then some Element.bool else none) = some result →
        left ≠ .void ∧ right ≠ .void ∧ result.isObject = false ∧
        result ≠ .void := by
    intro test stored chosen
    obtain ⟨holds, isBool⟩ := Option.ite_none_right_eq_some.mp chosen
    cases isBool
    exact ⟨(stored holds).1, (stored holds).2, rfl, by decide⟩
  cases operator with
  | add | sub | mul | div => exact arithmetic?_scalar accepted
  | less | greater | equal =>
    exact truth (by cases left <;> cases right <;> decide) accepted
  | and | or =>
    obtain ⟨⟨rfl, rfl⟩, chosen⟩ := Option.ite_none_right_eq_some.mp accepted
    cases chosen
    decide

theorem Operator.type?_eq_some {left right : Ty}
    (typed : operator.type? left right = some (.basic element)) :
    left.isList = false ∧ right.isList = false ∧
      operator.element? left.element right.element = some element := by
  simp only [type?, Option.ite_none_left_eq_some, Bool.or_eq_true, not_or,
    Bool.not_eq_true, Option.map_eq_some_iff] at typed
  obtain ⟨⟨leftSingle, rightSingle⟩, _, accepted, isElement⟩ := typed
  cases isElement
  exact ⟨leftSingle, rightSingle, accepted⟩

theorem ParameterKind.stored {kind : ParameterKind}
    (accepted : kind.accepts type = true)
    (proper : kind ≠ .exact .void) :
    type.isVoid = false := by
  cases kind with
  | exact element =>
    have differs : element ≠ .void := fun same => proper (same ▸ rfl)
    cases isVoid : type.isVoid with
    | false => rfl
    | true =>
      simp only [Ty.isVoid, Bool.and_eq_true, beq_iff_eq] at isVoid
      simp [accepts, Ty.accepts, Ty.agrees, isVoid.1, differs] at accepted
  | numeric =>
    simp only [accepts, Ty.isNumeric, Bool.and_eq_true] at accepted
    cases isElement : type.element <;> simp_all [Ty.isVoid, Element.isNumeric]
  | anyObject =>
    simp only [accepts, Ty.isObject, Bool.and_eq_true] at accepted
    cases isElement : type.element <;> simp_all [Ty.isVoid, Element.isObject]

theorem Builtin.Takes.stored {operands : List Operand}
    (takes : builtin.Takes operands)
    (member : builtin ∈ Builtin.all) :
    ∀ operand ∈ operands, operand.type.isVoid = false := by
  have proper : ∀ builtin ∈ Builtin.all, ∀ kind ∈ builtin.parameters,
      kind ≠ .exact .void := by
    decide
  intro operand listed
  obtain ⟨index, found⟩ := List.getElem?_of_mem listed
  have bound : index < builtin.parameters.length := by
    rw [← takes.1]
    exact (List.getElem?_eq_some_iff.mp found).1
  exact ParameterKind.stored
    (takes.2 index _ operand (List.getElem?_eq_getElem bound) found)
    (proper builtin member _ (List.getElem_mem bound))

theorem Builtin.returns_scalar (member : builtin ∈ Builtin.all) :
    builtin.returns.isObject = false := by
  revert builtin
  decide

theorem takesArgument_agrees
    (takes : takesArgument parameter argument type = true)
    (agrees : parameter.agrees type = true) :
    type.element = parameter.element ∧ type.isList = parameter.isList ∧
      (parameter.isList = true → type.size = parameter.size) := by
  simp only [Ty.agrees, Bool.and_eq_true, beq_iff_eq] at agrees
  refine ⟨agrees.1.symm, by rw [Ty.isList, Ty.isList, agrees.2], ?_⟩
  intro list
  simp only [takesArgument, list, if_true, Bool.and_eq_true,
    beq_iff_eq] at takes
  exact takes.1.2.symm

/-- An argument of another type is turned into one of its parameter's. -/
theorem takesArgument_differs
    (takes : takesArgument parameter argument type = true)
    (differs : parameter.agrees type = false) :
    parameter.isList = false ∧ parameter.accepts type = true := by
  cases list : parameter.isList with
  | true => simp [takesArgument, list, differs] at takes
  | false => exact ⟨rfl, by simpa [takesArgument, list] using takes⟩

/-- The operands of a phrase lie at places of their types. -/
def Phrase.Placed : Phrase → Prop
  | .value _ operand => operand.Placed
  | .operands _ found => ∀ operand ∈ found, operand.Placed
  | .arguments _ _ => True

theorem Widening.aligned {argument : Operand}
    (widening : Widening image parameter argument address start stop)
    (aligned : start.Aligned) :
    stop.Aligned := by
  cases widening with
  | same agrees => exact aligned
  | widened differs fresh assign => exact fresh.aligned aligned

def Context.SingleReturns (context : Context) : Prop :=
  ∀ name routine, context.functions.find? name = some routine →
    routine.returns.isList = false

theorem Context.Arranged.singleReturns (arranged : context.Arranged) :
    context.SingleReturns :=
  fun name routine known => (arranged.signatures name routine known).1

section

variable {name : String} {field : Option String} {resolved : Resolved}
  (code : PointerCode image context name field index resolved
    pointer start stop)
include code

theorem PointerCode.aligned (aligned : start.Aligned) : stop.Aligned :=
  code.fresh.aligned aligned

/-- The type of an item, or of an attribute of one, is no list. -/
theorem PointerCode.single : resolved.type.isList = false := by
  obtain ⟨_, _, designates, _⟩ := code.designated
  obtain ⟨_, ran⟩ := designates.named
  cases Scope.resolves_of_resolve ran with
  | whole found => exact Ty.item_isList designates.fits.flat
  | member found => rfl

end

/-- Code for a phrase keeps temporaries in order and operands in place. -/
theorem ExprCode.placed {phrase : Phrase}
    (code : ExprCode image context phrase start stop)
    (singleReturns : context.SingleReturns)
    (aligned : start.Aligned) :
    stop.Aligned ∧ phrase.Placed := by
  induction code with
  | literal known place => exact ⟨aligned, Or.inr ⟨_, place⟩⟩
  | access designates =>
    obtain ⟨found, place, _⟩ := designates.whole
    exact ⟨aligned, Or.inr ⟨found, place⟩⟩
  | item indexed pointed fresh load induction =>
    have between := pointed.aligned (induction aligned).1
    refine ⟨fresh.aligned between, ?_⟩
    rcases fresh.place between pointed.single with ⟨isVoid, _⟩ | ⟨_, place⟩
    · exact Or.inl isVoid
    · exact Or.inr ⟨_, place⟩
  | builtin found computed takes fresh apply induction =>
    have between := (induction aligned).1
    refine ⟨fresh.aligned between, ?_⟩
    rcases fresh.place between rfl with ⟨isVoid, _⟩ | ⟨_, place⟩
    · exact Or.inl isVoid
    · exact Or.inr ⟨_, place⟩
  | call user found located announce passed fresh enter induction =>
    have between := (induction aligned).1
    refine ⟨fresh.aligned between, ?_⟩
    rcases fresh.place between (singleReturns _ _ found) with
      ⟨isVoid, _⟩ | ⟨_, place⟩
    · exact Or.inl isVoid
    · exact Or.inr ⟨_, place⟩
  | not computed truth fresh negate induction =>
    have between := (induction aligned).1
    exact ⟨fresh.aligned between, Or.inr ⟨_, fresh.basic between (by decide)⟩⟩
  | group computed induction => exact induction aligned
  | binary leftCode rightCode typed fresh apply leftInduction rightInduction =>
    have between := (rightInduction (leftInduction aligned).1).1
    refine ⟨fresh.aligned between, ?_⟩
    rcases fresh.place between rfl with ⟨isVoid, _⟩ | ⟨_, place⟩
    · exact Or.inl isVoid
    · exact Or.inr ⟨_, place⟩
  | noOperands => exact ⟨aligned, fun operand member => by cases member⟩
  | operand computed others first rest =>
    obtain ⟨between, placed⟩ := first aligned
    obtain ⟨last, allPlaced⟩ := rest between
    refine ⟨last, ?_⟩
    intro other member
    rcases List.mem_cons.mp member with rfl | later
    · exact placed
    · exact allPlaced other later
  | noArguments => exact ⟨aligned, trivial⟩
  | argument code takes widening pass others first rest =>
    exact ⟨(rest (widening.aligned (first aligned).1)).1, trivial⟩

theorem AssignCode.aligned {assignment : Assignment}
    (code : AssignCode image context assignment start stop)
    (singleReturns : context.SingleReturns)
    (aligned : start.Aligned) :
    stop.Aligned := by
  cases code with
  | whole unindexed computed => exact (computed.placed singleReturns aligned).1
  | item indexed computed located pointed =>
    exact pointed.aligned
      (located.placed singleReturns (computed.placed singleReturns aligned).1).1

theorem StmtCode.aligned {clause : Clause}
    (code : StmtCode image context clause start stop)
    (singleReturns : context.SingleReturns)
    (aligned : start.Aligned) :
    stop.Aligned := by
  induction code with
  | declare | leave | nil => exact aligned
  | assign code => exact code.aligned singleReturns aligned
  | branch condition _ _ induction | whileLoop condition _ _ _ induction =>
    exact induction (condition.computed.placed singleReturns aligned).1
  | branchElse condition skip inside across outside insideInduction
      outsideInduction =>
    exact outsideInduction
      (insideInduction (condition.computed.placed singleReturns aligned).1)
  | forLoop initially condition skip inside advance again induction =>
    have begun := initially.aligned singleReturns aligned
    exact advance.aligned singleReturns
      (induction (condition.computed.placed singleReturns begun).1)
  | write computed | ret computed | call computed =>
    exact (computed.placed singleReturns aligned).1
  | cons first others firstInduction othersInduction =>
    exact othersInduction (firstInduction aligned)

section

variable {name : String} {field : Option String} {resolved : Resolved}
variable {first : Address} {location : Location}

/-- What a use of a name designates lies inside the variable. -/
theorem Context.Designates.whole_inside
    (designates : context.Designates name false field resolved first location) :
    resolved.offset + resolved.type.slotCount ≤
      resolved.owner.type.slotCount := by
  obtain ⟨_, ran⟩ := designates.named
  cases Scope.resolves_of_resolve ran with
  | whole found => simp [Resolved.offset]
  | @member owner _ member found list chosen =>
    have object := Scope.isObject_of_attribute? chosen
    simp only [Bool.false_eq_true, if_false, Ty.isObject, Bool.and_eq_true,
      Bool.not_eq_true'] at object
    have bounds := member.offset_bounds
    have scalar : (Ty.basic member.element).slotCount = 1 :=
      Space.slotCount_scalar member.element_scalar
    have count : owner.type.slotCount = Element.blockSize := by
      rw [Ty.slotCount_of_single object.2, Element.slotWidth,
        object.1, if_pos rfl]
    simp only [Resolved.offset, Option.map_some, Option.getD_some,
      scalar, count]
    omega

section

variable (designates : context.Designates name true field resolved
  first location)
include designates

/-- An item, or an attribute of one, takes no more room than an item has. -/
theorem Context.Designates.item_room :
    resolved.offset + resolved.type.slotCount ≤
      resolved.owner.type.element.slotWidth := by
  obtain ⟨_, ran⟩ := designates.named
  cases Scope.resolves_of_resolve ran with
  | whole found =>
    have width := Ty.slotCount_item designates.fits.flat
    simp only [Resolved.offset, Option.map_none, Option.getD_none,
      if_true] at width ⊢
    omega
  | @member owner _ member found list chosen =>
    have object := Scope.isObject_of_attribute? chosen
    simp only [if_true, Ty.isObject, Bool.and_eq_true] at object
    have bounds := member.offset_bounds
    have scalar : (Ty.basic member.element).slotCount = 1 :=
      Space.slotCount_scalar member.element_scalar
    have isObject : owner.type.element.isObject = true := object.1
    simp only [Element.slotWidth, isObject, if_true]
    simp only [Resolved.offset, Option.map_some, Option.getD_some, scalar]
    omega

/-- An item, or an attribute of one, lies inside its list. -/
theorem Context.Designates.item_inside {index : Nat}
    (inside : index < resolved.owner.type.size) :
    resolved.offset + index * resolved.owner.type.element.slotWidth +
      resolved.type.slotCount ≤ resolved.owner.type.slotCount := by
  obtain ⟨_, ran⟩ := designates.named
  have list := (Scope.resolves_of_resolve ran).list
  have span : (index + 1) * resolved.owner.type.element.slotWidth ≤
      resolved.owner.type.slotCount := by
    rw [Ty.slotCount_of_list list]
    exact Nat.mul_le_mul_right _ inside
  have room := designates.item_room
  rw [Nat.add_mul, Nat.one_mul] at span
  omega

/-- The first item of a list lies in the segment of the list. -/
theorem Context.Designates.base :
    ∃ found, locate? (first + resolved.offset) = some found ∧
      found.element = resolved.owner.type.element := by
  obtain ⟨_, ran⟩ := designates.named
  have resolves := Scope.resolves_of_resolve ran
  have filled := designates.fits.filled resolves.list
  have inside := designates.item_inside filled
  have room := designates.place.room
  have small : 0 < resolved.type.slotCount := by
    cases resolves with
    | whole found =>
      dsimp only
      rw [if_pos rfl, Ty.slotCount_item designates.fits.flat]
      exact Element.slotWidth_pos _
    | member found =>
      rw [Ty.slotCount_basic]
      exact Element.slotWidth_pos _
  refine ⟨_, locate?_add designates.place.located (by omega), ?_⟩
  exact designates.place.items resolves.list

end

end

end Easel
