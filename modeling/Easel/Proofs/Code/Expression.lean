import Easel.Proofs.Code.Draft

/-!
# Generated code for expressions

Code is generated for every expression that was checked, unless storage runs
out on the way: whatever the generator looks up was found by the checker, and
the types that it computes are those that the checker computed.  The operand
of the expression has the type that checking found.  Where variables have
places, the code is code for the expression in the sense of `ExprCode`,
wherever it is installed.
-/

namespace Easel

variable {resolved : Resolved} {operator : Operator} {parameter : Ty}
variable {address : Address} {operands : List Operand} {operandCode : List Quad}
variable {last : Draft} {rest : List Expr}

/-- Generating `code` for a phrase at `start` worked as it should. -/
structure Produces (context : Context)
    (phrase : Phrase)
    (start : Nat)
    (code : List Quad)
    (draft left : Draft) : Prop where
  emitted : Emitted context.functions (fun _ => False) start code
    phrase.calls draft left
  laid : context.Arranged → ∀ image, left.Within image →
    Installed image start code →
    ExprCode image context phrase (draft.point start)
    (left.point (start + code.length))

/-- What a checked use designates is a list only if it names a whole list. -/
theorem Scope.Resolves.small {scope : Scope} {name : String}
    {field : Option String}
    (resolves : scope.Resolves name true field resolved)
    (flat : resolved.owner.type.depth ≤ 1) :
    resolved.type.isList = false := by
  cases resolves with
  | whole found => exact Ty.item_isList flat
  | member found => rfl

theorem checkArguments_ok {name : String} {line position : Nat}
    {arguments : List (String × Bool × Ty)}
    (checked : checkArguments name line position arguments = .ok ()) :
    ∀ argument ∈ arguments, argument.2.1 = true := by
  induction arguments generalizing position with
  | nil =>
    intro argument member
    cases member
  | cons first arguments induction =>
    obtain ⟨expected, fits, type⟩ := first
    unfold checkArguments at checked
    split at checked
    · rename_i accepted
      intro argument member
      rcases List.mem_cons.mp member with rfl | later
      · exact accepted
      · exact induction checked argument later
    · cases checked

theorem checkCount_ok {name : String} {expected found line : Nat}
    (checked : checkCount name expected found line = .ok ()) :
    expected = found := by
  unfold checkCount at checked
  split at checked
  · assumption
  · cases checked

theorem checkIndex_ok {type : Ty} {line : Nat}
    (checked : Context.checkIndex type line = .ok ()) :
    type.agrees (.basic .int) = true := by
  unfold Context.checkIndex at checked
  split at checked
  · assumption
  · cases checked

theorem placeType_ok {context : Context} {declared : List String}
    {name : String} {indexed : Bool} {field : Option String} {line : Nat}
    {type : Ty}
    (checked : context.placeType declared name indexed field line = .ok type) :
    ∃ resolved, context.scope.resolve name indexed field line = .ok resolved ∧
      type = resolved.type := by
  unfold Context.placeType at checked
  obtain ⟨_, _, checked⟩ := bind_eq_ok.mp checked
  obtain ⟨resolved, ran, checked⟩ := bind_eq_ok.mp checked
  cases checked
  exact ⟨resolved, ran, rfl⟩

theorem negationType_ok {operand type : Ty}
    (checked : negationType operand = .ok type) :
    type = .basic .bool ∧ operand.agrees (.basic .bool) = true := by
  unfold negationType Operator.negation? at checked
  split at checked
  · rename_i found
    split at found
    · rename_i truth
      cases checked
      cases found
      refine ⟨rfl, ?_⟩
      obtain ⟨isBool, single⟩ := truth
      simp only [Ty.isList, Bool.not_eq_eq_eq_not, Bool.not_true,
        decide_eq_false_iff_not, Nat.not_lt, Nat.le_zero] at single
      simp [Ty.agrees, isBool, single, Ty.basic]
    · cases found
  · cases checked

theorem operatorType_ok {left right type : Ty}
    (checked : operatorType operator left right = .ok type) :
    ∃ element, type = .basic element ∧
      operator.type? left right = some (.basic element) := by
  unfold operatorType at checked
  split at checked
  · rename_i found
    cases checked
    have basic := found
    unfold Operator.type? at basic
    split at basic
    · cases basic
    · obtain ⟨element, _, same⟩ := Option.map_eq_some_iff.mp basic
      exact ⟨element, same.symm, same ▸ found⟩
  · cases checked

/-! ## Pieces of expressions -/

section

variable {plain context : Context} {declared : List String} {draft left : Draft}
variable {name : String} {indexed : Bool} {field : Option String}
  {line : Nat} {type : Ty}

/-- A use of a name that was checked designates storage. -/
theorem Context.Prepared.designates (prepared : plain.Prepared context)
    (checked : plain.placeType declared name indexed field line = .ok type) :
    ∃ resolved base,
      context.scope.resolve name indexed field line = .ok resolved ∧
      resolved.base name = .ok base ∧ resolved.type = type ∧ base.Narrow ∧
      (indexed = true → type.isList = false) ∧
      (context.Arranged → ∃ first location,
        context.Designates name indexed field resolved first location ∧
          base = first + resolved.offset) := by
  obtain ⟨_, found, rfl⟩ := placeType_ok checked
  obtain ⟨resolved, resolve⟩ :=
    Scope.resolve_of_alike (prepared.scope name) found
  have resolves := Scope.resolves_of_resolve resolve
  have same := (Scope.resolves_of_resolve found).type_eq
    (prepared.scope name) resolves
  obtain ⟨declarable, address, stored, _, _⟩ :=
    prepared.stored name _ resolves.found
  have based : resolved.base name =
      .ok (address + ((resolved.field.map Attribute.offset).getD 0 : Nat)) := by
    unfold Resolved.base addressOf
    rw [stored]
    rfl
  have near : (resolved.field.map Attribute.offset).getD 0 ≤ 8 := by
    cases resolved.field with
    | none => decide
    | some field => cases field <;> decide
  refine ⟨resolved, _, resolve, based, same, ⟨?_, ?_⟩, ?_, fun arranged =>
    arranged.designates resolve based⟩
  · omega
  · omega
  · rintro rfl
    rw [← same]
    exact resolves.small declarable.flat

theorem emitAccess_yields (prepared : plain.Prepared context)
    (checked : plain.placeType declared name false field line = .ok type) :
    Yields (context.emitAccess name field line draft) fun operand left =>
      left = draft ∧ operand.type = type ∧ operand.address.Narrow ∧
        (context.Arranged → ∃ resolved first location,
          context.Designates name false field resolved first location ∧
            operand = ⟨first + resolved.offset, resolved.type⟩) := by
  obtain ⟨resolved, _, resolve, based, same, narrow, _, designates⟩ :=
    prepared.designates checked
  refine .lift resolve
    (.lift based (.pure ⟨rfl, same, narrow, fun arranged => ?_⟩))
  obtain ⟨first, location, designated, rfl⟩ := designates arranged
  exact ⟨resolved, first, location, designated, rfl⟩

/-- Generating `code` that finds an item worked as it should. -/
structure Points (context : Context)
    (name : String)
    (field : Option String)
    (index : Operand)
    (resolved : Resolved)
    (pointer : Address)
    (start : Nat)
    (code : List Quad)
    (draft left : Draft) : Prop where
  narrow : pointer.Narrow
  length : code.length = 2
  emitted : Emitted context.functions (fun _ => False) start code [] draft left
  laid : context.Arranged → ∀ image, Installed image start code →
    PointerCode image context name field index resolved pointer
      (draft.point start) (left.point (start + 2))

theorem emitPointer_yields {index : Operand}
    (prepared : plain.Prepared context)
    (sound : draft.Sound)
    (checked : plain.placeType declared name true field line = .ok type)
    (whole : index.type.agrees (.basic .int) = true)
    (narrow : index.address.Narrow)
    (start : Nat) :
    Yields (context.emitPointer name index field line draft)
      fun (pointer, code) left => ∃ resolved, pointer.type = resolved.type ∧
      resolved.type = type ∧ type.isList = false ∧
        Points context name field index resolved pointer.address start code
          draft left := by
  obtain ⟨resolved, _, resolve, based, same, baseNarrow, single, designates⟩ :=
    prepared.designates checked
  refine .lift resolve (.lift based ((Gen.temp_yields sound rfl).bind ?_))
  rintro pointer left ⟨fresh, receives, further⟩
  refine .pure ⟨resolved, rfl, same, single rfl, receives.narrow, rfl, ?_, ?_⟩
  · have checks : Emitted context.functions (fun _ => False) start
        [⟨.checkBound, .wrap resolved.owner.type.size, .unused, index.address⟩]
        [] draft left :=
      (Emitted.nothing sound.extends).straight further rfl
        (Quad.narrow_mk (Address.narrow_wrap _) Address.narrow_unused narrow)
    exact checks.straight further.sound.extends rfl ⟨baseNarrow, narrow,
      receives.narrow⟩
  · intro arranged image installed
    obtain ⟨first, location, designated, rfl⟩ := designates arranged
    have check := installed.head (by simp)
    have add := installed.tail.head (by simp)
    exact ⟨whole, ⟨first, location, designated, add⟩, check, rfl, fresh⟩

/-- The code that brings an argument to the type of its parameter. -/
theorem emitWidening_yields {argument : Expr} {operand : Operand}
    (sound : draft.Sound)
    (takes : takesArgument parameter argument operand.type = true)
    (narrow : operand.address.Narrow)
    (functions : Table Routine)
    (start : Nat) :
    Yields (Context.emitWidening parameter operand draft)
      fun (address, code) left => address.Narrow ∧
      Emitted functions (fun _ => False) start code [] draft left ∧
      ∀ image, Installed image start code →
        Widening image parameter operand address (draft.point start)
          (left.point (start + code.length)) := by
  unfold Context.emitWidening
  split
  · rename_i agrees
    exact .pure ⟨narrow, .nothing sound.extends, fun image _ => .same agrees⟩
  · rename_i differs
    have single : parameter.isList = false := by
      unfold takesArgument at takes
      split at takes
      · simp only [Bool.and_eq_true] at takes
        exact absurd takes.1.1 differs
      · rename_i single
        exact Bool.eq_false_iff.mpr single
    refine (Gen.temp_yields sound single).bind ?_
    rintro widened left ⟨fresh, receives, further⟩
    refine .pure ⟨receives.narrow, ?_, fun image installed => ?_⟩
    · exact (Emitted.nothing sound.extends).straight further rfl
        ⟨narrow, Address.narrow_unused, receives.narrow⟩
    · exact .widened (Bool.eq_false_iff.mpr differs) fresh
        (installed.head (by simp))

end

variable {arguments : List Expr} {types : List Ty}

theorem typesOf_length {context : Context} {declared : List String}
    (checked : context.typesOf declared arguments = .ok types) :
    types.length = arguments.length := by
  induction arguments generalizing types with
  | nil =>
    rw [Context.typesOf] at checked
    cases checked
    rfl
  | cons first arguments induction =>
    rw [Context.typesOf] at checked
    obtain ⟨_, _, checked⟩ := bind_eq_ok.mp checked
    obtain ⟨_, checkedOthers, checked⟩ := bind_eq_ok.mp checked
    cases checked
    rw [List.length_cons, List.length_cons, induction checkedOthers]

theorem Builtin.parameters_le {name : String} {builtin : Builtin}
    (found : Builtin.find? name = some builtin) :
    builtin.parameters.length ≤ 2 := by
  have member := List.mem_of_find?_eq_some found
  have bounded : ∀ builtin ∈ Builtin.all, builtin.parameters.length ≤ 2 := by
    decide
  exact bounded builtin member

theorem callType_of_builtin {context : Context} {name : String} {line : Nat}
    {type : Ty} {builtin : Builtin}
    (found : Builtin.find? name = some builtin)
    (checked : context.callType name arguments types line = .ok type) :
    type = .basic builtin.returns ∧ builtin.parameters.length = types.length ∧
      ∀ (index : Nat) (kind : ParameterKind) (argument : Ty),
        builtin.parameters[index]? = some kind → types[index]? = some argument →
          kind.accepts argument = true := by
  simp only [Context.callType, found] at checked
  obtain ⟨_, count, checked⟩ := bind_eq_ok.mp checked
  obtain ⟨_, accepted, checked⟩ := bind_eq_ok.mp checked
  cases checked
  refine ⟨rfl, checkCount_ok count, ?_⟩
  intro index kind argument isKind isArgument
  have zipped : (builtin.parameters.zip types)[index]? =
      some (kind, argument) :=
    List.getElem?_zip_eq_some.mpr ⟨isKind, isArgument⟩
  exact checkArguments_ok accepted
    (kind.describe, kind.accepts argument,
      argument)
      (List.mem_map.mpr ⟨(kind, argument), List.mem_of_getElem? zipped, rfl⟩)

theorem callType_of_routine {context : Context} {name : String} {line : Nat}
    {type : Ty}
    (user : Builtin.find? name = none)
    (checked : context.callType name arguments types line = .ok type) :
    ∃ routine, context.functions.find? name = some routine ∧
      type = routine.returns ∧ routine.parameters.length = types.length ∧
      ∀ (index : Nat) (parameter : Ty) (argument : Expr) (found : Ty),
        routine.parameters[index]? = some parameter →
          arguments[index]? = some argument → types[index]? = some found →
          takesArgument parameter argument found = true := by
  simp only [Context.callType, user] at checked
  cases known : context.functions.find? name with
  | none => simp [known] at checked
  | some routine =>
    simp only [known] at checked
    obtain ⟨_, count, checked⟩ := bind_eq_ok.mp checked
    obtain ⟨_, accepted, checked⟩ := bind_eq_ok.mp checked
    cases checked
    refine ⟨routine, rfl, rfl, checkCount_ok count, ?_⟩
    intro index parameter argument found isParameter isArgument isFound
    have zipped : (routine.parameters.zip (arguments.zip types))[index]? =
        some (parameter, argument, found) :=
      List.getElem?_zip_eq_some.mpr
        ⟨isParameter, List.getElem?_zip_eq_some.mpr ⟨isArgument, isFound⟩⟩
    exact checkArguments_ok accepted
      (parameter.describe, takesArgument parameter argument found, found)
      (List.mem_map.mpr
        ⟨(parameter, argument, found), List.mem_of_getElem? zipped, rfl⟩)

/-! ## Expressions -/

section

variable {context : Context} {start : Nat} {draft between left : Draft}

/-- Code that ends at a position, however that is computed. -/
theorem ExprCode.until {image : Image} {phrase : Phrase} {point : Point}
    {stop position : Nat}
    (code : ExprCode image context phrase point (left.point stop))
    (same : stop = position) :
    ExprCode image context phrase point (left.point position) :=
  same ▸ code

theorem Produces.literal {value : Literal} {line : Nat}
    (member : ⟨value.text, value.element, address⟩ ∈ left.space.constants)
    (temps : left.temps = draft.temps)
    (further : draft.Extends left) :
    Produces context
      (.value (.literal value line) ⟨address, .basic value.element⟩) start []
      draft left := by
  constructor
  · rw [Phrase.calls, Expr.calls]
    exact .nothing further
  · intro _ image within installed
    obtain ⟨_, _, place⟩ := further.sound.literals.place member
    rw [List.length_nil, Nat.add_zero, Draft.point, Draft.point, temps]
    exact .literal (within.constants _ member) place

variable {value : Address}

theorem Produces.item {name : String} {index : Expr} {field : Option String}
    {line : Nat} {position : Operand} {pointer : Address}
    {indexCode pointerCode : List Quad} {afterIndex : Draft}
    (computed : Produces context (.value index position) start indexCode
      draft afterIndex)
    (points : Points context name field position resolved pointer
      (start + indexCode.length) pointerCode afterIndex between)
    (fresh : Space.Fresh between.temps resolved.type value left.temps)
    (receives : Receives resolved.type value)
    (further : between.Extends left) :
    Produces context
      (.value (.item name index field line) ⟨value, resolved.type⟩) start
      (indexCode ++ pointerCode ++
      [⟨.assignIndexInverse, pointer, .unused, value⟩]) draft left := by
  constructor
  · rw [Phrase.calls, Expr.calls]
    exact (computed.emitted.more rfl points.emitted).straight further rfl
      ⟨points.narrow, Address.narrow_unused, receives.narrow⟩
  · intro arranged image within installed
    have two := points.length
    have withinIndex := points.emitted.within (further.within within)
    have indexLaid := computed.laid arranged image withinIndex
      installed.left.left
    have pointed := points.laid arranged image installed.left.right
    exact .until (.item indexLaid pointed fresh
      ((installed.behind (by grind)).head (by simp))) (by grind)

theorem Produces.builtin {name : String} {arguments : List Expr} {line : Nat}
    {builtin : Builtin}
    (found : Builtin.find? name = some builtin)
    (computed : Produces context (.operands arguments operands) start
      operandCode draft between)
    (narrow : ∀ operand ∈ operands, operand.address.Narrow)
    (takes : builtin.Takes operands)
    (fresh : Space.Fresh between.temps (.basic builtin.returns)
      value left.temps)
    (receives : Receives (.basic builtin.returns) value)
    (further : between.Extends left) :
    Produces context
      (.value (.call name arguments line) ⟨value, .basic builtin.returns⟩) start
      (operandCode ++ [builtin.quad operands value]) draft left := by
  have straight := Builtin.operation_straight found
  constructor
  · have reserved : Builtin.isReserved name = true := by
      rw [Builtin.isReserved, found, Option.isSome_some]
    have addresses : ∀ address ∈ operands.map (·.address), address.Narrow := by
      simpa only [List.forall_mem_map] using narrow
    rw [Phrase.calls, Expr.calls, if_pos reserved, List.append_nil]
    exact computed.emitted.straight further straight
      ⟨narrow_getD addresses 0, narrow_getD addresses 1, receives.narrow⟩
  · intro arranged image within installed
    have operandsLaid := computed.laid arranged image (further.within within)
      installed.left
    have apply := installed.right.head (Operation.ne_call_of_straight straight)
    rw [List.length_append, List.length_singleton, ← Nat.add_assoc]
    exact .builtin found operandsLaid takes fresh apply

theorem Produces.call {name : String} {arguments : List Expr} {line : Nat}
    {routine : Routine} {argumentCode : List Quad}
    (sound : draft.Sound)
    (user : Builtin.find? name = none)
    (found : context.functions.find? name = some routine)
    (passed : Produces context (.arguments arguments routine.parameters)
      (start + 1) argumentCode draft between)
    (fresh : Space.Fresh between.temps routine.returns value last.temps)
    (receives : Receives routine.returns value)
    (further : between.Extends last) :
    Produces context
      (.value (.call name arguments line) ⟨value, routine.returns⟩) start
      (⟨.era, .wrap routine.footprint, .unused, .unused⟩ :: argumentCode ++
        [⟨.call, .unused, .unused, value⟩]) draft
      { last with
        links :=
          last.links ++ [⟨start + 1 + argumentCode.length, .left, name⟩] } := by
  constructor
  · have free : ¬ Builtin.isReserved name = true := by
      rw [Builtin.isReserved, user, Option.isSome_none]
      exact Bool.false_ne_true
    have announced : Emitted context.functions (fun _ => False) start
        [⟨.era, .wrap routine.footprint, .unused, .unused⟩] [] draft draft :=
      (Emitted.nothing sound.extends).straight sound.extends rfl
        (Quad.narrow_mk (Address.narrow_wrap _) Address.narrow_unused
          Address.narrow_unused)
    rw [Phrase.calls, Expr.calls, if_neg free]
    refine (announced.append rfl passed.emitted).call further ?_ found receives
    rw [List.length_append, List.length_singleton, Nat.add_assoc]
  · intro arranged image within installed
    have withinLast : last.Within image :=
      ⟨within.constants, fun link member =>
        within.links link (List.mem_append_left _ member)⟩
    have announce := installed.head (by simp)
    have rest : Installed image (start + 1)
        (argumentCode ++ [⟨.call, .unused, .unused, value⟩]) :=
      installed.tail
    have argumentsLaid : ExprCode image context
        (.arguments arguments routine.parameters) (draft.point start).next
        (between.point (start + 1 + argumentCode.length)) :=
      passed.laid arranged image (further.within withinLast) rest.left
    have isLinked := within.links ⟨start + 1 + argumentCode.length, .left, name⟩
      (by simp)
    obtain ⟨_, located, enter⟩ := rest.right.calls 0 _ rfl rfl _ isLinked rfl
    exact .until (.call user found located announce argumentsLaid fresh enter)
      (by grind)

theorem Produces.not {operand : Expr} {line : Nat} {value : Operand}
    {negated : Address}
    (computed : Produces context (.value operand value) start operandCode
      draft between)
    (narrow : value.address.Narrow)
    (truth : value.type.agrees (.basic .bool) = true)
    (fresh : Space.Fresh between.temps (.basic .bool) negated left.temps)
    (receives : Receives (.basic .bool) negated)
    (further : between.Extends left) :
    Produces context (.value (.not operand line) ⟨negated, .basic .bool⟩) start
      (operandCode ++ [⟨.not, value.address, .unused, negated⟩])
        draft left := by
  constructor
  · rw [Phrase.calls, Expr.calls]
    exact computed.emitted.straight further rfl ⟨narrow, Address.narrow_unused,
      receives.narrow⟩
  · intro arranged image within installed
    have operandLaid := computed.laid arranged image (further.within within)
      installed.left
    have negate := installed.right.head (by simp)
    rw [List.length_append, List.length_singleton, ← Nat.add_assoc]
    exact .not operandLaid truth fresh negate

theorem Produces.binary {first second : Expr} {firstValue secondValue : Operand}
    {element : Element} {firstCode secondCode : List Quad}
    (firstComputed : Produces context (.value first firstValue) start firstCode
      draft between)
    (firstNarrow : firstValue.address.Narrow)
    (secondComputed : Produces context (.value second secondValue)
      (start + firstCode.length) secondCode between last)
    (secondNarrow : secondValue.address.Narrow)
    (typed : operator.type? firstValue.type secondValue.type =
      some (.basic element))
    (fresh : Space.Fresh last.temps (.basic element) value left.temps)
    (receives : Receives (.basic element) value)
    (further : last.Extends left) :
    Produces context
      (.value (.binary operator first second) ⟨value, .basic element⟩) start
      (firstCode ++ secondCode ++
        [⟨operator.operation, firstValue.address, secondValue.address, value⟩])
          draft left := by
  constructor
  · rw [Phrase.calls, Expr.calls]
    exact (firstComputed.emitted.append rfl secondComputed.emitted).straight
      further operator.operation_straight ⟨firstNarrow, secondNarrow,
        receives.narrow⟩
  · intro arranged image within installed
    have withinSecond := further.within within
    have withinFirst := secondComputed.emitted.within withinSecond
    have firstLaid := firstComputed.laid arranged image withinFirst
      installed.left.left
    have secondLaid := secondComputed.laid arranged image withinSecond
      installed.left.right
    exact .until
      (.binary firstLaid secondLaid typed fresh
        ((installed.behind (by grind)).head
          (Operation.ne_call_of_straight operator.operation_straight)))
          (by grind)

theorem Produces.operand {first : Expr} {value : Operand}
    {firstCode restCode : List Quad}
    (computed : Produces context (.value first value) start firstCode
      draft between)
    (others : Produces context (.operands rest operands)
      (start + firstCode.length) restCode between left) :
    Produces context (.operands (first :: rest) (value :: operands)) start
      (firstCode ++ restCode) draft left := by
  constructor
  · rw [Phrase.calls, callsOf]
    exact computed.emitted.append rfl others.emitted
  · intro arranged image within installed
    have firstLaid := computed.laid arranged image
      (others.emitted.within within) installed.left
    have restLaid := others.laid arranged image within installed.right
    rw [List.length_append, ← Nat.add_assoc]
    exact .operand firstLaid restLaid

theorem Produces.argument {argument : Expr} {parameters : List Ty}
    {operand : Operand} {code widening restCode : List Quad} {widened : Draft}
    (computed : Produces context (.value argument operand) start code
      draft between)
    (takes : takesArgument parameter argument operand.type = true)
    (narrow : address.Narrow)
    (brought : Emitted context.functions (fun _ => False) (start + code.length)
      widening [] between widened)
    (wideningLaid : ∀ image, Installed image (start + code.length) widening →
      Widening image parameter operand address
      (between.point (start + code.length))
      (widened.point (start + code.length + widening.length)))
    (others : Produces context (.arguments rest parameters)
      (start + (code ++ widening ++ [(⟨.param, address,
        Context.argumentSize operand.type, .unused⟩ : Quad)]).length)
      restCode widened left) :
    Produces context (.arguments (argument :: rest) (parameter :: parameters))
      start
      (code ++ widening ++
        [⟨.param, address, Context.argumentSize operand.type, .unused⟩] ++
        restCode)
      draft left := by
  constructor
  · have passing : Emitted context.functions (fun _ => False) start
        (code ++ widening ++
          [⟨.param, address, Context.argumentSize operand.type, .unused⟩]) _
          draft widened :=
      (computed.emitted.more rfl brought).straight brought.sound.extends rfl
        ⟨narrow, narrow_argumentSize _, Address.narrow_unused⟩
    rw [Phrase.calls, callsOf]
    exact passing.append rfl others.emitted
  · intro arranged image within installed
    have withinComputed := brought.within (others.emitted.within within)
    have valueLaid := computed.laid arranged image withinComputed
      installed.left.left.left
    have broughtLaid := wideningLaid image installed.left.left.right
    have restLaid := others.laid arranged image within installed.right
    have passed :
        start + (code ++ widening ++ [(⟨.param, address,
          Context.argumentSize operand.type, .unused⟩ : Quad)]).length =
        start + code.length + widening.length + 1 := by
      grind
    rw [passed] at restLaid
    exact .until (.argument valueLaid takes broughtLaid
      ((installed.left.behind (by grind)).head (by simp)) restLaid) (by grind)

end

mutual

/-- The code that is generated for a checked expression. -/
theorem emitExpr_yields {plain context : Context}
    (prepared : plain.Prepared context) {declared : List String} {start : Nat}
    {draft : Draft} {type : Ty} :
    (expression : Expr) → draft.Sound →
      plain.typeOf declared expression = .ok type →
      Yields (context.emitExpr start expression draft)
      fun (operand, code) left =>
        operand.type = type ∧ operand.address.Narrow ∧
          Produces context (.value expression operand) start code draft left
  | .literal value line, sound, checked => by
    rw [Context.typeOf] at checked
    cases checked
    rw [Context.emitExpr]
    refine (Gen.constant_yields sound).bind ?_
    rintro address left ⟨member, temps, further, _⟩
    exact .pure ⟨rfl, further.sound.literals.narrow member,
      .literal member temps further⟩
  | .access name field line, sound, checked => by
    rw [Context.typeOf] at checked
    rw [Context.emitExpr]
    refine (emitAccess_yields prepared checked).bind ?_
    rintro operand _ ⟨rfl, same, narrow, designates⟩
    refine .pure ⟨same, narrow, ?_, fun arranged image within installed => ?_⟩
    · rw [Phrase.calls, Expr.calls]
      exact .nothing sound.extends
    · obtain ⟨resolved, first, _, designated, rfl⟩ := designates arranged
      exact .access designated
  | .item name index field line, sound, checked => by
    rw [Context.typeOf] at checked
    obtain ⟨_, checkedIndex, checked⟩ := bind_eq_ok.mp checked
    obtain ⟨_, whole, checkedPlace⟩ := bind_eq_ok.mp checked
    rw [Context.emitExpr]
    refine (emitExpr_yields prepared index sound checkedIndex).bind ?_
    rintro ⟨_, indexCode⟩ afterIndex ⟨rfl, narrow, computed⟩
    refine (emitPointer_yields prepared computed.emitted.sound checkedPlace
      (checkIndex_ok whole) narrow (start + indexCode.length)).bind ?_
    rintro ⟨⟨_, _⟩, _⟩ afterPointer ⟨resolved, rfl, rfl, single, points⟩
    refine (Gen.temp_yields points.emitted.sound single).bind ?_
    rintro value left ⟨fresh, receives, further⟩
    exact .pure ⟨rfl, receives.narrow,
      .item computed points fresh receives further⟩
  | .call name arguments line, sound, checked => by
    rw [Context.typeOf] at checked
    obtain ⟨_, checkedTypes, checked⟩ := bind_eq_ok.mp checked
    have length := typesOf_length checkedTypes
    rw [Context.emitExpr]
    cases found : Builtin.find? name with
    | some builtin =>
      obtain ⟨rfl, count, accepted⟩ := callType_of_builtin found checked
      have few := Builtin.parameters_le found
      refine (emitOperands_yields prepared arguments (by omega) sound
        checkedTypes).bind ?_
      rintro ⟨_, operandCode⟩ between ⟨operands, rfl, rfl, narrow, computed⟩
      have takes : builtin.Takes operands := by
        refine ⟨by rw [count, List.length_map], ?_⟩
        intro index kind operand isKind isOperand
        refine accepted index kind operand.type isKind ?_
        rw [List.getElem?_map, isOperand]
        rfl
      refine (Gen.temp_yields computed.emitted.sound rfl).bind ?_
      rintro value left ⟨fresh, receives, further⟩
      exact .pure ⟨rfl, receives.narrow,
        .builtin found computed narrow takes fresh receives further⟩
    | none =>
      obtain ⟨_, knownBefore, rfl, count, takes⟩ :=
        callType_of_routine found checked
      obtain ⟨routine, known, returns, parameters⟩ :=
        prepared.routine knownBefore
      rw [← parameters] at count takes
      rw [known]
      refine (emitArguments_yields prepared arguments (count.trans length)
        sound checkedTypes takes).bind ?_
      intro argumentCode between passed
      refine (Gen.temp_yields passed.emitted.sound
        (prepared.single name routine known)).bind ?_
      rintro value last ⟨fresh, receives, further⟩
      exact .modify (.pure ⟨returns, receives.narrow,
        .call sound found known passed fresh receives further⟩)
  | .not operand line, sound, checked => by
    rw [Context.typeOf] at checked
    obtain ⟨_, checkedOperand, negation⟩ := bind_eq_ok.mp checked
    rw [Context.emitExpr]
    refine (emitExpr_yields prepared operand sound checkedOperand).bind ?_
    rintro ⟨value, operandCode⟩ between ⟨rfl, narrow, computed⟩
    obtain ⟨rfl, truth⟩ := negationType_ok negation
    refine .lift negation ((Gen.temp_yields computed.emitted.sound rfl).bind ?_)
    rintro negated left ⟨fresh, receives, further⟩
    exact .pure ⟨rfl, receives.narrow,
      .not computed narrow truth fresh receives further⟩
  | .group inner line, sound, checked => by
    rw [Context.typeOf] at checked
    rw [Context.emitExpr]
    refine (emitExpr_yields prepared inner sound checked).imp ?_
    rintro ⟨operand, code⟩ left ⟨same, narrow, computed⟩
    refine ⟨same, narrow, ?_, fun arranged image within installed =>
      .group (computed.laid arranged image within installed)⟩
    rw [Phrase.calls, Expr.calls]
    exact computed.emitted
  | .binary operator first second, sound, checked => by
    rw [Context.typeOf] at checked
    obtain ⟨_, checkedFirst, checked⟩ := bind_eq_ok.mp checked
    obtain ⟨_, checkedSecond, combined⟩ := bind_eq_ok.mp checked
    rw [Context.emitExpr]
    refine (emitExpr_yields prepared first sound checkedFirst).bind ?_
    rintro ⟨_, _⟩ between ⟨rfl, firstNarrow, firstComputed⟩
    refine (emitExpr_yields prepared second firstComputed.emitted.sound
      checkedSecond).bind ?_
    rintro ⟨_, _⟩ last ⟨rfl, secondNarrow, secondComputed⟩
    obtain ⟨_, rfl, typed⟩ := operatorType_ok combined
    refine .lift combined
      ((Gen.temp_yields secondComputed.emitted.sound rfl).bind ?_)
    rintro value left ⟨fresh, receives, further⟩
    exact .pure ⟨rfl, receives.narrow,
      .binary firstComputed firstNarrow secondComputed secondNarrow typed fresh
      receives further⟩

theorem emitOperands_yields {plain context : Context}
    (prepared : plain.Prepared context) {declared : List String}
    {start count : Nat} {draft : Draft} {types : List Ty} :
    (expressions : List Expr) → expressions.length ≤ count → draft.Sound →
      plain.typesOf declared expressions = .ok types →
      Yields (context.emitOperands start count expressions draft)
        fun (addresses, code) left => ∃ operands : List Operand,
        operands.map (·.address) = addresses ∧
          operands.map (·.type) = types ∧
            (∀ operand ∈ operands, operand.address.Narrow) ∧
          Produces context (.operands expressions operands) start
            code draft left
  | [], _, sound, checked => by
    rw [Context.typesOf] at checked
    cases checked
    rw [Context.emitOperands]
    refine .pure ⟨[], rfl, rfl, by simp,
        ?_, fun arranged image within installed =>
      .noOperands⟩
    rw [Phrase.calls, callsOf]
    exact .nothing sound.extends
  | first :: rest, enough, sound, checked => by
    rw [Context.typesOf] at checked
    obtain ⟨_, checkedFirst, checked⟩ := bind_eq_ok.mp checked
    obtain ⟨_, checkedRest, checked⟩ := bind_eq_ok.mp checked
    cases checked
    cases count with
    | zero => simp at enough
    | succ count =>
      rw [Context.emitOperands]
      refine (emitExpr_yields prepared first sound checkedFirst).bind ?_
      rintro ⟨value, _⟩ between ⟨rfl, firstNarrow, computed⟩
      refine (emitOperands_yields prepared rest (Nat.le_of_succ_le_succ enough)
        computed.emitted.sound checkedRest).bind ?_
      rintro ⟨_, _⟩ left ⟨operands, rfl, rfl, narrow, others⟩
      exact .pure ⟨value :: operands, rfl, rfl,
        List.forall_mem_cons.mpr ⟨firstNarrow, narrow⟩,
        .operand computed others⟩

theorem emitArguments_yields {plain context : Context}
    (prepared : plain.Prepared context) {declared : List String} {start : Nat}
    {draft : Draft} {types parameters : List Ty} :
    (expressions : List Expr) → parameters.length = expressions.length →
      draft.Sound → plain.typesOf declared expressions = .ok types →
      (∀ (index : Nat) (parameter : Ty) (argument : Expr) (found : Ty),
        parameters[index]? = some parameter →
          expressions[index]? = some argument → types[index]? = some found →
          takesArgument parameter argument found = true) →
      Yields (context.emitArguments start expressions parameters draft)
        fun code left => Produces context (.arguments expressions parameters)
        start code draft left
  | [], count, sound, _, _ => by
    have none : parameters = [] := List.eq_nil_of_length_eq_zero count
    subst none
    rw [Context.emitArguments]
    refine .pure ⟨?_, fun arranged image within installed => .noArguments⟩
    rw [Phrase.calls, callsOf]
    exact .nothing sound.extends
  | first :: rest, count, sound, checked, takes => by
    rw [Context.typesOf] at checked
    obtain ⟨_, checkedFirst, checked⟩ := bind_eq_ok.mp checked
    obtain ⟨_, checkedRest, checked⟩ := bind_eq_ok.mp checked
    cases checked
    cases parameters with
    | nil => simp at count
    | cons parameter parameters =>
      rw [Context.emitArguments]
      refine (emitExpr_yields prepared first sound checkedFirst).bind ?_
      rintro ⟨value, firstCode⟩ between ⟨rfl, valueNarrow, computed⟩
      have firstTakes := takes 0 parameter first value.type rfl rfl rfl
      refine (emitWidening_yields computed.emitted.sound firstTakes valueNarrow
        context.functions (start + firstCode.length)).bind ?_
      rintro ⟨_, _⟩ widened ⟨narrow, brought, wideningLaid⟩
      refine (emitArguments_yields prepared rest
        (Nat.succ.inj count) brought.sound checkedRest fun index =>
        takes (index + 1)).bind ?_
      intro restCode left others
      exact .pure
        (.argument computed firstTakes narrow brought wideningLaid others)

end

end Easel
