import Easel.Proofs.Meaning.Runs

/-!
# Operators and built-in functions

What an operator makes of two values depends on neither the addresses from
which they were read nor the position of the instruction; only the position
that takes the blame for a division by zero does.  A built-in function makes
of data what its instruction makes of their slots.
-/

namespace Easel

variable {operator : Operator} {result : Element} {data : List Datum}
variable {builtin : Builtin} {operands : List Operand}

theorem Operator.operands_scalar {left right : Element}
    (accepted : operator.element? left right = some result) :
    left.isObject = false ∧ right.isObject = false := by
  have arithmetic : arithmetic? left right = some result →
      left.isObject = false ∧ right.isObject = false := by
    intro accepted
    cases left <;> cases right <;> cases accepted <;> decide
  have tested : ∀ {test : Bool}, (test = true → left.isObject = false ∧
      right.isObject = false) →
      (if test then some Element.bool else none) = some result →
        left.isObject = false ∧ right.isObject = false :=
    fun scalar chosen => scalar (Option.ite_none_right_eq_some.mp chosen).1
  cases operator with
  | add | sub | mul | div => exact arithmetic accepted
  | less | greater | equal =>
    exact tested (by cases left <;> cases right <;> decide) accepted
  | and | or =>
    obtain ⟨⟨rfl, rfl⟩, _⟩ := Option.ite_none_right_eq_some.mp accepted
    exact ⟨rfl, rfl⟩

namespace Meaning

/-- The result of an operator, and of its instruction wherever that stands. -/
theorem Datum.operate_of_steady {left right : Value}
    (steady : Calculation.Steady result fun position first second =>
      Calculation.binary position operator.operation ⟨first,
      left⟩ ⟨second, right⟩) :
    (∃ value : Value, value.Typed result ∧
      Datum.operate operator (.plain left) (.plain right) = .ok (.plain value) ∧
      ∀ position first second,
        Calculation.binary position operator.operation ⟨first, left⟩ ⟨second,
        right⟩ = .ok value) ∨
    (Datum.operate operator (.plain left) (.plain right) =
      .error .divisionByZero ∧
      ∀ position first second,
      Calculation.binary position operator.operation ⟨first, left⟩
        ⟨second, right⟩ = .error (.divisionByZero position)) := by
  rcases steady with ⟨value, typed, computed⟩ | divided
  · refine .inl ⟨value, typed, ?_, computed⟩
    simp only [Datum.operate, computed]
  · refine .inr ⟨?_, divided⟩
    simp only [Datum.operate, divided]

/-! ## Built-in functions -/

/-- The reply of the machine that an answer stands for. -/
def replyOf : Value ⊕ Stroke → Reply
  | .inl value => .value value
  | .inr stroke => .stroke stroke

variable {datum : Datum} {operand : Operand} {memory : Memory}

/-- The number that a datum of a numeric type is. -/
theorem Datum.LiesAt.number (lies : datum.LiesAt operand memory)
    (numeric : operand.type.isNumeric = true) :
    datum.number = .ok (Builtin.numberIn (memory.slots operand)) := by
  simp only [Ty.isNumeric, Bool.and_eq_true] at numeric
  have scalar : operand.type.element.isObject = false := by
    cases isElement : operand.type.element <;>
      simp_all [Element.isNumeric, Element.isObject]
  obtain ⟨_, rfl, typed⟩ := lies.typed.plain_of_scalar scalar
  rw [lies.slots]
  cases isElement : operand.type.element <;> rw [isElement] at numeric typed <;>
    try cases numeric.1
  · obtain ⟨number, rfl⟩ := typed.eq_float
    rfl
  · obtain ⟨number, rfl⟩ := typed.eq_int
    rfl

/-- The text that a datum for a text is. -/
theorem Datum.LiesAt.text (lies : datum.LiesAt operand memory)
    (isText : (Ty.basic .string).accepts operand.type = true) :
    datum = .plain (.string (Builtin.textIn (memory.slots operand))) := by
  have isString : operand.type.element = .string := by
    simp only [Ty.accepts, Ty.agrees, Ty.basic, Bool.or_eq_true,
      Bool.and_eq_true, beq_iff_eq] at isText
    rcases isText with ⟨element, _⟩ | ⟨⟨_, isFloat⟩, _⟩
    · exact element.symm
    · cases isFloat
  have typed := lies.typed
  rw [isString] at typed
  obtain ⟨_, rfl, valueTyped⟩ := typed.plain_of_scalar rfl
  obtain ⟨_, rfl⟩ := valueTyped.eq_string
  rw [lies.slots]
  rfl

/-- The object that a datum for an object is drawn as. -/
theorem Datum.LiesAt.drawing (lies : datum.LiesAt operand memory)
    (object : operand.type.isObject = true) :
    datum.drawing = Drawing.ofSlots (memory.slots operand) := by
  simp only [Ty.isObject, Bool.and_eq_true] at object
  rw [lies.slots, Datum.ofSlots_slots lies.typed object.1]

/-- Data lie where some operands are. -/
inductive LieAt : List Datum → List Operand → Memory → Prop where
  | nil (memory : Memory) : LieAt [] [] memory
  | cons {datum : Datum} {data : List Datum} {operand : Operand}
      {operands : List Operand}
      {memory : Memory} (first : datum.LiesAt operand memory)
      (rest : LieAt data operands memory) :
      LieAt (datum :: data) (operand :: operands) memory

theorem LieAt.one (lie : LieAt data [operand] memory) :
    ∃ datum, data = [datum] ∧ datum.LiesAt operand memory := by
  cases lie with
  | cons lies none =>
    cases none
    exact ⟨_, rfl, lies⟩

theorem LieAt.two {other : Operand} (lie : LieAt data [operand, other] memory) :
    ∃ first second, data = [first, second] ∧ first.LiesAt operand memory ∧
      second.LiesAt other memory := by
  cases lie with
  | cons lies rest =>
    obtain ⟨second, rfl, otherLies⟩ := LieAt.one rest
    exact ⟨_, second, rfl, lies, otherLies⟩

/-- Built-in functions take no lists. -/
theorem takes_single (takes : builtin.Takes operands) :
    ∀ operand ∈ operands, operand.type.isList = false := by
  have single : ∀ (kind : ParameterKind) (type : Ty), kind.accepts type = true →
      type.isList = false := by
    intro kind type accepted
    cases kind with
    | exact element => exact (Ty.takes_of_accepts rfl accepted).1
    | numeric =>
      simp only [ParameterKind.accepts, Ty.isNumeric, Bool.and_eq_true,
        Bool.not_eq_true'] at accepted
      exact accepted.2
    | anyObject =>
      simp only [ParameterKind.accepts, Ty.isObject, Bool.and_eq_true,
        Bool.not_eq_true'] at accepted
      exact accepted.2
  intro operand listed
  obtain ⟨index, found⟩ := List.getElem?_of_mem listed
  have bound : index < builtin.parameters.length := by
    rw [← takes.1]
    exact (List.getElem?_eq_some_iff.mp found).1
  exact single _ _
    (takes.2 index _ operand (List.getElem?_eq_getElem bound) found)

/-- A built-in function answers what its instruction replies. -/
theorem answer_eq (member : builtin ∈ Builtin.all)
    (takes : builtin.Takes operands)
    (lie : LieAt data operands memory)
    (held : List String) :
    ∃ answered, answer held builtin data = .ok answered ∧
      builtin.reply held (operands.map memory.slots) = replyOf answered := by
  obtain ⟨count, accepted⟩ := takes
  simp only [Builtin.all, List.mem_cons, List.not_mem_nil, or_false] at member
  rcases member with rfl | rfl | rfl | rfl | rfl | rfl | rfl
  · obtain ⟨key, rfl⟩ := List.length_eq_one_iff.mp count
    obtain ⟨datum, rfl, lies⟩ := lie.one
    rw [lies.text (accepted 0 _ key rfl rfl)]
    exact ⟨_, rfl, rfl⟩
  · obtain ⟨first, second, rfl⟩ := Exec.eq_pair_of_length count
    obtain ⟨one, other, rfl, lies, otherLies⟩ := lie.two
    refine ⟨_, rfl, ?_⟩
    rw [lies.drawing (accepted 0 _ first rfl rfl),
      otherLies.drawing (accepted 1 _ second rfl rfl)]
    rfl
  · obtain ⟨base, exponent, rfl⟩ := Exec.eq_pair_of_length count
    obtain ⟨one, other, rfl, lies, otherLies⟩ := lie.two
    refine ⟨.inl (.float ((Builtin.numberIn (memory.slots base)).pow
      (Builtin.numberIn (memory.slots exponent)))), ?_, rfl⟩
    simp only [answer, lies.number (accepted 0 _ base rfl rfl),
      otherLies.number (accepted 1 _ exponent rfl rfl)]
    rfl
  · obtain ⟨operand, rfl⟩ := List.length_eq_one_iff.mp count
    obtain ⟨datum, rfl, lies⟩ := lie.one
    refine ⟨.inl (.float (Builtin.numberIn (memory.slots operand)).sqrt),
      ?_, rfl⟩
    simp only [answer, lies.number (accepted 0 _ operand rfl rfl)]
    rfl
  · obtain ⟨operand, rfl⟩ := List.length_eq_one_iff.mp count
    obtain ⟨datum, rfl, lies⟩ := lie.one
    refine ⟨_, rfl, ?_⟩
    rw [lies.drawing (accepted 0 _ operand rfl rfl)]
    rfl
  · obtain rfl := List.length_eq_zero_iff.mp count
    cases lie
    exact ⟨_, rfl, rfl⟩
  · obtain rfl := List.length_eq_zero_iff.mp count
    cases lie
    exact ⟨_, rfl, rfl⟩

end Meaning

end Easel
