import Easel.Calculation
import Easel.Operator
import Easel.Code.Emit

/-!
# Values of a type

A value belongs to one element type.  Calculations on operands of the types
that an operator accepts give a value of the operator's type; the only thing
that can go wrong is a division by zero.
-/

namespace Easel

variable {operator : Operator}

deriving instance DecidableEq for Value

namespace Value

/-- A value of an element type. -/
inductive Typed : Value → Element → Prop where
  | int (value : Int64) : Typed (.int value) .int
  | float (value : Float) : Typed (.float value) .float
  | char (value : Char) : Typed (.char value) .char
  | bool (value : Bool) : Typed (.bool value) .bool
  | string (value : String) : Typed (.string value) .string
  | object {kind : Element} (isObject : kind.isObject = true) :
      Typed (.object kind) kind

theorem typed_zero {kind : Element} (stored : kind ≠ .void) :
    (zero kind).Typed kind := by
  cases kind with
  | void => exact (stored rfl).elim
  | float => exact .float _
  | char => exact .char _
  | bool => exact .bool _
  | int => exact .int _
  | string => exact .string _
  | square | circle | image | text | background => exact .object rfl

namespace Typed

variable {value : Value} {kind : Element}

theorem element_eq (typed : value.Typed kind) : value.element = kind := by
  cases typed <;> rfl

theorem not_void (typed : value.Typed kind) : kind ≠ .void := by
  cases typed with
  | object isObject =>
    rintro rfl
    cases isObject
  | _ => decide

/-- A value fits a slot of its own type as it is. -/
theorem fit?_self (typed : value.Typed kind) :
    value.fit? kind = some value := by
  unfold fit?
  split
  · cases typed
  · rw [if_pos typed.element_eq]

theorem eq_int (typed : value.Typed .int) : ∃ number, value = .int number := by
  cases typed with
  | int number => exact ⟨number, rfl⟩
  | object isObject => cases isObject

theorem eq_bool (typed : value.Typed .bool) : ∃ truth, value = .bool truth := by
  cases typed with
  | bool truth => exact ⟨truth, rfl⟩
  | object isObject => cases isObject

theorem eq_string (typed : value.Typed .string) :
    ∃ text, value = .string text := by
  cases typed with
  | string text => exact ⟨text, rfl⟩
  | object isObject => cases isObject

theorem eq_char (typed : value.Typed .char) :
    ∃ letter, value = .char letter := by
  cases typed with
  | char letter => exact ⟨letter, rfl⟩
  | object isObject => cases isObject

theorem eq_float (typed : value.Typed .float) :
    ∃ number, value = .float number := by
  cases typed with
  | float number => exact ⟨number, rfl⟩
  | object isObject => cases isObject

theorem eq_object (typed : value.Typed kind) (isObject : kind.isObject = true) :
    value = .object kind := by
  cases typed with
  | object _ => rfl
  | _ => cases isObject

end Typed

/-- The value as a slot of the given kind holds it. -/
def fitted (kind : Element) (value : Value) : Value :=
  (value.fit? kind).getD value

/-- A slot takes values of its kind, and one of floats also integers. -/
inductive Takes : Element → Element → Prop where
  | same (kind : Element) : Takes kind kind
  | widened : Takes .float .int

theorem Takes.stored {target source : Element}
    (takes : Takes target source)
    (stored : target ≠ .void) :
    source ≠ .void := by
  cases takes with
  | same => exact stored
  | widened => decide

theorem Typed.fit? {value : Value} {target source : Element}
    (typed : value.Typed source)
    (takes : Takes target source) :
    value.fit? target = some (value.fitted target) ∧
      (value.fitted target).Typed target := by
  cases takes with
  | same =>
    rw [fitted, typed.fit?_self]
    exact ⟨rfl, typed⟩
  | widened =>
    obtain ⟨_, rfl⟩ := typed.eq_int
    exact ⟨rfl, .float _⟩

end Value

/-! ## Calculations -/

namespace Calculation

/-- A result of the right type, or a division by zero. -/
inductive Computes (position : Nat) (element : Element) :
    Except Fault Value → Prop where
  | value {result : Value} (typed : result.Typed element) :
      Computes position element (.ok result)
  | divided : Computes position element (.error (.divisionByZero position))

variable {left right : Value} {leftKind rightKind result : Element}

/-- A calculation gives the same wherever it is made, or divides by zero. -/
def Steady (result : Element)
    (computed : Nat → Address → Address → Except Fault Value) : Prop :=
  (∃ value : Value, value.Typed result ∧
    ∀ position first second, computed position first second = .ok value) ∨
  ∀ position first second, computed position first second =
    .error (.divisionByZero position)

theorem steady_of_ok {value : Value}
    {computed : Nat → Address → Address → Except Fault Value}
    (typed : value.Typed result)
    (ran : ∀ position first second,
      computed position first second = .ok value) :
    Steady result computed :=
  .inl ⟨value, typed, ran⟩

theorem number_of_numeric {value : Value} {kind : Element}
    (typed : value.Typed kind)
    (numeric : kind.isNumeric = true) :
    ∃ number, ∀ address, Cell.number ⟨address, value⟩ = .ok number := by
  cases kind <;> try cases numeric
  · obtain ⟨number, rfl⟩ := typed.eq_float
    exact ⟨number, fun _ => rfl⟩
  · obtain ⟨number, rfl⟩ := typed.eq_int
    exact ⟨_, fun _ => rfl⟩

theorem combine_steady {integers : Nat → Int64 → Int64 → Except Fault Int64}
    {numbers : Nat → Float → Float → Except Fault Float}
    (integral : ∀ first second,
      (∃ value, ∀ position, integers position first second = .ok value) ∨
      ∀ position, integers position first second =
      .error (.divisionByZero position))
    (floating : ∀ first second,
      (∃ value, ∀ position, numbers position first second = .ok value) ∨
      ∀ position, numbers position first second =
      .error (.divisionByZero position))
    (leftTyped : left.Typed leftKind)
    (rightTyped : right.Typed rightKind)
    (arithmetic : Operator.arithmetic? leftKind rightKind = some result) :
    Steady result fun position first second =>
      combine (integers position) (numbers position) ⟨first,
        left⟩ ⟨second, right⟩ := by
  have asNumbers : ∀ first second : Float,
      Steady .float fun position _ _ =>
      Value.float <$> numbers position first second := by
    intro first second
    rcases floating first second with ⟨value, computed⟩ | divided
    · exact steady_of_ok (.float value) fun position _ _ =>
        congrArg (Value.float <$> ·) (computed position)
    · exact .inr fun position _ _ => congrArg (Value.float <$> ·)
        (divided position)
  cases leftKind <;> cases rightKind <;> cases arithmetic
  · obtain ⟨first, rfl⟩ := leftTyped.eq_float
    obtain ⟨second, rfl⟩ := rightTyped.eq_float
    exact asNumbers _ _
  · obtain ⟨first, rfl⟩ := leftTyped.eq_float
    obtain ⟨second, rfl⟩ := rightTyped.eq_int
    exact asNumbers _ _
  · obtain ⟨first, rfl⟩ := leftTyped.eq_int
    obtain ⟨second, rfl⟩ := rightTyped.eq_float
    exact asNumbers _ _
  · obtain ⟨first, rfl⟩ := leftTyped.eq_int
    obtain ⟨second, rfl⟩ := rightTyped.eq_int
    rcases integral first second with ⟨value, computed⟩ | divided
    · exact steady_of_ok (.int value) fun position _ _ =>
        congrArg (Value.int <$> ·) (computed position)
    · exact .inr fun position _ _ => congrArg (Value.int <$> ·)
        (divided position)

/-- The order of two values can be found out wherever they lie. -/
theorem compare_steady {compare : Cell → Cell → Except Fault Bool}
    (letters : ∀ one other, ∃ truth, ∀ first second,
      compare ⟨first, .char one⟩ ⟨second, .char other⟩ = .ok truth)
    (numbers : ∀ one other : Float,
      (∀ address, Cell.number ⟨address, left⟩ = .ok one) →
      (∀ address, Cell.number ⟨address, right⟩ = .ok other) →
      left.element.isNumeric = true → ∃ truth, ∀ first second,
      compare ⟨first, left⟩ ⟨second, right⟩ = .ok truth)
    (leftTyped : left.Typed leftKind)
    (rightTyped : right.Typed rightKind)
    (ordered : Operator.ordered leftKind rightKind = true) :
    Steady .bool fun _ first second =>
      Value.bool <$> compare ⟨first, left⟩ ⟨second, right⟩ := by
  have found : ∃ truth, ∀ first second,
      compare ⟨first, left⟩ ⟨second, right⟩ = .ok truth := by
    unfold Operator.ordered at ordered
    split at ordered
    · obtain ⟨one, rfl⟩ := leftTyped.eq_char
      obtain ⟨other, rfl⟩ := rightTyped.eq_char
      exact letters one other
    · rw [Bool.and_eq_true] at ordered
      obtain ⟨one, isOne⟩ := number_of_numeric leftTyped ordered.1
      obtain ⟨other, isOther⟩ := number_of_numeric rightTyped ordered.2
      exact numbers one other isOne isOther
        (leftTyped.element_eq.symm ▸ ordered.1)
  obtain ⟨truth, compared⟩ := found
  exact steady_of_ok (.bool truth) fun _ first second => by rw [compared]; rfl

/-- An operator on values that it accepts. -/
theorem binary_steady (leftTyped : left.Typed leftKind)
    (rightTyped : right.Typed rightKind)
    (accepted : operator.element? leftKind rightKind = some result) :
    Steady result fun position first second =>
      binary position operator.operation ⟨first, left⟩ ⟨second, right⟩ := by
  cases operator with
  | add | sub | mul =>
    exact combine_steady (fun _ _ => .inl ⟨_, fun _ => rfl⟩)
      (fun _ _ => .inl ⟨_, fun _ => rfl⟩) leftTyped rightTyped accepted
  | div =>
    refine combine_steady ?_ ?_ leftTyped rightTyped accepted
    · intro first second
      by_cases zero : second = 0
      · exact .inr fun position => by rw [if_pos zero]; rfl
      · exact .inl ⟨_, fun position => by rw [if_neg zero]; rfl⟩
    · intro first second
      by_cases zero : (second == 0.0) = true
      · exact .inr fun position => by rw [if_pos zero]; rfl
      · exact .inl ⟨_, fun position => by rw [if_neg zero]; rfl⟩
  | less =>
    obtain ⟨ordered, same⟩ := Option.ite_none_right_eq_some.mp accepted
    cases same
    refine compare_steady (fun _ _ => ⟨_, fun _ _ => rfl⟩) ?_ leftTyped
      rightTyped ordered
    intro one other isOne isOther numeric
    refine ⟨one < other, fun first second => ?_⟩
    unfold less
    split
    · rename_i isChar _
      dsimp only at isChar
      rw [isChar] at numeric
      cases numeric
    · rw [isOne, isOther]
      rfl
  | greater =>
    obtain ⟨ordered, same⟩ := Option.ite_none_right_eq_some.mp accepted
    cases same
    refine compare_steady (fun _ _ => ⟨_, fun _ _ => rfl⟩) ?_ leftTyped
      rightTyped ordered
    intro one other isOne isOther numeric
    refine ⟨other < one, fun first second => ?_⟩
    unfold greater
    split
    · rename_i isChar _
      dsimp only at isChar
      rw [isChar] at numeric
      cases numeric
    · rw [isOne, isOther]
      rfl
  | equal =>
    obtain ⟨_, same⟩ := Option.ite_none_right_eq_some.mp accepted
    cases same
    exact steady_of_ok (.bool (equal left right)) fun _ _ _ => rfl
  | and | or =>
    obtain ⟨⟨rfl, rfl⟩, same⟩ := Option.ite_none_right_eq_some.mp accepted
    cases same
    obtain ⟨first, rfl⟩ := leftTyped.eq_bool
    obtain ⟨second, rfl⟩ := rightTyped.eq_bool
    exact steady_of_ok (.bool _) fun _ _ _ => rfl

section

variable {position : Nat} {left right : Cell}

theorem number_ok {cell : Cell} {kind : Element}
    (typed : cell.value.Typed kind)
    (numeric : kind.isNumeric = true) :
    ∃ number, cell.number = .ok number := by
  obtain ⟨number, isNumber⟩ := number_of_numeric typed numeric
  exact ⟨number, isNumber cell.address⟩

/-- An operator on operands that it accepts. -/
theorem binary_computes (leftTyped : left.value.Typed leftKind)
    (rightTyped : right.value.Typed rightKind)
    (accepted : operator.element? leftKind rightKind = some result) :
    Computes position result
      (binary position operator.operation left right) := by
  rcases binary_steady leftTyped rightTyped accepted with
    ⟨_, typed, computed⟩ | divided
  · have ran := computed position left.address right.address
    dsimp only at ran
    rw [ran]
    exact .value typed
  · have ran := divided position left.address right.address
    dsimp only at ran
    rw [ran]
    exact .divided

end

theorem unary?_operator (operator : Operator) (cell : Cell) :
    unary? operator.operation cell = none := by
  cases operator <;> rfl

end Calculation

end Easel
