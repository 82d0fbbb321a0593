import Easel.Element
import Easel.Decimal.Write
import Easel.Text.Quoted

/-!
# Values

A slot of storage holds one value.  Whole numbers have 64 bits and wrap
around; the attributes of an object are values of their own, so an object is
represented by its kind alone.
-/

namespace Easel

/-- The contents of one slot. -/
inductive Value where
  | int (value : Int64)
  | float (value : Float)
  | char (value : Char)
  | bool (value : Bool)
  | string (value : String)
  | object (kind : Element)
deriving Repr, BEq, Inhabited

namespace Value

/-- The value of a slot that was never written. -/
def zero : Element → Value
  | .float => .float 0.0
  | .char => .char 'a'
  | .bool => .bool false
  | .int => .int 0
  | .string => .string "-"
  | kind => .object kind

/-- The type of a value. -/
def element : Value → Element
  | .int _ => .int
  | .float _ => .float
  | .char _ => .char
  | .bool _ => .bool
  | .string _ => .string
  | .object kind => kind

/-- The whole number that a value is. -/
def int? : Value → Option Int64
  | .int value => some value
  | _ => none

/-- The number that a value is; whole numbers are rounded to the nearest one. -/
def number? : Value → Option Float
  | .int value => some (Float.ofInt value.toInt)
  | .float value => some value
  | _ => none

/-- The truth value that a value is. -/
def bool? : Value → Option Bool
  | .bool value => some value
  | _ => none

/-- The text that a value is. -/
def string? : Value → Option String
  | .string value => some value
  | _ => none

/-- A whole number of 64 bits. -/
def readInt? (text : List Char) : Option Int64 :=
  (Decimal.readInteger? Int64.minValue.toInt Int64.maxValue.toInt text).map
    Int64.ofInt

/-- A quoted character. -/
def readChar? (text : List Char) : Option Char :=
  match Text.unquote? '\'' text with
  | some [character] => some character
  | _ => none

/-- The value that a constant's text stands for. -/
def ofLiteral? (text : String) : Element → Option Value
  | .int => (readInt? text.toList).map .int
  | .float => (Decimal.readFloat? text.toList).map .float
  | .bool =>
    if text = "true" then some (.bool true)
    else if text = "false" then some (.bool false)
    else none
  | .char => (readChar? text.toList).map .char
  | .string =>
    (Text.unquote? '"' text.toList).map fun inner =>
      .string (String.ofList inner)
  | _ => none

/-- Whole numbers of at least this magnitude are written with places. -/
def wholeBound : Nat := 1000000000000000

/--
A number as programs print it: a whole number below `wholeBound` without a
point, any other number with six places.
-/
def floatText (value : Float) : String :=
  let (numerator, denominator) := Decimal.ratio value
  if value.isFinite && numerator % denominator == 0 && numerator / denominator <
      wholeBound then
    let magnitude := numerator / denominator
    if Decimal.isNegative value && magnitude ≠ 0 then s!"-{magnitude}"
    else toString magnitude
  else Decimal.writeFixed 6 value

/-- A value as programs print it. -/
def text : Value → String
  | .int value => toString value.toInt
  | .float value => floatText value
  | .char value => value.toString
  | .bool value => if value then "true" else "false"
  | .string value => value
  | .object kind => s!"<{kind.keyword}>"

/--
The value that a slot of type `kind` takes when `value` is stored there: the
value itself if the types agree, and a number for a whole number.
-/
def fit? (kind : Element) (value : Value) : Option Value :=
  match kind, value with
  | .float, .int value => some (.float (Float.ofInt value.toInt))
  | _, _ => if value.element = kind then some value else none

@[simp]
theorem element_zero (kind : Element) : (zero kind).element = kind := by
  cases kind <;> rfl

/-- What a slot takes has the type of the slot. -/
theorem element_of_fit? {kind : Element} {value fitted : Value}
    (fits : value.fit? kind = some fitted) :
    fitted.element = kind := by
  unfold fit? at fits
  split at fits
  · cases fits
    rfl
  · split at fits
    · cases fits
      assumption
    · cases fits

end Value

end Easel
