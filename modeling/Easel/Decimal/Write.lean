import Easel.Decimal.Read

/-!
# Writing floating point numbers

A finite number is written either with the fewest digits that read back as
the same number or with a fixed number of places.  Both work on the exact
value, a ratio of natural numbers taken from the bits, so nothing is lost on
the way.

The digits and their layout are separate: `shortest` selects digits, and a
`Layout` says where positional writing ends and whether a whole number keeps
its point.
-/

namespace Easel.Decimal

/-- The leading bit of a fraction that is not written down. -/
def implicitBit : Nat := 0x10000000000000

/-- The magnitude of a finite number, over a positive denominator. -/
def ratio (value : Float) : Nat × Nat :=
  let bits := value.toBits
  let exponent := ((bits >>> 52) &&& 0x7FF).toNat
  let fraction := (bits &&& 0xFFFFFFFFFFFFF).toNat
  if exponent = 0 then (fraction, Nat.pow 2 1074)
  else if exponent < 1075 then
    (implicitBit + fraction, Nat.pow 2 (1075 - exponent))
  else ((implicitBit + fraction) * Nat.pow 2 (exponent - 1075), 1)

/-- Whether the sign bit is set. -/
def isNegative (value : Float) : Bool :=
  value.toBits >>> 63 == 1

/-- The number of decimal digits of a natural number. -/
def digitCount (value : Nat) : Nat :=
  (toString value).length

/-- The exponent of the least power of ten above a positive ratio. -/
def scale (numerator denominator : Nat) : Int :=
  if denominator ≤ numerator then digitCount (numerator / denominator)
  else
    let below := digitCount (denominator / numerator) - 1
    if numerator * Nat.pow 10 below = denominator then 1 - (below : Int)
    else -(below : Int)

/-- A decimal: its digits and how many of them stand after the point. -/
structure Digits where
  digits : Nat
  point : Int
deriving Repr, DecidableEq

/-- Drop the zeros at the end of the digits. -/
def Digits.strip (decimal : Digits) : Digits :=
  if _nonzero : decimal.digits ≠ 0 ∧ decimal.digits % 10 = 0 then
    Digits.strip ⟨decimal.digits / 10, decimal.point - 1⟩
  else decimal
termination_by decimal.digits
decreasing_by omega

/--
The decimals with `count` digits next to a positive ratio, from below and
from above, the nearer one first.  Of two that are equally near the greater
comes first.
-/
def neighbours (numerator denominator : Nat) (point : Int) (count : Nat) :
    List Digits :=
  let shift := (count : Int) - point
  let scaledNumerator := numerator * Nat.pow 10 shift.toNat
  let scaledDenominator := denominator * Nat.pow 10 (-shift).toNat
  let lower := scaledNumerator / scaledDenominator
  if 2 * scaledNumerator < (2 * lower + 1) * scaledDenominator then
    [⟨lower, shift⟩, ⟨lower + 1, shift⟩]
  else
    [⟨lower + 1, shift⟩, ⟨lower, shift⟩]

/-- The number nearest to a decimal. -/
def Digits.toFloat (decimal : Digits) : Float :=
  nearest decimal.digits (-decimal.point)

/-- Enough digits to tell any two binary numbers apart. -/
def sufficientDigits : Nat := 17

/--
The fewest digits that read back as the positive finite number `value`; of
two such decimals the nearer.
-/
def shortest (value : Float) : Digits :=
  let (numerator, denominator) := ratio value
  let point := scale numerator denominator
  let candidates := (List.range sufficientDigits).flatMap fun count =>
    neighbours numerator denominator point (count + 1)
  let found := candidates.find? fun decimal =>
    decimal.toFloat.toBits == value.toBits
  (found.getD ⟨numerator * Nat.pow 10 1074 / denominator, 1074⟩).strip

/-- How the digits of a number are laid out. -/
structure Layout where
  /-- Leading exponents that are written positionally; all if absent. -/
  positional : Option (Int × Int)
  /-- Whether a whole number is written with a point and a zero. -/
  pointZero : Bool

/-- Lay out digits of which the first `point` stand before the point. -/
def Layout.arrange (layout : Layout) (text : List Char) (point : Int) :
    List Char :=
  let plain :=
    if point ≤ 0 then '0' :: '.' :: (List.replicate (-point).toNat '0' ++ text)
    else if point.toNat < text.length then
      text.take point.toNat ++ '.' :: text.drop point.toNat
    else
      text ++ List.replicate (point.toNat - text.length) '0' ++
        (if layout.pointZero then ['.', '0'] else [])
  let scientific :=
    text.take 1 ++ (if text.length ≤ 1 then [] else '.' :: text.drop 1) ++
      'e' :: (toString (point - 1)).toList
  match layout.positional with
  | none => plain
  | some (least, greatest) =>
    if least ≤ point - 1 ∧ point - 1 ≤ greatest then plain else scientific

/-- The sign in front of a number. -/
def signText (value : Float) : String :=
  if isNegative value then "-" else ""

/-- Write a number with the fewest digits that read back as the same number. -/
def Layout.write (layout : Layout) (value : Float) : String :=
  if value.isNaN then "NaN"
  else if value.isInf then signText value ++ "inf"
  else if (ratio value).1 = 0 then
    signText value ++ (if layout.pointZero then "0.0" else "0")
  else
    let decimal := shortest value.abs
    let text := (toString decimal.digits).toList
    signText value ++
      String.ofList (layout.arrange text (text.length - decimal.point))

/-- Round a ratio to the nearest natural number, a half to the even one. -/
def roundHalfEven (numerator denominator : Nat) : Nat :=
  let quotient := numerator / denominator
  let twice := 2 * (numerator % denominator)
  if twice < denominator then quotient
  else if twice = denominator then quotient + quotient % 2
  else quotient + 1

/-- Write a number with exactly `places` digits after the point. -/
def writeFixed (places : Nat) (value : Float) : String :=
  if value.isNaN then "NaN"
  else if value.isInf then signText value ++ "inf"
  else
    let (numerator, denominator) := ratio value
    let unit := Nat.pow 10 places
    let rounded := roundHalfEven (numerator * unit) denominator
    let fraction := (toString (rounded % unit)).toList
    let padded := List.replicate (places - fraction.length) '0' ++ fraction
    signText value ++ toString (rounded / unit) ++ "." ++ String.ofList padded

end Easel.Decimal
