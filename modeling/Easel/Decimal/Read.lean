/-!
# Reading numbers

Integers are an optional sign and decimal digits, held to the range of the
number that is read.  Floating point numbers are decimals with an optional
point and exponent, or one of the words for infinity and for an undefined
result; a decimal denotes the nearest binary number.
-/

namespace Easel.Decimal

/-- A decimal digit. -/
def isDigit (character : Char) : Bool :=
  '0' ≤ character && character ≤ '9'

/-- The number that a run of decimal digits stands for. -/
def valueOfDigits (digits : List Char) : Nat :=
  digits.foldl (fun value digit => 10 * value + (digit.toNat - '0'.toNat)) 0

/-- One or more decimal digits and nothing else. -/
def readDigits? (text : List Char) : Option Nat :=
  if text ≠ [] ∧ text.all isDigit then some (valueOfDigits text) else none

/-- An unsigned integer up to `bound`; a plus sign may stand in front. -/
def readNatural? (bound : Nat) (text : List Char) : Option Nat :=
  let digits := match text with
    | '+' :: rest => rest
    | _ => text
  (readDigits? digits).filter (· ≤ bound)

/-- A signed integer between the two bounds. -/
def readInteger? (least greatest : Int) (text : List Char) : Option Int :=
  let value := match text with
    | '-' :: rest => (readDigits? rest).map fun value => -(value : Int)
    | '+' :: rest => (readDigits? rest).map Int.ofNat
    | _ => (readDigits? text).map Int.ofNat
  value.filter fun value => least ≤ value && value ≤ greatest

/-- A sign in front of a number: whether it is a minus, and what follows it. -/
def splitSign : List Char → Bool × List Char
  | '-' :: rest => (true, rest)
  | '+' :: rest => (false, rest)
  | text => (false, text)

/-- The exponent part of a decimal, zero if nothing is left to read. -/
def readExponent? : List Char → Option Int
  | [] => some 0
  | mark :: rest =>
    if mark = 'e' ∨ mark = 'E' then
      let (negative, digits) := splitSign rest
      (readDigits? digits).map fun value =>
        if negative then -(value : Int) else value
    else none

/--
The binary number nearest to `digits * 10 ^ exponent`.  Decimals beyond the
greatest or below the least binary number are decided by their leading
digit, so that no power larger than the result needs is computed.
-/
def nearest (digits : Nat) (exponent : Int) : Float :=
  let leading := exponent + (toString digits).length
  if digits = 0 ∨ leading < -400 then 0.0
  else if leading > 400 then 1.0 / 0.0
  else if exponent < 0 then Float.ofScientific digits true (-exponent).toNat
  else Float.ofScientific digits false exponent.toNat

/-- A decimal without its sign: digits, optional point and exponent. -/
def readDecimal? (text : List Char) : Option Float :=
  let whole := text.takeWhile isDigit
  let afterWhole := text.dropWhile isDigit
  let (fraction, tail) := match afterWhole with
    | '.' :: rest => (rest.takeWhile isDigit, rest.dropWhile isDigit)
    | _ => ([], afterWhole)
  if whole.isEmpty && fraction.isEmpty then none
  else (readExponent? tail).map fun exponent =>
    nearest (valueOfDigits (whole ++ fraction)) (exponent - fraction.length)

/-- A number without its sign: a decimal, or a word in upper or lower case. -/
def readMagnitude? (text : List Char) : Option Float :=
  let word := String.ofList (text.map Char.toLower)
  if word = "inf" ∨ word = "infinity" then some (1.0 / 0.0)
  else if word = "nan" then some (0.0 / 0.0)
  else readDecimal? text

/-- A floating point number. -/
def readFloat? (text : List Char) : Option Float :=
  let (negative, rest) := splitSign text
  (readMagnitude? rest).map fun value => if negative then -value else value

end Easel.Decimal
