/-
The written forms of numbers.

Program text, messages and settings use the plain form: shortest digits, no
exponent, nothing after a whole number. JSON keeps a point in whole numbers and
turns to an exponent for very small and very large ones. Tables use a fixed
number of places, and scores a fixed number of significant digits; both round
exactly, a half to the even neighbour.
-/

import RelationalLayout.Decimal.Shortest

namespace RelationalLayout

namespace Decimal

def digitText (number : Nat) : List Char := Nat.toDigits 10 number

def zeros (count : Nat) : List Char := List.replicate count '0'

/-- Digits with the point `places` places from their end. -/
def pointText (digits : List Char) (places : Nat) : List Char :=
  if places = 0 then
    digits
  else if places < digits.length then
    digits.take (digits.length - places) ++ '.' :: digits.drop (digits.length - places)
  else
    '0' :: '.' :: (zeros (places - digits.length) ++ digits)

/-- The plain form: never an exponent, no point in a whole number. -/
def plainText (decimal : Decimal) : List Char :=
  if decimal.exponent < 0 then
    pointText (digitText decimal.digits) (-decimal.exponent).toNat
  else if decimal.digits = 0 then
    ['0']
  else
    digitText decimal.digits ++ zeros decimal.exponent.toNat

def integerText (number : Int) : List Char :=
  if number < 0 then '-' :: digitText number.natAbs else digitText number.natAbs

def signedText (number : Int) : List Char :=
  if number < 0 then integerText number else '+' :: integerText number

def leadExponent (decimal : Decimal) : Int := decimal.exponent + decimal.width - 1

def jsonText (decimal : Decimal) : List Char :=
  if decimal.digits = 0 then
    "0.0".toList
  else if decimal.leadExponent < -5 ∨ 16 ≤ decimal.leadExponent then
    let digits := digitText decimal.digits
    pointText digits (digits.length - 1) ++ 'e' :: signedText decimal.leadExponent
  else if decimal.exponent < 0 then
    decimal.plainText
  else
    decimal.plainText ++ ".0".toList

/-- The quotient rounded to the nearest whole number, a half to the even one. -/
def roundedQuotient (numerator denominator : Nat) : Nat :=
  let lower := numerator / denominator
  let past := 2 * (numerator % denominator)
  if denominator < past ∨ denominator = past ∧ lower % 2 = 1 then lower + 1 else lower

def roundedUnits (decimal : Decimal) (exponent : Int) : Nat :=
  if decimal.exponent < exponent then
    roundedQuotient decimal.digits (powerOfTen (exponent - decimal.exponent).toNat)
  else
    decimal.digits * powerOfTen (decimal.exponent - exponent).toNat

def fixedText (places : Nat) (decimal : Decimal) : List Char :=
  pointText (digitText (decimal.roundedUnits (-places))) places

def scientificText (places : Nat) (decimal : Decimal) : List Char :=
  let lead := decimal.leadExponent
  let units := decimal.roundedUnits (lead - places)
  let (units, lead) :=
    if units = powerOfTen (places + 1) then (units / 10, lead + 1) else (units, lead)
  pointText (digitText units) places ++ 'e' :: integerText lead

end Decimal

namespace Reading

def text (form : Decimal → List Char) : Reading → String
  | .finite negative magnitude =>
      String.ofList (if negative then '-' :: form magnitude else form magnitude)
  | .infinite negative => if negative then "-inf" else "inf"
  | .notANumber => "NaN"

end Reading

def plainNumber (number : Float) : String :=
  (Reading.shortest .upward number).text Decimal.plainText

def fixedNumber (places : Nat) (number : Float) : String :=
  (Reading.exact number).text (Decimal.fixedText places)

def scientificNumber (places : Nat) (number : Float) : String :=
  (Reading.exact number).text (Decimal.scientificText places)

end RelationalLayout
