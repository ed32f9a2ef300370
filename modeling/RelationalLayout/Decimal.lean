/-
Decimal numbers and the binary floating-point numbers they stand for.

Every finite floating-point number is some decimal exactly, and every decimal
has a nearest floating-point number. These are the two bridges on which the
reading and printing of numbers rests.
-/

namespace RelationalLayout

def powerOfTen (exponent : Nat) : Nat := Nat.pow 10 exponent

/-- The first whole number beyond an unsigned machine word. -/
def wordLimit : Nat := 18446744073709551616

def signedLimit : Nat := 9223372036854775808

/-- The number `digits * 10 ^ exponent`. -/
structure Decimal where
  digits : Nat
  exponent : Int
deriving DecidableEq, Inhabited

namespace Decimal

/-- The closest floating-point number; infinite beyond the largest finite one. -/
def nearest (decimal : Decimal) : Float :=
  Float.ofScientific decimal.digits (decimal.exponent < 0) decimal.exponent.natAbs

/-- The number `mantissa * 2 ^ exponent`. A negative power of two is that power
of five over the same power of ten. -/
def ofBinary (mantissa : Nat) (exponent : Int) : Decimal :=
  if exponent < 0 then
    { digits := mantissa * Nat.pow 5 (-exponent).toNat, exponent := exponent }
  else
    { digits := mantissa * Nat.pow 2 exponent.toNat, exponent := 0 }

def width (decimal : Decimal) : Nat := (Nat.toDigits 10 decimal.digits).length

def trim (decimal : Decimal) : Decimal :=
  if decimal.digits = 0 then
    { digits := 0, exponent := 0 }
  else if decimal.digits % 10 = 0 then
    trim { digits := decimal.digits / 10, exponent := decimal.exponent + 1 }
  else
    decimal
termination_by decimal.digits
decreasing_by omega

end Decimal

inductive Reading where
  | finite (negative : Bool) (magnitude : Decimal)
  | infinite (negative : Bool)
  | notANumber
deriving DecidableEq, Inhabited

namespace Reading

def isNegativeSign : Float.Model.UnpackedFloat.Sign → Bool
  | .positive => false
  | .negative => true

def exact (number : Float) : Reading :=
  match number.toModel.unpack with
  | .zero sign => .finite (isNegativeSign sign) { digits := 0, exponent := 0 }
  | .finite sign mantissa exponent _ =>
      .finite (isNegativeSign sign) (Decimal.ofBinary mantissa exponent)
  | .infinity sign => .infinite (isNegativeSign sign)
  | .notANumber => .notANumber

end Reading

end RelationalLayout
