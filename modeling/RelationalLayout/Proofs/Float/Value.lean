/-
What floating-point numbers are worth.

A finite number is worth the decimal it equals. The opposite of a number is worth the
opposite, so constraints on floating-point numbers can be read in exact ones.
-/

import Mathlib.Data.Rat.Defs
import Mathlib.Algebra.Order.Field.Rat
import RelationalLayout.Decimal
import RelationalLayout.Proofs.Constraint
import RelationalLayout.Proofs.Float.Opposite

namespace RelationalLayout

open Float.Model (UnpackedFloat)

/-! ### Readings -/

def Decimal.rational (decimal : Decimal) : ℚ := decimal.digits * 10 ^ decimal.exponent

namespace Reading

/-- The number that is read, zero if none is. -/
def rational : Reading → ℚ
  | .finite negative magnitude => if negative then -magnitude.rational else magnitude.rational
  | .infinite _ => 0
  | .notANumber => 0

def opposite : Reading → Reading
  | .finite negative magnitude => .finite (!negative) magnitude
  | .infinite negative => .infinite (!negative)
  | .notANumber => .notANumber

theorem rational_opposite (reading : Reading) : reading.opposite.rational = -reading.rational := by
  cases reading with
  | finite negative magnitude =>
      cases negative with
      | false => rfl
      | true => exact (neg_neg magnitude.rational).symm
  | infinite negative => exact neg_zero.symm
  | notANumber => exact neg_zero.symm

theorem isNegativeSign_neg (sign : UnpackedFloat.Sign) :
    isNegativeSign (-sign) = !isNegativeSign sign := by
  cases sign <;> rfl

theorem exact_neg (number : Float) : exact (-number) = (exact number).opposite := by
  have parts := Binary64.parts_neg number
  unfold Binary64.parts at parts
  rw [exact, exact, parts]
  cases number.toModel.unpack with
  | notANumber => rfl
  | infinity sign => exact congrArg Reading.infinite (isNegativeSign_neg sign)
  | zero sign | finite sign =>
      exact congrArg (fun negative => Reading.finite negative _) (isNegativeSign_neg sign)

end Reading

/-! ### Values -/

def exactValue (number : Float) : ℚ := (Reading.exact number).rational

theorem exactValue_neg (number : Float) : exactValue (-number) = -exactValue number := by
  rw [exactValue, Reading.exact_neg, Reading.rational_opposite, exactValue]

theorem reads_exactValue : Reads exactValue where
  zero := by decide +kernel
  neg := exactValue_neg

end RelationalLayout
