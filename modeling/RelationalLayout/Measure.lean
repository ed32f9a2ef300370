/-
Numbers that places are measured in.

They are scalars that stand for numbers as they are written, and are written
themselves. What is negligible in them is taken for zero: in floating-point numbers
that is what rounding leaves of a difference of equal numbers, and in exact ones
nothing but zero need be.
-/

import RelationalLayout.Decimal.Text
import RelationalLayout.Scalar

namespace RelationalLayout

class Measure (α : Type) extends Scalar α where
  ofFloat : Float → α
  text : α → String
  atMost : α → α → Bool
  isNegligible : α → Bool

namespace Measure

variable {α : Type} [Measure α]

/-- Not infinite, unless downwards. -/
def isBounded (value : α) : Bool := Scalar.isNegative value || isNegligible (value - value)

/-- Whether each value is at most the other. What is not a number is not the same as itself. -/
def isSame (left right : α) : Bool := atMost left right && atMost right left

def isZero (value : α) : Bool := isSame value Scalar.zero

end Measure

instance : Measure Float where
  ofFloat value := value
  text := plainNumber
  atMost left right := decide (left ≤ right)
  isNegligible value := decide (value.abs < 1e-8)

end RelationalLayout
