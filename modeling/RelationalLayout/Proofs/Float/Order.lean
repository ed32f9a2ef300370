/-
The order of floating-point numbers.

Numbers are compared by their kind, from negative infinity up to positive infinity, then
by their exponents and by their mantissas. What is not a number is not compared.
-/

import Mathlib.Algebra.Order.Group.Int
import Mathlib.Data.Prod.Lex
import Mathlib.Order.Compare
import RelationalLayout.Proofs.Float.Opposite

namespace RelationalLayout.Binary64

open Float.Model (UnpackedFloat)
open Float.Model.UnpackedFloat (Sign)

/-- Numbers are compared by their kind, then by their exponent and then by their mantissa. -/
def rank : UnpackedFloat → Option (ℤ ×ₗ ℤ ×ₗ ℤ)
  | .notANumber => none
  | .infinity .negative => some (toLex (-2, toLex (0, 0)))
  | .finite .negative mantissa exponent _ => some (toLex (-1, toLex (-exponent, -mantissa)))
  | .zero _ => some (toLex (0, toLex (0, 0)))
  | .finite .positive mantissa exponent _ => some (toLex (1, toLex (exponent, mantissa)))
  | .infinity .positive => some (toLex (2, toLex (0, 0)))

theorem compare_same_kind (kind exponent other mantissa otherMantissa : ℤ) :
    compare (toLex (kind, toLex (exponent, mantissa)) : ℤ ×ₗ ℤ ×ₗ ℤ)
        (toLex (kind, toLex (other, otherMantissa))) =
      (compare exponent other).then (compare mantissa otherMantissa) := by
  simp only [Prod.Lex.compare_def, compareLex, compareOn, ofLex_toLex, Std.compare_self,
    Ordering.then]

theorem compare_neg_neg (left right : ℤ) : compare (-left) (-right) = (compare left right).swap := by
  rcases lt_trichotomy left right with below | rfl | above
  · rw [compare_lt_iff_lt.mpr below]
    exact compare_gt_iff_gt.mpr (Int.neg_lt_neg below)
  · rw [Std.compare_self, Std.compare_self]
    rfl
  · rw [compare_gt_iff_gt.mpr above]
    exact compare_lt_iff_lt.mpr (Int.neg_lt_neg above)

theorem compare_natCast (left right : ℕ) : compare (left : ℤ) (right : ℤ) = compare left right := by
  rcases lt_trichotomy left right with below | rfl | above
  · rw [compare_lt_iff_lt.mpr below, compare_lt_iff_lt.mpr (Int.ofNat_lt.mpr below)]
  · rw [Std.compare_self, Std.compare_self]
  · rw [compare_gt_iff_gt.mpr above, compare_gt_iff_gt.mpr (Int.ofNat_lt.mpr above)]

theorem compare_eq (first second : UnpackedFloat) :
    first.compare second =
      (rank first).bind fun left => (rank second).map fun right => compare left right := by
  cases first with
  | notANumber => rfl
  | infinity sign =>
      cases sign <;> cases second with
      | notANumber | zero => rfl
      | infinity other => cases other <;> rfl
      | finite other => cases other <;> rfl
  | zero sign =>
      cases second with
      | notANumber | zero => rfl
      | infinity other => cases other <;> rfl
      | finite other => cases other <;> rfl
  | finite sign mantissa exponent positive =>
      cases sign with
      | negative =>
          cases second with
          | notANumber | zero => rfl
          | infinity other => cases other <;> rfl
          | finite other otherMantissa otherExponent =>
              cases other with
              | positive => rfl
              | negative =>
                  unfold UnpackedFloat.compare rank
                  dsimp only [Option.bind_some, Option.map_some]
                  rw [compare_same_kind, compare_neg_neg, compare_neg_neg, compare_natCast,
                    Ordering.swap_then]
      | positive =>
          cases second with
          | notANumber | zero => rfl
          | infinity other => cases other <;> rfl
          | finite other otherMantissa otherExponent =>
              cases other with
              | negative => rfl
              | positive =>
                  unfold UnpackedFloat.compare rank
                  dsimp only [Option.bind_some, Option.map_some]
                  rw [compare_same_kind, compare_natCast]

theorem le_iff {first second : UnpackedFloat} :
    first.le second = true ↔
      ∃ left right, rank first = some left ∧ rank second = some right ∧ left ≤ right := by
  rw [UnpackedFloat.le, compare_eq]
  cases rank first with
  | none => simp only [Option.bind_none, Option.any_none, reduceCtorEq, false_and, exists_false]
  | some left =>
      cases rank second with
      | none =>
          simp only [Option.bind_some, Option.map_none, Option.any_none, reduceCtorEq, false_and,
            and_false, exists_false]
      | some right =>
          simp only [Option.bind_some, Option.map_some, Option.any_some, Option.some.injEq,
            exists_and_left, exists_eq_left', Ordering.isLE_iff_ne_gt, compare_le_iff_le]

theorem lt_iff {first second : UnpackedFloat} :
    first.lt second = true ↔
      ∃ left right, rank first = some left ∧ rank second = some right ∧ left < right := by
  rw [UnpackedFloat.lt, compare_eq, beq_iff_eq]
  cases rank first with
  | none => simp only [Option.bind_none, reduceCtorEq, false_and, exists_false]
  | some left =>
      cases rank second with
      | none =>
          simp only [Option.bind_some, Option.map_none, reduceCtorEq, false_and, and_false,
            exists_false]
      | some right =>
          simp only [Option.bind_some, Option.map_some, Option.some.injEq, exists_and_left,
            exists_eq_left', compare_lt_iff_lt]

end RelationalLayout.Binary64

namespace RelationalLayout

theorem float_lt_of_le_of_lt {lower middle upper : Float} (below : lower ≤ middle)
    (above : middle < upper) : lower < upper := by
  obtain ⟨first, second, isFirst, isSecond, atMost⟩ := Binary64.le_iff.mp (of_decide_eq_true below)
  obtain ⟨_, third, isSecondToo, isThird, less⟩ := Binary64.lt_iff.mp (of_decide_eq_true above)
  cases isSecond.symm.trans isSecondToo
  exact decide_eq_true
    (Binary64.lt_iff.mpr ⟨first, third, isFirst, isThird, lt_of_le_of_lt atMost less⟩)

end RelationalLayout
