/-
How floating-point numbers are rounded.

A quantity is rounded to a whole number of units in the last place, a half to the even
one. Shifting a mantissa keeps as much of the rest as rounding needs, so the result
depends on the quantity alone and not on the mantissa it was computed with.
-/

import Mathlib.Data.Int.Log
import Mathlib.Data.Rat.Floor
import Mathlib.Tactic.Linarith
import RelationalLayout.Proofs.Float.Packing

namespace RelationalLayout.Binary64

open Float.Model (UnpackedFloat Format totalExponent)
open Float.Model.UnpackedFloat (Sign Accuracy ExtendedMantissa)

/-! ### Mantissas and what they leave out -/

/-- The quantity is a mantissa, or as much more than it as the accuracy says. -/
inductive Extends (quantity : ℚ) (mantissa : ℕ) : Accuracy → Prop where
  | exact (same : quantity = mantissa) : Extends quantity mantissa .exact
  | below (more : mantissa < quantity) (less : quantity < mantissa + 1 / 2) :
      Extends quantity mantissa (.inexact .lt)
  | half (same : quantity = mantissa + 1 / 2) : Extends quantity mantissa (.inexact .eq)
  | above (more : mantissa + 1 / 2 < quantity) (less : quantity < mantissa + 1) :
      Extends quantity mantissa (.inexact .gt)

namespace Extends

variable {quantity : ℚ} {mantissa : ℕ} {accuracy : Accuracy}

theorem bounds (extended : Extends quantity mantissa accuracy) :
    mantissa ≤ quantity ∧ quantity < mantissa + 1 := by
  cases extended with
  | exact same => constructor <;> linarith
  | below more less => constructor <;> linarith
  | half same => constructor <;> linarith
  | above more less => constructor <;> linarith

theorem nonneg (extended : Extends quantity mantissa accuracy) : 0 ≤ quantity :=
  le_trans (Nat.cast_nonneg mantissa) extended.bounds.1

theorem floor_eq (extended : Extends quantity mantissa accuracy) : ⌊quantity⌋₊ = mantissa :=
  (Nat.floor_eq_iff extended.nonneg).mpr extended.bounds

theorem shiftRightOne_even {half : ℕ} {roundBit stickyBit : Bool}
    (extended : Extends quantity (2 * half)
      (ExtendedMantissa.accuracy ⟨2 * half, roundBit, stickyBit⟩)) :
    Extends (quantity / 2) half (ExtendedMantissa.accuracy ⟨half, false, roundBit || stickyBit⟩) := by
  cases roundBit with
  | false =>
      cases stickyBit with
      | false =>
          obtain ⟨same⟩ := extended
          push_cast at same
          exact .exact (by linarith)
      | true =>
          obtain _ | ⟨more, less⟩ := extended
          push_cast at more less
          exact .below (by linarith) (by linarith)
  | true =>
      cases stickyBit with
      | false =>
          obtain _ | _ | ⟨same⟩ := extended
          push_cast at same
          exact .below (by linarith) (by linarith)
      | true =>
          obtain _ | _ | _ | ⟨more, less⟩ := extended
          push_cast at more less
          exact .below (by linarith) (by linarith)

theorem shiftRightOne_odd {half : ℕ} {roundBit stickyBit : Bool}
    (extended : Extends quantity (2 * half + 1)
      (ExtendedMantissa.accuracy ⟨2 * half + 1, roundBit, stickyBit⟩)) :
    Extends (quantity / 2) half (ExtendedMantissa.accuracy ⟨half, true, roundBit || stickyBit⟩) := by
  cases roundBit with
  | false =>
      cases stickyBit with
      | false =>
          obtain ⟨same⟩ := extended
          push_cast at same
          exact .half (by linarith)
      | true =>
          obtain _ | ⟨more, less⟩ := extended
          push_cast at more less
          exact .above (by linarith) (by linarith)
  | true =>
      cases stickyBit with
      | false =>
          obtain _ | _ | ⟨same⟩ := extended
          push_cast at same
          exact .above (by linarith) (by linarith)
      | true =>
          obtain _ | _ | _ | ⟨more, less⟩ := extended
          push_cast at more less
          exact .above (by linarith) (by linarith)

theorem shiftRightOne {extension : ExtendedMantissa}
    (extended : Extends quantity extension.mantissa extension.accuracy) :
    Extends (quantity / 2) extension.shiftRightOne.mantissa extension.shiftRightOne.accuracy := by
  obtain ⟨mantissa, roundBit, stickyBit⟩ := extension
  unfold ExtendedMantissa.shiftRightOne
  rcases Nat.even_or_odd' mantissa with ⟨half, rfl | rfl⟩
  · rw [Nat.mul_mod_right, Nat.mul_div_cancel_left half (by decide)]
    exact shiftRightOne_even extended
  · have quotient : (2 * half + 1) / 2 = half := by omega
    have remainder : (2 * half + 1) % 2 = 1 := by omega
    rw [quotient, remainder]
    exact shiftRightOne_odd extended

theorem shiftRight {extension : ExtendedMantissa}
    (extended : Extends quantity extension.mantissa extension.accuracy) (count : ℕ) :
    Extends (quantity / 2 ^ count) (extension >>> count).mantissa
      (extension >>> count).accuracy := by
  induction count with
  | zero =>
      rw [pow_zero, div_one]
      exact extended
  | succ count ih =>
      rw [pow_succ, ← div_div]
      exact ih.shiftRightOne

end Extends

/-! ### Rounding to the nearest -/

/-- The nearest whole number, of two equally near ones the even one. -/
def nearestEven (quantity : ℚ) : ℕ :=
  let lower := ⌊quantity⌋₊
  if quantity < lower + 1 / 2 then
    lower
  else if quantity = lower + 1 / 2 then
    lower + lower % 2
  else
    lower + 1

theorem Extends.roundToNearestEven_eq {quantity : ℚ} {mantissa : ℕ} {accuracy : Accuracy}
    (extended : Extends quantity mantissa accuracy) :
    accuracy.roundToNearestEven mantissa = nearestEven quantity := by
  unfold nearestEven
  rw [extended.floor_eq]
  cases extended with
  | exact same =>
      rw [if_pos (by linarith)]
      rfl
  | below more less =>
      rw [if_pos less]
      rfl
  | half same =>
      rw [if_neg (by linarith), if_pos same]
      rfl
  | above more less =>
      rw [if_neg (by linarith), if_neg (by linarith)]
      rfl

/-! ### Units in the last place -/

/-- The exponent of the unit that a quantity is rounded to. -/
def unit (quantity : ℚ) : ℤ := max (Int.log 2 quantity - 52) (-1074)

theorem log_lt_iff {quantity : ℚ} (positive : 0 < quantity) {exponent : ℤ} :
    Int.log 2 quantity < exponent ↔ quantity < 2 ^ exponent :=
  (Int.lt_zpow_iff_log_lt (by decide) positive).symm

theorem le_log_iff {quantity : ℚ} (positive : 0 < quantity) {exponent : ℤ} :
    exponent ≤ Int.log 2 quantity ↔ 2 ^ exponent ≤ quantity :=
  (Int.zpow_le_iff_le_log (by decide) positive).symm

theorem two_zpow_pos (exponent : ℤ) : (0 : ℚ) < 2 ^ exponent := zpow_pos (by norm_num) exponent

theorem log_eq_of_extends {quantity : ℚ} {mantissa : ℕ} {exponent : ℤ} {accuracy : Accuracy}
    (extended : Extends (quantity / 2 ^ exponent) mantissa accuracy) (positive : 0 < quantity)
    (nonzero : mantissa ≠ 0) : Int.log 2 quantity = mantissa.log2 + exponent := by
  have scale := two_zpow_pos exponent
  obtain ⟨atLeast, below⟩ := extended.bounds
  rw [le_div_iff₀ scale] at atLeast
  rw [div_lt_iff₀ scale] at below
  have lower : (2 : ℚ) ^ ((mantissa.log2 : ℤ) + exponent) ≤ quantity := by
    rw [zpow_add₀ (by norm_num), zpow_natCast]
    refine le_trans (mul_le_mul_of_nonneg_right ?_ scale.le) atLeast
    exact_mod_cast Nat.log2_self_le nonzero
  have upper : quantity < (2 : ℚ) ^ ((mantissa.log2 : ℤ) + 1 + exponent) := by
    have next : (mantissa : ℚ) + 1 ≤ 2 ^ (mantissa.log2 + 1) := by
      exact_mod_cast Nat.lt_log2_self
    rw [zpow_add₀ (by norm_num), ← Nat.cast_succ, zpow_natCast]
    exact lt_of_lt_of_le below (mul_le_mul_of_nonneg_right next scale.le)
  have atLeastLog := (le_log_iff positive).mpr lower
  have belowLog := (log_lt_iff positive).mpr upper
  omega

theorem targetExponent_eq (total : ℤ) :
    Format.binary64.targetExponent total = max (total - 53) (-1074) := rfl

/-- The exponent that rounding shifts to is the unit of the quantity. -/
theorem targetExponent_of_extends {quantity : ℚ} {mantissa : ℕ} {exponent : ℤ}
    {accuracy : Accuracy} (extended : Extends (quantity / 2 ^ exponent) mantissa accuracy)
    (positive : 0 < quantity) (fine : exponent ≤ unit quantity) :
    Format.binary64.targetExponent (totalExponent mantissa exponent) = unit quantity := by
  rw [targetExponent_eq]
  unfold totalExponent
  unfold unit at *
  by_cases isZero : mantissa = 0
  · subst isZero
    have small : Int.log 2 quantity < exponent := by
      have below := extended.bounds.2
      rw [Nat.cast_zero, zero_add, div_lt_one (two_zpow_pos exponent)] at below
      exact (log_lt_iff positive).mpr below
    have log : ((0 : ℕ).log2 : ℤ) = 0 := by decide
    rw [log]
    omega
  · rw [log_eq_of_extends extended positive isZero]
    omega

/-! ### Rounding quantities -/

/-- The floating-point number nearest to a quantity that is not negative. -/
def rounded (sign : Sign) (quantity : ℚ) : UnpackedFloat :=
  let count := nearestEven (quantity / 2 ^ unit quantity)
  if positive : 0 < count then
    if count = 2 ^ 53 then .finite sign (2 ^ 52) (unit quantity + 1) (by decide)
    else .finite sign count (unit quantity) positive
  else
    .zero sign

theorem nearestEven_le {quantity : ℚ} {bound : ℕ} (nonneg : 0 ≤ quantity)
    (below : quantity < bound) : nearestEven quantity ≤ bound := by
  have floor : ⌊quantity⌋₊ < bound := (Nat.floor_lt nonneg).mpr below
  unfold nearestEven
  dsimp only
  split
  · omega
  · split <;> omega

theorem nearestEven_unit_le {quantity : ℚ} (positive : 0 < quantity) :
    nearestEven (quantity / 2 ^ unit quantity) ≤ 2 ^ 53 := by
  have scale := two_zpow_pos (unit quantity)
  refine nearestEven_le (div_nonneg positive.le scale.le) ?_
  have logBelow : Int.log 2 quantity < 53 + unit quantity := by
    unfold unit
    omega
  have below := (log_lt_iff positive).mp logBelow
  rw [zpow_add₀ (by norm_num)] at below
  rw [div_lt_iff₀ scale]
  exact_mod_cast below

theorem shift_rounded {count : ℕ} {exponent : ℤ} (atMost : count ≤ 2 ^ 53)
    (least : -1074 ≤ exponent) :
    UnpackedFloat.shiftToTargetExponent .binary64 count exponent .exact =
      if count = 2 ^ 53 then (⟨2 ^ 52, false, false⟩, exponent + 1)
      else (⟨count, false, false⟩, exponent) := by
  unfold UnpackedFloat.shiftToTargetExponent UnpackedFloat.shiftToExponent
  rw [targetExponent_eq]
  unfold totalExponent
  dsimp only
  split
  · rename_i full
    subst full
    have amount : (max (((2 ^ 53 : ℕ).log2 : ℤ) + 1 + exponent - 53) (-1074) - exponent).toNat = 1 := by
      rw [Nat.log2_two_pow]
      omega
    rw [amount]
    rfl
  · rename_i notFull
    have log : count.log2 ≤ 52 := by
      by_cases isZero : count = 0
      · subst isZero
        decide
      · have below := (Nat.log2_lt isZero).mpr (lt_of_le_of_ne atMost notFull)
        omega
    have amount : (max ((count.log2 : ℤ) + 1 + exponent - 53) (-1074) - exponent).toNat = 0 := by
      omega
    rw [amount, Nat.cast_zero, add_zero]
    rfl

theorem accuracy_ofMantissaAndAccuracy (mantissa : ℕ) (accuracy : Accuracy) :
    (ExtendedMantissa.ofMantissaAndAccuracy mantissa accuracy).mantissa = mantissa ∧
      (ExtendedMantissa.ofMantissaAndAccuracy mantissa accuracy).accuracy = accuracy := by
  cases accuracy with
  | exact => exact ⟨rfl, rfl⟩
  | inexact ordering => cases ordering <;> exact ⟨rfl, rfl⟩

/-- Rounding depends on the quantity only, if its mantissa has bits enough. -/
theorem roundWithAccuracy_eq {quantity : ℚ} {mantissa : ℕ} {exponent : ℤ} {accuracy : Accuracy}
    (sign : Sign) (extended : Extends (quantity / 2 ^ exponent) mantissa accuracy)
    (positive : 0 < quantity) (fine : exponent ≤ unit quantity) :
    UnpackedFloat.roundWithAccuracy .binary64 sign mantissa exponent accuracy =
      rounded sign quantity := by
  have target := targetExponent_of_extends extended positive fine
  have amount : exponent + (unit quantity - exponent).toNat = unit quantity := by omega
  have least : -1074 ≤ unit quantity := le_max_right _ _
  obtain ⟨sameMantissa, sameAccuracy⟩ := accuracy_ofMantissaAndAccuracy mantissa accuracy
  have start : Extends (quantity / 2 ^ exponent)
      (ExtendedMantissa.ofMantissaAndAccuracy mantissa accuracy).mantissa
      (ExtendedMantissa.ofMantissaAndAccuracy mantissa accuracy).accuracy := by
    rw [sameMantissa, sameAccuracy]
    exact extended
  have shifted := start.shiftRight (unit quantity - exponent).toNat
  rw [div_div, ← zpow_natCast, ← zpow_add₀ (by norm_num), amount] at shifted
  have count := shifted.roundToNearestEven_eq
  unfold UnpackedFloat.roundWithAccuracy
  rw [UnpackedFloat.shiftToTargetExponent, UnpackedFloat.shiftToExponent, target]
  dsimp only
  rw [ExtendedMantissa.roundedMantissa, count, amount,
    shift_rounded (nearestEven_unit_le positive) least]
  unfold rounded
  dsimp only
  generalize nearestEven (quantity / 2 ^ unit quantity) = rounded
  by_cases full : rounded = 2 ^ 53
  · subst full
    rfl
  · rw [if_neg full]
    by_cases isZero : rounded = 0
    · rw [dif_pos isZero, dif_neg (Nat.not_lt.mpr (Nat.le_of_eq isZero))]
    · rw [dif_neg isZero, dif_pos (Nat.pos_of_ne_zero isZero), if_neg full]

end RelationalLayout.Binary64
