/-
Which quantities are rounded to infinity.

The largest finite number has all its bits set, so a quantity halfway between it and
the power of two above is rounded up to that power, the even one of the two. From
there on no quantity has a finite number nearest to it.
-/

import RelationalLayout.Proofs.Float.Nearest

namespace RelationalLayout.Binary64

open Float.Model (UnpackedFloat Format)
open Float.Model.UnpackedFloat (Sign)

/-- The smallest quantity that is too large for a finite number. -/
def overflow : ℚ := 2 ^ 1024 - 2 ^ 970

/-! ### Powers of two around the overflow -/

theorem overflow_eq : overflow = (2 ^ 54 - 1) * 2 ^ 970 := by
  unfold overflow
  rw [sub_one_mul, ← pow_add]

theorem two_zpow_add (places : ℕ) : (2 : ℚ) ^ ((places + 970 : ℕ) : ℤ) = 2 ^ places * 2 ^ 970 := by
  rw [zpow_natCast, pow_add]

theorem lt_overflow : (2 : ℚ) ^ (1023 : ℤ) < overflow := by
  rw [overflow_eq]
  refine lt_of_eq_of_lt (two_zpow_add 53) ?_
  exact mul_lt_mul_of_pos_right (by norm_num) (by positivity)

theorem overflow_lt : overflow < (2 : ℚ) ^ (1024 : ℤ) := by
  rw [overflow_eq]
  refine lt_of_lt_of_eq ?_ (two_zpow_add 54).symm
  exact mul_lt_mul_of_pos_right (by norm_num) (by positivity)

theorem mul_eq_overflow : ((2 ^ 53 - 1 : ℕ) + 1 / 2 : ℚ) * 2 ^ (971 : ℤ) = overflow := by
  have unit : (2 : ℚ) ^ (971 : ℤ) = 2 ^ 1 * 2 ^ 970 := two_zpow_add 1
  rw [overflow_eq, unit, ← mul_assoc]
  norm_num

/-! ### Packing -/

theorem isFinite_ofComponents {sign : Sign} {exponent : BitVec 11} {mantissa : BitVec 52}
    (notLast : exponent ≠ -1#11) : (ofComponents sign exponent mantissa).isFinite = true := by
  unfold ofComponents
  rw [if_neg notLast]
  by_cases first : exponent = 0#11
  · rw [if_pos first]
    by_cases positive : 0 < mantissa.toNat
    · rw [dif_pos positive]
      rfl
    · rw [dif_neg positive]
      rfl
  · rw [if_neg first]
    rfl

theorem isFinite_pack_finite {sign : Sign} {mantissa : ℕ} {exponent : ℤ} {positive : 0 < mantissa} :
    (unpack (pack (.finite sign mantissa exponent positive))).isFinite = true ↔ exponent ≤ 971 := by
  constructor
  · intro finite
    by_contra beyond
    have infinite : (unpack (pack (.infinity sign))).isFinite = false := by
      cases sign <;> rfl
    rw [pack_finite_of_le (by omega), infinite] at finite
    cases finite
  · intro most
    have bias : (Format.binary64.exponentBias : ℤ) = 1023 := rfl
    unfold pack UnpackedFloat.pack
    dsimp only
    rw [bias]
    split
    · rename_i full
      change 2047 < (exponent + 1023 + (52 : ℕ)).toNat + 1 at full
      omega
    · split
      · rw [unpack_packComponents]
        apply isFinite_ofComponents
        intro last
        have top := congrArg BitVec.toNat last
        rw [BitVec.toNat_ofNat, Nat.mod_eq_of_lt (by omega)] at top
        change _ = 2047 at top
        omega
      · rw [unpack_packComponents]
        exact isFinite_ofComponents (by decide)

/-! ### Rounding -/

/-- Halfway to the next whole number is the next one already when that is even. -/
theorem nearestEven_le_iff_of_odd {quantity : ℚ} {bound : ℕ} (nonneg : 0 ≤ quantity)
    (odd : bound % 2 = 1) : nearestEven quantity ≤ bound ↔ quantity < bound + 1 / 2 := by
  have atLeast := Nat.floor_le nonneg
  have below := Nat.lt_floor_add_one quantity
  unfold nearestEven
  dsimp only
  generalize ⌊quantity⌋₊ = lower at *
  -- The floor is a whole number, so it is compared with the bound in whole steps.
  have smaller : lower < bound → (lower : ℚ) + 1 ≤ bound := fun less => by exact_mod_cast less
  have larger : bound < lower → (bound : ℚ) + 1 ≤ lower := fun more => by exact_mod_cast more
  rcases lt_trichotomy lower bound with less | rfl | more
  · have least := smaller less
    refine iff_of_true ?_ (by linarith)
    split
    · omega
    · split <;> omega
  · split
    · rename_i close
      exact iff_of_true le_rfl close
    · rename_i far
      refine iff_of_false ?_ far
      split <;> omega
  · have least := larger more
    refine iff_of_false ?_ (by linarith)
    split
    · omega
    · split <;> omega

/-- Rounding leaves the finite numbers when a mantissa beyond the largest exponent is needed, or
the one of the largest exponent is filled up. -/
theorem isFinite_rounded_iff {sign : Sign} {quantity : ℚ} :
    (unpack (pack (rounded sign quantity))).isFinite = true ↔
      (0 < nearestEven (quantity / 2 ^ unit quantity) → unit quantity ≤ 970 ∨
        unit quantity = 971 ∧ nearestEven (quantity / 2 ^ unit quantity) ≠ 2 ^ 53) := by
  unfold rounded
  dsimp only
  generalize nearestEven (quantity / 2 ^ unit quantity) = count
  by_cases some : 0 < count
  · rw [dif_pos some]
    by_cases full : count = 2 ^ 53
    · rw [if_pos full, isFinite_pack_finite]
      omega
    · rw [if_neg full, isFinite_pack_finite]
      omega
  · rw [dif_neg some]
    refine iff_of_true ?_ (fun positive => absurd positive some)
    cases sign <;> rfl

theorem isFinite_nearestTo_iff {quantity : ℚ} (nonneg : 0 ≤ quantity) :
    (nearestTo quantity).isFinite = true ↔ quantity < overflow := by
  have unpacked : (nearestTo quantity).isFinite =
      (unpack (pack (rounded .positive quantity))).isFinite := rfl
  rw [unpacked]
  rcases nonneg.eq_or_lt with rfl | positive
  · rw [rounded_zero]
    exact iff_of_true rfl (lt_trans (two_zpow_pos 1023) lt_overflow)
  · by_cases small : quantity < 2 ^ (1023 : ℤ)
    · have most := (log_lt_iff positive).mpr small
      have place : unit quantity ≤ 970 := by
        unfold unit
        omega
      refine iff_of_true ?_ (lt_trans small lt_overflow)
      exact isFinite_rounded_iff.mpr (fun _ => Or.inl place)
    · by_cases large : 2 ^ (1024 : ℤ) ≤ quantity
      · rw [pack_rounded_of_le large]
        exact iff_of_false Bool.false_ne_true (not_lt.mpr (le_trans overflow_lt.le large))
      · -- The largest exponent: what decides is whether the mantissa is filled up.
        have least := (le_log_iff positive).mpr (not_lt.mp small)
        have most := (log_lt_iff positive).mpr (not_le.mp large)
        have place : unit quantity = 971 := by
          unfold unit
          omega
        have scale := two_zpow_pos 971
        have fits : nearestEven (quantity / 2 ^ (971 : ℤ)) ≤ 2 ^ 53 - 1 ↔ quantity < overflow := by
          rw [nearestEven_le_iff_of_odd (div_nonneg nonneg scale.le) (by decide),
            div_lt_iff₀ scale, mul_eq_overflow]
        have counts := nearestEven_unit_le positive
        rw [isFinite_rounded_iff, ← fits]
        rw [place] at counts ⊢
        omega

end RelationalLayout.Binary64

namespace RelationalLayout

theorem Decimal.rational_nonneg (decimal : Decimal) : 0 ≤ decimal.rational :=
  mul_nonneg (Nat.cast_nonneg _) (Binary64.ten_zpow_pos _).le

/-- A decimal is read as a finite number exactly when it is below the overflow. -/
theorem Decimal.isFinite_nearest_iff (decimal : Decimal) :
    decimal.nearest.isFinite = true ↔ decimal.rational < Binary64.overflow := by
  rw [nearest_eq, Binary64.isFinite_nearestTo_iff decimal.rational_nonneg]

theorem isInf_eq_false_of_isFinite {number : Float} (finite : number.isFinite = true) :
    number.isInf = false := by
  have isFinite : (Binary64.parts number).isFinite = true := finite
  change (Binary64.parts number).isInf = false
  cases shown : Binary64.parts number with
  | infinity sign =>
      rw [shown] at isFinite
      cases isFinite
  | _ => rfl

theorem isFinite_neg (number : Float) : (-number).isFinite = number.isFinite := by
  change (Binary64.parts (-number)).isFinite = (Binary64.parts number).isFinite
  rw [Binary64.parts_neg]
  cases Binary64.parts number <;> rfl

end RelationalLayout
