/-
The floating-point number nearest to a decimal.

Products and quotients of finite numbers are rounded once, so a decimal is read as
the number nearest to it, whatever digits it is written with.
-/

import RelationalLayout.Proofs.Float.Rounding
import RelationalLayout.Proofs.Float.Value

namespace RelationalLayout.Binary64

open Float.Model (UnpackedFloat Format totalExponent)
open Float.Model.UnpackedFloat (Sign Accuracy)

/-! ### Quantities that are rounded to themselves, to zero and to infinity -/

theorem extends_of_natCast (mantissa : ℕ) : Extends (mantissa : ℚ) mantissa .exact := .exact rfl

theorem unit_of_isCanonical {sign : Sign} {mantissa : ℕ} {exponent : ℤ} {positive : 0 < mantissa}
    (canonical : IsCanonical (.finite sign mantissa exponent positive)) :
    unit (mantissa * 2 ^ exponent) = exponent := by
  obtain ⟨below, least, _, place⟩ := canonical
  have nonzero := Nat.pos_iff_ne_zero.mp positive
  have scale := two_zpow_pos exponent
  have exact : Extends (mantissa * 2 ^ exponent / 2 ^ exponent) mantissa .exact :=
    .exact (mul_div_cancel_right₀ _ scale.ne')
  have log := log_eq_of_extends exact (mul_pos (Nat.cast_pos.mpr positive) scale) nonzero
  unfold unit
  rw [log]
  have upper := (Nat.log2_lt nonzero).mpr below
  rcases place with normal | lowest
  · have lower := (Nat.le_log2 nonzero).mpr normal
    omega
  · omega

theorem rounded_of_isCanonical {sign : Sign} {mantissa : ℕ} {exponent : ℤ}
    {positive : 0 < mantissa} (canonical : IsCanonical (.finite sign mantissa exponent positive)) :
    rounded sign (mantissa * 2 ^ exponent) = .finite sign mantissa exponent positive := by
  have count : nearestEven (mantissa * 2 ^ exponent / 2 ^ exponent) = mantissa := by
    rw [mul_div_cancel_right₀ _ (two_zpow_pos exponent).ne']
    exact (extends_of_natCast mantissa).roundToNearestEven_eq.symm
  have notFull : mantissa ≠ 2 ^ 53 := Nat.ne_of_lt canonical.1
  unfold rounded
  rw [unit_of_isCanonical canonical, count, dif_pos positive, if_neg notFull]

theorem rounded_zero (sign : Sign) : rounded sign 0 = .zero sign := by
  have count : nearestEven (0 / 2 ^ unit 0) = 0 := by
    rw [zero_div, ← Nat.cast_zero]
    exact (extends_of_natCast 0).roundToNearestEven_eq.symm
  unfold rounded
  rw [count]
  rfl

theorem rounded_of_lt {sign : Sign} {quantity : ℚ} (positive : 0 < quantity)
    (small : quantity < 2 ^ (-1075 : ℤ)) : rounded sign quantity = .zero sign := by
  have log := (log_lt_iff positive).mpr small
  have lowest : unit quantity = -1074 := by
    unfold unit
    omega
  have belowHalf : quantity / 2 ^ (-1074 : ℤ) < 1 / 2 := by
    rw [div_lt_iff₀ (two_zpow_pos _)]
    refine lt_of_lt_of_eq small ?_
    rw [show (-1074 : ℤ) = -1075 + 1 by rfl, zpow_add_one₀ (by norm_num)]
    ring
  have extended : Extends (quantity / 2 ^ (-1074 : ℤ)) 0 (.inexact .lt) := by
    refine .below ?_ ?_
    · rw [Nat.cast_zero]
      exact div_pos positive (two_zpow_pos _)
    · rw [Nat.cast_zero, zero_add]
      exact belowHalf
  have count := extended.roundToNearestEven_eq.symm
  unfold rounded
  rw [lowest, count]
  rfl

theorem floor_le_nearestEven (quantity : ℚ) : ⌊quantity⌋₊ ≤ nearestEven quantity := by
  unfold nearestEven
  dsimp only
  split
  · exact Nat.le_refl _
  · split <;> omega

theorem pack_finite_of_le {sign : Sign} {mantissa : ℕ} {exponent : ℤ} {positive : 0 < mantissa}
    (beyond : 972 ≤ exponent) :
    pack (.finite sign mantissa exponent positive) = pack (.infinity sign) := by
  have biased : 2047 ≤ (exponent + (Format.binary64.exponentBias : ℕ) + (52 : ℕ)).toNat := by
    change 2047 ≤ (exponent + (1023 : ℕ) + (52 : ℕ)).toNat
    omega
  unfold pack UnpackedFloat.pack
  dsimp only
  rw [if_pos]
  exact Nat.succ_le_succ biased

theorem pack_rounded_of_le {sign : Sign} {quantity : ℚ} (large : 2 ^ (1024 : ℤ) ≤ quantity) :
    pack (rounded sign quantity) = pack (.infinity sign) := by
  have positive : 0 < quantity := lt_of_lt_of_le (two_zpow_pos 1024) large
  have log := (le_log_iff positive).mpr large
  have high : 972 ≤ unit quantity := by
    unfold unit
    omega
  have nonzero : 0 < nearestEven (quantity / 2 ^ unit quantity) := by
    have scale := two_zpow_pos (unit quantity)
    have unitBelow : unit quantity ≤ Int.log 2 quantity := by
      unfold unit
      omega
    have one : 1 ≤ quantity / 2 ^ unit quantity := by
      rw [one_le_div scale]
      exact (le_log_iff positive).mp unitBelow
    exact Nat.lt_of_lt_of_le (Nat.floor_pos.mpr one) (floor_le_nearestEven _)
  unfold rounded
  dsimp only
  rw [dif_pos nonzero]
  by_cases full : nearestEven (quantity / 2 ^ unit quantity) = 2 ^ 53
  · rw [if_pos full]
    exact pack_finite_of_le (by omega)
  · rw [if_neg full]
    exact pack_finite_of_le high

/-! ### Products and quotients -/

theorem mul_finite {first second : ℕ} {firstExponent secondExponent : ℤ} {firstSign secondSign : Sign}
    {firstPositive : 0 < first} {secondPositive : 0 < second} (long : 2 ^ 52 ≤ first * second) :
    UnpackedFloat.mul .binary64 (.finite firstSign first firstExponent firstPositive)
        (.finite secondSign second secondExponent secondPositive) =
      rounded (firstSign * secondSign)
        ((first * 2 ^ firstExponent) * (second * 2 ^ secondExponent)) := by
  have quantity : (first * 2 ^ firstExponent : ℚ) * (second * 2 ^ secondExponent) =
      (first * second : ℕ) * 2 ^ (firstExponent + secondExponent) := by
    rw [zpow_add₀ (by norm_num), Nat.cast_mul]
    ring
  have scale := two_zpow_pos (firstExponent + secondExponent)
  have product := Nat.mul_pos firstPositive secondPositive
  have positive : (0 : ℚ) < (first * second : ℕ) * 2 ^ (firstExponent + secondExponent) :=
    mul_pos (Nat.cast_pos.mpr product) scale
  have extended : Extends ((first * second : ℕ) * 2 ^ (firstExponent + secondExponent) /
      2 ^ (firstExponent + secondExponent)) (first * second) .exact :=
    .exact (mul_div_cancel_right₀ _ scale.ne')
  rw [quantity]
  refine roundWithAccuracy_eq _ extended positive ?_
  have log := log_eq_of_extends extended positive (Nat.pos_iff_ne_zero.mp product)
  have width := (Nat.le_log2 (Nat.pos_iff_ne_zero.mp product)).mpr long
  unfold unit
  omega

/-- What is left of a division says where the quotient lies. -/
theorem extends_div (numerator : ℕ) {divisor : ℕ} (positive : 0 < divisor) :
    Extends ((numerator : ℚ) / divisor) (numerator / divisor)
      (UnpackedFloat.accuracyOfFraction (numerator % divisor) divisor) := by
  have divisorPositive : (0 : ℚ) < divisor := Nat.cast_pos.mpr positive
  have parts : (numerator : ℚ) = divisor * (numerator / divisor : ℕ) + (numerator % divisor : ℕ) := by
    exact_mod_cast (Nat.div_add_mod numerator divisor).symm
  have remainderBelow : ((numerator % divisor : ℕ) : ℚ) < divisor := by
    exact_mod_cast Nat.mod_lt numerator positive
  have quotient : (numerator : ℚ) / divisor =
      (numerator / divisor : ℕ) + (numerator % divisor : ℕ) / divisor := by
    rw [parts]
    field_simp
  rw [quotient]
  generalize numerator % divisor = remainder at *
  unfold UnpackedFloat.accuracyOfFraction
  split
  · rename_i isZero
    refine .exact ?_
    rw [isZero, Nat.cast_zero, zero_div, add_zero]
  · rename_i nonzero
    have some : (0 : ℚ) < remainder / divisor :=
      div_pos (Nat.cast_pos.mpr (Nat.pos_of_ne_zero nonzero)) divisorPositive
    have less : (remainder : ℚ) / divisor < 1 := (div_lt_one divisorPositive).mpr remainderBelow
    rcases lt_trichotomy (2 * remainder) divisor with below | half | above
    · rw [compare_lt_iff_lt.mpr below]
      have belowHalf : (remainder : ℚ) / divisor < 1 / 2 := by
        rw [div_lt_div_iff₀ divisorPositive (by norm_num)]
        have cast : ((2 * remainder : ℕ) : ℚ) < divisor := Nat.cast_lt.mpr below
        push_cast at cast
        linarith
      exact .below (by linarith) (by linarith)
    · rw [compare_eq_iff_eq.mpr half]
      have isHalf : (remainder : ℚ) / divisor = 1 / 2 := by
        rw [div_eq_div_iff divisorPositive.ne' (by norm_num), ← half]
        push_cast
        ring
      exact .half (by rw [isHalf])
    · rw [compare_gt_iff_gt.mpr above]
      have aboveHalf : 1 / 2 < (remainder : ℚ) / divisor := by
        rw [div_lt_div_iff₀ (by norm_num) divisorPositive]
        have cast : (divisor : ℚ) < ((2 * remainder : ℕ) : ℚ) := Nat.cast_lt.mpr above
        push_cast at cast
        linarith
      exact .above (by linarith) (by linarith)

theorem log_div {first second : ℕ} (firstPositive : 0 < first) (secondPositive : 0 < second)
    (firstExponent secondExponent : ℤ) :
    (first.log2 : ℤ) + firstExponent - (second.log2 + 1 + secondExponent) ≤
      Int.log 2 ((first * 2 ^ firstExponent : ℚ) / (second * 2 ^ secondExponent)) := by
  have firstScale := two_zpow_pos firstExponent
  have secondScale := two_zpow_pos secondExponent
  have firstCast : (0 : ℚ) < first := Nat.cast_pos.mpr firstPositive
  have secondCast : (0 : ℚ) < second := Nat.cast_pos.mpr secondPositive
  have lower : (2 : ℚ) ^ ((first.log2 : ℤ) + firstExponent) ≤ first * 2 ^ firstExponent := by
    rw [zpow_add₀ (by norm_num), zpow_natCast]
    refine mul_le_mul_of_nonneg_right ?_ firstScale.le
    exact_mod_cast Nat.log2_self_le (Nat.pos_iff_ne_zero.mp firstPositive)
  have upper : (second : ℚ) * 2 ^ secondExponent ≤
      2 ^ ((second.log2 : ℤ) + 1 + secondExponent) := by
    rw [zpow_add₀ (by norm_num), ← Nat.cast_succ, zpow_natCast]
    refine mul_le_mul_of_nonneg_right ?_ secondScale.le
    exact_mod_cast Nat.lt_log2_self.le
  rw [le_log_iff (div_pos (mul_pos firstCast firstScale) (mul_pos secondCast secondScale)),
    zpow_sub₀ (by norm_num)]
  exact div_le_div₀ (mul_pos firstCast firstScale).le lower (mul_pos secondCast secondScale) upper

theorem div_finite {first second : ℕ} {firstExponent secondExponent : ℤ} {firstSign secondSign : Sign}
    {firstPositive : 0 < first} {secondPositive : 0 < second} :
    UnpackedFloat.div .binary64 (.finite firstSign first firstExponent firstPositive)
        (.finite secondSign second secondExponent secondPositive) =
      rounded (firstSign / secondSign)
        ((first * 2 ^ firstExponent) / (second * 2 ^ secondExponent)) := by
  have firstCast : (0 : ℚ) < first := Nat.cast_pos.mpr firstPositive
  have secondCast : (0 : ℚ) < second := Nat.cast_pos.mpr secondPositive
  have positive : (0 : ℚ) < (first * 2 ^ firstExponent) / (second * 2 ^ secondExponent) :=
    div_pos (mul_pos firstCast (two_zpow_pos _)) (mul_pos secondCast (two_zpow_pos _))
  have log := log_div firstPositive secondPositive firstExponent secondExponent
  unfold UnpackedFloat.div UnpackedFloat.divCore
  dsimp only
  generalize chosen : min (firstExponent - secondExponent) (Format.binary64.targetExponent
    (totalExponent first firstExponent - totalExponent second secondExponent)) = exponent
  rw [targetExponent_eq] at chosen
  unfold totalExponent at chosen
  have fine : exponent ≤ unit ((first * 2 ^ firstExponent) / (second * 2 ^ secondExponent)) := by
    unfold unit
    omega
  generalize amount : (firstExponent - secondExponent - exponent).toNat = count
  have shift : firstExponent = count + (secondExponent + exponent) := by omega
  have quotient : (first * 2 ^ firstExponent : ℚ) / (second * 2 ^ secondExponent) / 2 ^ exponent =
      ((first <<< count : ℕ) : ℚ) / second := by
    have scale := two_zpow_pos (secondExponent + exponent)
    rw [div_div, mul_assoc, ← zpow_add₀ (by norm_num), shift, zpow_add₀ (by norm_num), zpow_natCast,
      ← mul_assoc, mul_div_mul_right _ _ scale.ne', Nat.shiftLeft_eq]
    push_cast
    rfl
  have extended := extends_div (first <<< count) secondPositive
  rw [← quotient] at extended
  exact roundWithAccuracy_eq _ extended positive fine

/-! ### Whole numbers -/

theorem ofNat_eq_rounded {number : ℕ} (positive : 0 < number) :
    UnpackedFloat.ofNat .binary64 number = rounded .positive number := by
  have nonzero := Nat.pos_iff_ne_zero.mp positive
  have cast : (0 : ℚ) < number := Nat.cast_pos.mpr positive
  have log : Int.log 2 (number : ℚ) = number.log2 := by
    have extended : Extends (number / 2 ^ (0 : ℤ)) number .exact := .exact (by simp)
    rw [log_eq_of_extends extended cast nonzero, add_zero]
  unfold UnpackedFloat.ofNat UnpackedFloat.ofInt UnpackedFloat.normalize
  rw [compare_gt_iff_gt.mpr (Int.natCast_pos.mpr positive)]
  dsimp only
  rw [Int.toNat_natCast]
  unfold UnpackedFloat.round UnpackedFloat.decreaseExponent
  rw [targetExponent_eq]
  unfold totalExponent
  dsimp only
  generalize amount : (0 - max ((number.log2 : ℤ) + 1 + 0 - 53) (-1074)).toNat = count
  have extended : Extends (number / 2 ^ (0 - (count : ℤ))) (number <<< count) .exact := by
    refine .exact ?_
    rw [zero_sub, zpow_neg, zpow_natCast, div_inv_eq_mul, Nat.shiftLeft_eq]
    push_cast
    rfl
  refine roundWithAccuracy_eq _ extended cast ?_
  unfold unit
  rw [log]
  omega

def IsNormal (quantity : ℚ) (number : UnpackedFloat) : Prop :=
  ∃ mantissa exponent positive, number = .finite .positive mantissa exponent positive ∧
    2 ^ 52 ≤ mantissa ∧ mantissa * 2 ^ exponent = quantity

theorem isNormal_ofNat {number : ℕ} (positive : 0 < number) (below : number < 2 ^ 53) :
    IsNormal number (unpack (pack (UnpackedFloat.ofNat .binary64 number))) := by
  have nonzero := Nat.pos_iff_ne_zero.mp positive
  have width := (Nat.log2_lt nonzero).mpr below
  have atLeast := Nat.log2_self_le nonzero
  have less : number < 2 ^ (number.log2 + 1) := Nat.lt_log2_self
  have shifted : 2 ^ number.log2 * 2 ^ (52 - number.log2) = 2 ^ 52 := by
    rw [← Nat.pow_add]
    congr 1
    omega
  have long : 2 ^ 52 ≤ number * 2 ^ (52 - number.log2) := by
    rw [← shifted]
    exact Nat.mul_le_mul_right _ atLeast
  have short : number * 2 ^ (52 - number.log2) < 2 ^ 53 := by
    have doubled : 2 ^ (number.log2 + 1) * 2 ^ (52 - number.log2) = 2 ^ 53 := by
      rw [Nat.pow_succ, Nat.mul_right_comm, shifted]
      rfl
    rw [← doubled]
    exact Nat.mul_lt_mul_of_pos_right less (Nat.two_pow_pos _)
  have some : 0 < number * 2 ^ (52 - number.log2) := Nat.lt_of_lt_of_le (by decide) long
  have value : ((number * 2 ^ (52 - number.log2) : ℕ) : ℚ) * 2 ^ (-(52 - number.log2 : ℕ) : ℤ) =
      number := by
    rw [zpow_neg, zpow_natCast]
    push_cast
    exact mul_inv_cancel_right₀ (by positivity) _
  have canonical : IsCanonical (.finite .positive (number * 2 ^ (52 - number.log2))
      (-(52 - number.log2 : ℕ) : ℤ) some) := by
    refine ⟨short, ?_, ?_, Or.inl long⟩
    · omega
    · omega
  rw [ofNat_eq_rounded positive, ← value, rounded_of_isCanonical canonical,
    unpack_pack_of_isCanonical canonical]
  exact ⟨_, _, some, rfl, long, rfl⟩

theorem mul_normal {first second : UnpackedFloat} {quantity factor : ℚ}
    (firstNormal : IsNormal quantity first) (secondNormal : IsNormal factor second) :
    UnpackedFloat.mul .binary64 first second = rounded .positive (quantity * factor) := by
  obtain ⟨_, _, _, rfl, firstLong, rfl⟩ := firstNormal
  obtain ⟨_, _, secondPositive, rfl, _, rfl⟩ := secondNormal
  exact mul_finite (Nat.le_trans firstLong (Nat.le_mul_of_pos_right _ secondPositive))

theorem div_normal {first second : UnpackedFloat} {quantity divisor : ℚ}
    (firstNormal : IsNormal quantity first) (secondNormal : IsNormal divisor second) :
    UnpackedFloat.div .binary64 first second = rounded .positive (quantity / divisor) := by
  obtain ⟨_, _, _, rfl, _, rfl⟩ := firstNormal
  obtain ⟨_, _, _, rfl, _, rfl⟩ := secondNormal
  exact div_finite

/-! ### Decimals -/

theorem ten_zpow_pos (exponent : ℤ) : (0 : ℚ) < 10 ^ exponent := zpow_pos (by norm_num) exponent

/-- Decimals beyond all floating-point numbers are cut off before they are computed. -/
theorem le_of_large_exponent {digits : ℕ} (nonzero : digits ≠ 0) {exponent : ℤ}
    (large : 2048 < exponent) : (2 : ℚ) ^ (1024 : ℤ) ≤ digits * 10 ^ exponent := by
  have one : (1 : ℚ) ≤ digits := by exact_mod_cast Nat.pos_of_ne_zero nonzero
  calc (2 : ℚ) ^ (1024 : ℤ) ≤ 10 ^ (1024 : ℤ) :=
        zpow_le_zpow_left₀ (by decide) (by norm_num) (by norm_num)
    _ ≤ 10 ^ exponent := zpow_le_zpow_right₀ (by norm_num) (by omega)
    _ ≤ digits * 10 ^ exponent := le_mul_of_one_le_left (ten_zpow_pos exponent).le one

theorem lt_of_small_exponent {digits : ℕ} {exponent : ℤ}
    (small : exponent < -(2048 + (digits.log2 : ℤ))) :
    (digits : ℚ) * 10 ^ exponent < 2 ^ (-1075 : ℤ) := by
  have less : (digits : ℚ) < 2 ^ ((digits.log2 : ℤ) + 1) := by
    rw [← Nat.cast_succ, zpow_natCast]
    exact_mod_cast Nat.lt_log2_self
  have power : (10 : ℚ) ^ exponent ≤ 2 ^ exponent := by
    obtain ⟨count, rfl⟩ : ∃ count : ℕ, exponent = -count := ⟨(-exponent).toNat, by omega⟩
    rw [zpow_neg, zpow_neg, zpow_natCast, zpow_natCast]
    exact inv_anti₀ (by positivity) (pow_le_pow_left₀ (by norm_num) (by norm_num) count)
  calc (digits : ℚ) * 10 ^ exponent < 2 ^ ((digits.log2 : ℤ) + 1) * 10 ^ exponent :=
        mul_lt_mul_of_pos_right less (ten_zpow_pos exponent)
    _ ≤ 2 ^ ((digits.log2 : ℤ) + 1) * 2 ^ exponent :=
        mul_le_mul_of_nonneg_left power (two_zpow_pos _).le
    _ = 2 ^ ((digits.log2 : ℤ) + 1 + exponent) := (zpow_add₀ (by norm_num) _ _).symm
    _ ≤ 2 ^ (-1075 : ℤ) := zpow_le_zpow_right₀ (by norm_num) (by omega)

theorem pack_ofScientific (digits : ℕ) (exponent : ℤ) :
    pack (UnpackedFloat.ofScientific .binary64 digits exponent) =
      pack (rounded .positive (digits * 10 ^ exponent)) := by
  unfold UnpackedFloat.ofScientific
  by_cases isZero : digits = 0
  · rw [dif_pos isZero, isZero, Nat.cast_zero, zero_mul, rounded_zero]
  · have positive : (0 : ℚ) < digits := Nat.cast_pos.mpr (Nat.pos_of_ne_zero isZero)
    rw [dif_neg isZero]
    by_cases large : 2 ^ Format.binary64.exponentBits < exponent
    · rw [if_pos large, pack_rounded_of_le (le_of_large_exponent isZero large)]
    · rw [if_neg large]
      by_cases small : exponent < -(2 ^ Format.binary64.exponentBits + (digits.log2 : ℤ))
      · rw [if_pos small, rounded_of_lt (mul_pos positive (ten_zpow_pos exponent))
          (lt_of_small_exponent small)]
      · rw [if_neg small]
        by_cases nonneg : 0 ≤ exponent
        · rw [if_pos nonneg]
          obtain ⟨count, rfl⟩ : ∃ count : ℕ, exponent = count := ⟨exponent.toNat, by omega⟩
          have long : 2 ^ 52 ≤ digits <<< Format.binary64.mantissaBits * 10 ^ (count : ℤ).toNat := by
            have some := Nat.pos_of_ne_zero isZero
            change 2 ^ 52 ≤ digits <<< 53 * 10 ^ count
            rw [Nat.shiftLeft_eq]
            calc 2 ^ 52 ≤ 1 * 2 ^ 53 * 1 := by decide
              _ ≤ digits * 2 ^ 53 * 10 ^ count :=
                Nat.mul_le_mul (Nat.mul_le_mul_right _ some) (Nat.pow_pos (by decide))
          have quantity : ((digits <<< Format.binary64.mantissaBits : ℕ) : ℚ) *
              2 ^ (-(Format.binary64.mantissaBits : ℤ)) * ((10 ^ (count : ℤ).toNat : ℕ) * 2 ^ (0 : ℤ)) =
              digits * 10 ^ (count : ℤ) := by
            rw [Int.toNat_natCast, Nat.shiftLeft_eq, zpow_neg, zpow_natCast, zpow_natCast, zpow_zero,
              mul_one]
            push_cast
            rw [mul_inv_cancel_right₀ (by positivity)]
          rw [mul_finite long, quantity]
          rfl
        · rw [if_neg nonneg]
          obtain ⟨count, rfl⟩ : ∃ count : ℕ, exponent = -count := ⟨(-exponent).toNat, by omega⟩
          have quantity : (digits * 2 ^ (0 : ℤ) : ℚ) /
              ((10 ^ (- -(count : ℤ)).toNat : ℕ) * 2 ^ (0 : ℤ)) = digits * 10 ^ (-(count : ℤ)) := by
            rw [Int.neg_neg, Int.toNat_natCast, zpow_zero, mul_one, mul_one, zpow_neg, zpow_natCast,
              div_eq_mul_inv]
            push_cast
            rfl
          rw [div_finite, quantity]
          rfl

instance (quantity : ℚ) (number : UnpackedFloat) : Decidable (IsNormal quantity number) :=
  match number with
  | .finite .positive mantissa exponent positive =>
      decidable_of_iff (2 ^ 52 ≤ mantissa ∧ mantissa * 2 ^ exponent = quantity)
        ⟨fun ⟨long, same⟩ => ⟨mantissa, exponent, positive, rfl, long, same⟩,
          fun ⟨_, _, _, same, long, value⟩ => by
            cases same
            exact ⟨long, value⟩⟩
  | .finite .negative _ _ _ => isFalse fun ⟨_, _, _, same, _⟩ => by cases same
  | .zero _ => isFalse fun ⟨_, _, _, same, _⟩ => by cases same
  | .infinity _ => isFalse fun ⟨_, _, _, same, _⟩ => by cases same
  | .notANumber => isFalse fun ⟨_, _, _, same, _⟩ => by cases same

theorem isNormal_powerOfTen (exponent : Fin Float.exactlyRepresentablePowersOfTen.size) :
    IsNormal (10 ^ exponent.val)
      (parts (Float.exactlyRepresentablePowersOfTen[exponent])) := by
  revert exponent
  decide +kernel

def nearestTo (quantity : ℚ) : Float := .ofModel (.pack (rounded .positive quantity))

theorem eq_nearestTo {number : UnpackedFloat} {quantity : ℚ}
    (same : pack number = pack (rounded .positive quantity)) :
    Float.ofModel (.pack number) = nearestTo quantity := by
  unfold nearestTo Float.Model.pack
  congr 2
  exact congrArg UInt64.ofBitVec same

theorem isNormal_toFloat {digits : ℕ} (positive : 0 < digits) (below : digits < 2 ^ 53) :
    IsNormal digits (parts digits.toUInt64.toFloat) := by
  have word : digits.toUInt64.toNat = digits := Nat.mod_eq_of_lt (by omega)
  have converted : parts digits.toUInt64.toFloat =
      unpack (pack (UnpackedFloat.ofNat .binary64 digits.toUInt64.toNat)) := rfl
  rw [converted, word]
  exact isNormal_ofNat positive below

theorem mul_eq_nearestTo {digits : ℕ} (below : digits < 2 ^ 53) {power : Float} {factor : ℚ}
    (normal : IsNormal factor (parts power)) :
    digits.toUInt64.toFloat * power = nearestTo (digits * factor) := by
  have product : digits.toUInt64.toFloat * power = Float.ofModel (.pack
      (UnpackedFloat.mul .binary64 (parts digits.toUInt64.toFloat) (parts power))) := rfl
  rw [product]
  refine eq_nearestTo ?_
  rcases Nat.eq_zero_or_pos digits with rfl | positive
  · obtain ⟨_, _, _, same, _⟩ := normal
    rw [same, Nat.cast_zero, zero_mul, rounded_zero]
    rfl
  · rw [mul_normal (isNormal_toFloat positive below) normal]

theorem div_eq_nearestTo {digits : ℕ} (below : digits < 2 ^ 53) {power : Float} {divisor : ℚ}
    (normal : IsNormal divisor (parts power)) :
    digits.toUInt64.toFloat / power = nearestTo (digits / divisor) := by
  have quotient : digits.toUInt64.toFloat / power = Float.ofModel (.pack
      (UnpackedFloat.div .binary64 (parts digits.toUInt64.toFloat) (parts power))) := rfl
  rw [quotient]
  refine eq_nearestTo ?_
  rcases Nat.eq_zero_or_pos digits with rfl | positive
  · obtain ⟨_, _, _, same, _⟩ := normal
    rw [same, Nat.cast_zero, zero_div, rounded_zero]
    rfl
  · rw [div_normal (isNormal_toFloat positive below) normal]

/-- Reading digits with a power of ten gives the nearest number, also where a product or a
quotient of exact numbers is used instead. -/
theorem ofScientific_eq_nearestTo (digits : ℕ) (negative : Bool) (size : ℕ) :
    Float.ofScientific digits negative size =
      nearestTo (digits * 10 ^ (if negative then -size else size : ℤ)) := by
  unfold Float.ofScientific
  split
  · rename_i exact
    obtain ⟨below, small⟩ := exact
    have normal := isNormal_powerOfTen ⟨size, by
      change size < 23
      omega⟩
    cases negative with
    | false =>
        simp only [Bool.false_eq_true, if_false, zpow_natCast]
        exact mul_eq_nearestTo below normal
    | true =>
        simp only [if_true, zpow_neg, zpow_natCast, ← div_eq_mul_inv]
        exact div_eq_nearestTo below normal
  · refine eq_nearestTo ?_
    rw [pack_ofScientific]
    cases negative with
    | false => rfl
    | true =>
        simp only [if_true, Int.negOfNat_eq]
        rfl

end RelationalLayout.Binary64

namespace RelationalLayout

theorem Decimal.nearest_eq (decimal : Decimal) :
    decimal.nearest = Binary64.nearestTo decimal.rational := by
  have exponent : (if decide (decimal.exponent < 0) = true then -(decimal.exponent.natAbs : ℤ)
      else decimal.exponent.natAbs) = decimal.exponent := by
    by_cases negative : decimal.exponent < 0
    · rw [decide_eq_true negative, if_pos rfl]
      omega
    · rw [decide_eq_false negative, if_neg Bool.false_ne_true]
      omega
  rw [nearest, Binary64.ofScientific_eq_nearestTo, exponent, rational]

end RelationalLayout
