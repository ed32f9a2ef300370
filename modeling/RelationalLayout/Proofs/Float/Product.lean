/-
Products of numbers that were rounded before.

Rounding raises a quantity by at most one part in the power of two that fills a mantissa.
A product of two rounded quantities is raised twice, so it stays finite if the quantities'
own product is two units in the last place below the overflow.
-/

import RelationalLayout.Proofs.Float.Overflow

namespace RelationalLayout.Binary64

open Float.Model (UnpackedFloat)

/-! ### How far rounding goes -/

theorem nearestEven_le_add_half {quantity : ℚ} (nonneg : 0 ≤ quantity) :
    (nearestEven quantity : ℚ) ≤ quantity + 1 / 2 := by
  have floor := Nat.floor_le nonneg
  unfold nearestEven
  dsimp only
  split
  · linarith
  · rename_i notBelow
    have half := not_lt.mp notBelow
    have odd : ((⌊quantity⌋₊ + ⌊quantity⌋₊ % 2 : ℕ) : ℚ) ≤ ⌊quantity⌋₊ + 1 := by
      exact_mod_cast Nat.add_le_add_left (Nat.le_of_lt_succ (Nat.mod_lt _ (by decide))) _
    split
    · linarith
    · push_cast
      linarith

theorem exists_isNormal_nearestTo {quantity : ℚ} (least : 1 ≤ quantity)
    (below : quantity < overflow) :
    ∃ value, IsNormal value (parts (nearestTo quantity)) ∧ value ≤ quantity * (1 + 1 / 2 ^ 53) := by
  have positive : 0 < quantity := lt_of_lt_of_le one_pos least
  have log : 0 ≤ Int.log 2 quantity := (le_log_iff positive).mpr (by simpa using least)
  have unitLog : Int.log 2 quantity = 52 + unit quantity := by
    unfold unit
    omega
  have scale := two_zpow_pos (unit quantity)
  have full : 2 ^ 52 * 2 ^ unit quantity ≤ quantity := by
    have atLeast := (le_log_iff positive).mp unitLog.ge
    rwa [zpow_add₀ (by norm_num)] at atLeast
  have scaled : quantity / 2 ^ unit quantity * 2 ^ unit quantity = quantity :=
    div_mul_cancel₀ _ scale.ne'
  have long : 2 ^ 52 ≤ nearestEven (quantity / 2 ^ unit quantity) := by
    refine le_trans (Nat.le_floor ?_) (floor_le_nearestEven _)
    rw [le_div_iff₀ scale]
    exact_mod_cast full
  have short := nearestEven_unit_le positive
  have finite : (unpack (pack (rounded .positive quantity))).isFinite = true :=
    (isFinite_nearestTo_iff positive.le).mpr below
  have inRange := isFinite_rounded_iff.mp finite (Nat.lt_of_lt_of_le (by decide) long)
  have close := nearestEven_le_add_half (div_nonneg positive.le scale.le)
  refine ⟨nearestEven (quantity / 2 ^ unit quantity) * 2 ^ unit quantity, ?_, ?_⟩
  · have packed : parts (nearestTo quantity) = unpack (pack (rounded .positive quantity)) := rfl
    rw [packed, rounded]
    generalize nearestEven (quantity / 2 ^ unit quantity) = count at *
    rw [dif_pos (Nat.lt_of_lt_of_le (by decide) long)]
    by_cases filled : count = 2 ^ 53
    · rw [if_pos filled, unpack_pack_of_isCanonical]
      · refine ⟨_, _, _, rfl, le_rfl, ?_⟩
        rw [filled, zpow_add_one₀ (by norm_num)]
        push_cast
        ring
      · exact ⟨by decide, by omega, by omega, Or.inl le_rfl⟩
    · rw [if_neg filled, unpack_pack_of_isCanonical]
      · exact ⟨_, _, _, rfl, long, rfl⟩
      · exact ⟨by omega, by omega, by omega, Or.inl long⟩
  · calc (nearestEven (quantity / 2 ^ unit quantity) : ℚ) * 2 ^ unit quantity
        ≤ (quantity / 2 ^ unit quantity + 1 / 2) * 2 ^ unit quantity :=
          mul_le_mul_of_nonneg_right close scale.le
      _ = quantity + 2 ^ 52 * 2 ^ unit quantity * (1 / 2 ^ 53) := by
          rw [add_mul, scaled]
          ring
      _ ≤ quantity + quantity * (1 / 2 ^ 53) := by
          have raised := mul_le_mul_of_nonneg_right full (by norm_num : (0 : ℚ) ≤ 1 / 2 ^ 53)
          linarith
      _ = quantity * (1 + 1 / 2 ^ 53) := by ring

/-! ### The ceiling of products -/

/-- What products are kept below: two units in the last place under the overflow. -/
def ceiling : ℚ := ((2 ^ 53 - 3 : ℕ) + 1 / 2) * 2 ^ (971 : ℤ)

theorem ceiling_raised : ceiling * (1 + 1 / 2 ^ 53) * (1 + 1 / 2 ^ 53) < overflow := by
  rw [← mul_eq_overflow, ceiling]
  have scale := two_zpow_pos 971
  generalize (2 : ℚ) ^ (971 : ℤ) = one at *
  norm_num
  linarith

theorem ceiling_lt_overflow : ceiling < overflow := by
  rw [← mul_eq_overflow, ceiling]
  exact mul_lt_mul_of_pos_right (by norm_num) (two_zpow_pos 971)

theorem ceiling_le_ten_zpow : ceiling ≤ 10 ^ (309 : ℤ) := by
  refine le_trans (le_trans ceiling_lt_overflow.le overflow_lt.le) ?_
  rw [show (1024 : ℤ) = (1024 : ℕ) by rfl, show (309 : ℤ) = (309 : ℕ) by rfl, zpow_natCast,
    zpow_natCast]
  have whole : 2 ^ 1024 ≤ 10 ^ 309 := by decide +kernel
  exact_mod_cast whole

theorem ten_zpow_lt_overflow {exponent : ℤ} (most : exponent ≤ 308) :
    10 ^ exponent < overflow := by
  refine lt_of_le_of_lt (zpow_le_zpow_right₀ (by norm_num) most) ?_
  rw [show (308 : ℤ) = (308 : ℕ) by rfl, zpow_natCast, overflow, lt_sub_iff_add_lt]
  have whole : 10 ^ 308 + 2 ^ 970 < 2 ^ 1024 := by decide +kernel
  exact_mod_cast whole

/-! ### Products -/

theorem isFinite_mul_nearestTo {quantity factor : ℚ} (least : 1 ≤ quantity) (leastToo : 1 ≤ factor)
    (product : quantity * factor < ceiling) :
    (nearestTo quantity * nearestTo factor).isFinite = true := by
  have below := lt_trans product ceiling_lt_overflow
  obtain ⟨value, normal, close⟩ := exists_isNormal_nearestTo least
    (lt_of_le_of_lt (le_mul_of_one_le_right (by linarith) leastToo) below)
  obtain ⟨other, normalToo, closeToo⟩ := exists_isNormal_nearestTo leastToo
    (lt_of_le_of_lt (le_mul_of_one_le_left (by linarith) least) below)
  have rounds : nearestTo quantity * nearestTo factor = nearestTo (value * other) := by
    refine eq_nearestTo ?_
    exact congrArg pack (mul_normal normal normalToo)
  have nonneg : 0 ≤ value ∧ 0 ≤ other := by
    obtain ⟨_, _, _, _, _, rfl⟩ := normal
    obtain ⟨_, _, _, _, _, rfl⟩ := normalToo
    exact ⟨mul_nonneg (Nat.cast_nonneg _) (two_zpow_pos _).le,
      mul_nonneg (Nat.cast_nonneg _) (two_zpow_pos _).le⟩
  rw [rounds, isFinite_nearestTo_iff (mul_nonneg nonneg.1 nonneg.2)]
  calc value * other
      ≤ quantity * (1 + 1 / 2 ^ 53) * (factor * (1 + 1 / 2 ^ 53)) :=
        mul_le_mul close closeToo nonneg.2 (by positivity)
    _ = quantity * factor * (1 + 1 / 2 ^ 53) * (1 + 1 / 2 ^ 53) := by ring
    _ ≤ ceiling * (1 + 1 / 2 ^ 53) * (1 + 1 / 2 ^ 53) := by
        have raise : (0 : ℚ) ≤ 1 + 1 / 2 ^ 53 := by norm_num
        exact mul_le_mul_of_nonneg_right (mul_le_mul_of_nonneg_right product.le raise) raise
    _ < overflow := ceiling_raised

theorem isFinite_zero_mul {factor : ℚ} (least : 1 ≤ factor) (below : factor < overflow) :
    (nearestTo 0 * nearestTo factor).isFinite = true := by
  obtain ⟨_, ⟨mantissa, exponent, positive, same, _, _⟩, _⟩ := exists_isNormal_nearestTo least below
  have zero : parts (nearestTo 0) = .zero .positive := by
    have packed : parts (nearestTo 0) = unpack (pack (rounded .positive 0)) := rfl
    rw [packed, rounded_zero]
    rfl
  have product : UnpackedFloat.mul .binary64 (parts (nearestTo 0)) (parts (nearestTo factor)) =
      rounded .positive 0 := by
    rw [zero, same, rounded_zero]
    rfl
  have rounds : nearestTo 0 * nearestTo factor = nearestTo 0 := eq_nearestTo (congrArg pack product)
  rw [rounds, isFinite_nearestTo_iff le_rfl]
  exact lt_of_lt_of_le one_pos (le_trans least below.le)

/-- Only the two largest numbers are nearest to quantities above. -/
theorem nearestTo_of_ceiling_le {quantity : ℚ} (least : ceiling ≤ quantity)
    (below : quantity < overflow) :
    ∃ mantissa : ℕ, (mantissa = 2 ^ 53 - 2 ∨ mantissa = 2 ^ 53 - 1) ∧
      nearestTo quantity = nearestTo (mantissa * 2 ^ (971 : ℤ)) := by
  have scale := two_zpow_pos 971
  have positive : 0 < quantity := lt_of_lt_of_le (mul_pos (by norm_num) scale) least
  have place : unit quantity = 971 := by
    have lower : (2 : ℚ) ^ (1023 : ℤ) ≤ quantity := by
      refine le_trans ?_ least
      rw [show (1023 : ℤ) = 52 + 971 by rfl, zpow_add₀ (by norm_num), ceiling]
      exact mul_le_mul_of_nonneg_right (by norm_num) scale.le
    have atLeast := (le_log_iff positive).mpr lower
    have atMost := (log_lt_iff positive).mpr (lt_trans below overflow_lt)
    unfold unit
    omega
  have long : ¬nearestEven (quantity / 2 ^ (971 : ℤ)) ≤ 2 ^ 53 - 3 := by
    rw [nearestEven_le_iff_of_odd (div_nonneg positive.le scale.le) (by decide), not_lt,
      le_div_iff₀ scale]
    exact least
  have short : nearestEven (quantity / 2 ^ (971 : ℤ)) ≤ 2 ^ 53 - 1 := by
    rw [nearestEven_le_iff_of_odd (div_nonneg positive.le scale.le) (by decide),
      div_lt_iff₀ scale, mul_eq_overflow]
    exact below
  refine ⟨nearestEven (quantity / 2 ^ (971 : ℤ)), by omega, ?_⟩
  have some : 0 < nearestEven (quantity / 2 ^ (971 : ℤ)) := by omega
  have canonical : IsCanonical
      (.finite .positive (nearestEven (quantity / 2 ^ (971 : ℤ))) 971 some) :=
    ⟨by omega, by omega, le_rfl, Or.inl (by omega)⟩
  have same : rounded .positive quantity =
      .finite .positive (nearestEven (quantity / 2 ^ (971 : ℤ))) 971 some := by
    unfold rounded
    generalize unit quantity = exponent at place ⊢
    subst place
    rw [dif_pos some, if_neg (by omega)]
  rw [nearestTo, nearestTo, same, rounded_of_isCanonical canonical]

end RelationalLayout.Binary64
