/-
Numbers that are written can be read.

A number is read by scaling its digits with a power of ten, with a rounding of its own, so
another number than the one that was written may be found. But one is found for every finite
number: its digits are taken in as they are, and their product with the power stays below the
overflow, as the two largest numbers show by themselves.
-/

import RelationalLayout.Proofs.Float.Product
import RelationalLayout.Proofs.Json.Number
import RelationalLayout.Proofs.Success

namespace RelationalLayout

open Binary64

theorem Reading.shortest_neg (tie : TieRule) (number : Float) :
    shortest tie (-number) = (shortest tie number).opposite := by
  rw [shortest, shortest, exact_neg]
  cases exact number <;> rfl

namespace JsonNumber

/-! ### Digits -/

theorem takeDigits_eq {limit number : Nat} {digits : List Char}
    (fits : Nat.ofDigitChars 10 digits number < limit) :
    takeDigits limit number digits = (Nat.ofDigitChars 10 digits number, []) := by
  induction digits generalizing number with
  | nil => rfl
  | cons digit digits ih =>
      rw [Nat.ofDigitChars_cons] at fits ⊢
      have longer := fits
      rw [Nat.ofDigitChars_eq_ofDigitChars_zero] at longer
      have grows := Nat.le_mul_of_pos_left (10 * number + (digit.toNat - '0'.toNat))
        (Nat.pow_pos (n := digits.length) (show 0 < 10 by decide))
      rw [takeDigits, if_pos (by omega)]
      exact ih fits

theorem exists_used_takeDigits (limit number : Nat) (digits : List Char) :
    ∃ used, digits = used ++ (takeDigits limit number digits).2 ∧
      (takeDigits limit number digits).1 = Nat.ofDigitChars 10 used number := by
  induction digits generalizing number with
  | nil => exact ⟨[], rfl, rfl⟩
  | cons digit digits ih =>
      rw [takeDigits]
      split
      · obtain ⟨used, split, value⟩ := ih (10 * number + (digit.toNat - '0'.toNat))
        exact ⟨digit :: used, congrArg (digit :: ·) split, value⟩
      · exact ⟨[], rfl, rfl⟩

/-! ### Powers of ten -/

theorem exists_scale_of_neg (value : Float) {exponent : Int} (negative : exponent < 0) :
    ∃ scaled, scale value exponent = some scaled := by
  fun_induction scale value exponent with
  | case1 => exact ⟨_, rfl⟩
  | case2 value exponent _ _ ih => exact ih (by omega)
  | case3 => exact ⟨_, rfl⟩
  | _ => omega

theorem ofNat_eq_nearestTo (number : Nat) : Float.ofNat number = nearestTo number := by
  have read := ofScientific_eq_nearestTo number false 0
  rw [if_neg Bool.false_ne_true, Nat.cast_zero, zpow_zero, mul_one] at read
  exact read

theorem floatPowerOfTen_eq (exponent : Nat) :
    floatPowerOfTen exponent = nearestTo (10 ^ (exponent : ℤ)) := by
  rw [floatPowerOfTen, Decimal.nearest_eq, Decimal.rational, Nat.cast_one, one_mul]

/-- A number is scaled within the range as long as the product is below the ceiling. -/
theorem exists_scale {taken : Nat} {exponent : Int}
    (inRange : (taken : ℚ) * 10 ^ exponent < ceiling) :
    ∃ scaled, scale (Float.ofNat taken) exponent = some scaled := by
  by_cases negative : exponent < 0
  · exact exists_scale_of_neg _ negative
  have least : (1 : ℚ) ≤ 10 ^ exponent := one_le_zpow₀ (by norm_num) (by omega)
  have one (some : taken ≠ 0) : (1 : ℚ) ≤ taken := by exact_mod_cast Nat.pos_of_ne_zero some
  by_cases large : 308 < exponent
  · -- Only zero can be scaled that far.
    have isZero : taken = 0 := by
      by_contra some
      have power : (10 : ℚ) ^ exponent < 10 ^ (309 : ℤ) :=
        lt_of_le_of_lt (le_mul_of_one_le_left (by linarith) (one some))
          (lt_of_lt_of_le inRange ceiling_le_ten_zpow)
      have below := (zpow_lt_zpow_iff_right₀ (by norm_num)).mp power
      omega
    subst isZero
    rw [scale, if_neg (by omega), if_neg negative, if_neg (by omega)]
    exact ⟨_, rfl⟩
  · have size : (exponent.natAbs : ℤ) = exponent := by omega
    have finite : (Float.ofNat taken * floatPowerOfTen exponent.natAbs).isFinite = true := by
      rw [ofNat_eq_nearestTo, floatPowerOfTen_eq, size]
      by_cases isZero : taken = 0
      · rw [isZero, Nat.cast_zero]
        exact isFinite_zero_mul least (ten_zpow_lt_overflow (by omega))
      · exact isFinite_mul_nearestTo (one isZero) least inRange
    rw [scale, if_neg (by omega), if_neg negative, if_pos (by omega)]
    simp only [isInf_eq_false_of_isFinite finite]
    exact ⟨_, rfl⟩

/-! ### Numerals -/

namespace Parts

theorem exists_significand {parts : Parts} (short : Lexeme.digitsValue parts.whole < wordLimit) :
    ∃ taken shift, parts.significand = (taken, shift) ∧
      (taken : ℚ) * 10 ^ (parts.power + shift) ≤ parts.decimal.rational := by
  have whole : takeDigits wordLimit 0 parts.whole = (Lexeme.digitsValue parts.whole, []) :=
    takeDigits_eq short
  rw [significand, decimal, Decimal.rational, whole]
  generalize parts.fraction.getD [] = fraction
  obtain ⟨used, split, value⟩ :=
    exists_used_takeDigits wordLimit (Lexeme.digitsValue parts.whole) fraction
  rcases takes : takeDigits wordLimit (Lexeme.digitsValue parts.whole) fraction with ⟨taken, ignored⟩
  rw [takes] at split value
  have taking : Lexeme.digitsValue (parts.whole ++ used) = taken :=
    (Nat.ofDigitChars_append 0).trans value.symm
  have least := digitsValue_mul_le (parts.whole ++ used) ignored
  rw [List.append_assoc, ← split, taking] at least
  have count : fraction.length = used.length + ignored.length := by
    rw [split, List.length_append]
  have shift : parts.power + (((0 : ℕ) : ℤ) - ((fraction.length : ℤ) - ignored.length)) =
      ignored.length + (parts.power - fraction.length) := by omega
  refine ⟨taken, ((0 : ℕ) : ℤ) - ((fraction.length : ℤ) - ignored.length), ?_, ?_⟩
  · dsimp only
    rw [takes]
    rfl
  calc (taken : ℚ) * 10 ^ (parts.power + (((0 : ℕ) : ℤ) - ((fraction.length : ℤ) - ignored.length)))
      = (taken * 10 ^ ignored.length : ℕ) * 10 ^ (parts.power - fraction.length) := by
        rw [shift, zpow_add₀ (by norm_num), zpow_natCast]
        push_cast
        ring
    _ ≤ Lexeme.digitsValue (parts.whole ++ fraction) * 10 ^ (parts.power - fraction.length) := by
        refine mul_le_mul_of_nonneg_right ?_ (ten_zpow_pos _).le
        exact_mod_cast least

/-- A numeral with few digits before the point is a number as long as it is below the ceiling. -/
theorem exists_float {parts : Parts} (short : Lexeme.digitsValue parts.whole < wordLimit)
    (counted : ∀ pair ∈ parts.exponent, pair.1 = false →
      Lexeme.digitsValue pair.2 < exponentLimit)
    (inRange : parts.decimal.rational < ceiling) (rest : List Char) :
    ∃ number, parts.float rest = .ok number := by
  obtain ⟨taken, shift, significand, least⟩ := exists_significand short
  obtain ⟨scaled, scales⟩ := exists_scale (lt_of_le_of_lt least inRange)
  rw [float, significand]
  cases written : parts.exponent with
  | none =>
      have noPower : parts.power = ((0 : ℕ) : ℤ) := by rw [power, written]; rfl
      rw [noPower] at scales
      simp only [Option.getD_none, takeDigits, Bool.false_eq_true, if_false, scales]
      exact ⟨_, rfl⟩
  | some pair =>
      obtain ⟨negative, digits⟩ := pair
      have value : parts.power = if negative then -(Lexeme.digitsValue digits : ℤ)
          else Lexeme.digitsValue digits := by rw [power, written]
      rw [value] at scales
      rcases takes : takeDigits exponentLimit 0 digits with ⟨taken, _ | ⟨digit, later⟩⟩
      · obtain ⟨used, split, count⟩ := exists_used_takeDigits exponentLimit 0 digits
        rw [takes, List.append_nil] at split
        rw [takes, ← split] at count
        have exact : taken = Lexeme.digitsValue digits := count
        simp only [Option.getD_some, takes, exact, scales]
        exact ⟨_, rfl⟩
      · -- Too large a power of ten is one that makes the number small.
        have isNegative : negative = true := by
          by_contra positive
          have few := counted _ written (Bool.eq_false_iff.mpr positive)
          rw [takeDigits_eq few] at takes
          cases takes
        simp only [Option.getD_some, takes, isNegative, or_true, if_true]
        exact ⟨_, rfl⟩

end Parts

theorem leadExponent_lt {decimal : Decimal} (positive : decimal.digits ≠ 0)
    (inRange : decimal.rational < ceiling) : decimal.leadExponent < 309 := by
  have visible : 0 < (Decimal.digitText decimal.digits).length := Nat.length_toDigits_pos
  have lead : decimal.leadExponent =
    ((Decimal.digitText decimal.digits).length - 1 : ℕ) + decimal.exponent := by
      rw [Decimal.leadExponent, Decimal.width, ← Decimal.digitText]
      omega
  have many : 10 ^ ((Decimal.digitText decimal.digits).length - 1) ≤ decimal.digits := by
    by_cases one : (Decimal.digitText decimal.digits).length = 1
    · rw [one]
      exact Nat.pos_of_ne_zero positive
    · by_contra few
      have short := (Nat.length_toDigits_le_iff (by decide) (by omega)).mpr (not_le.mp few)
      rw [← Decimal.digitText] at short
      omega
  have least : (10 : ℚ) ^ decimal.leadExponent ≤ decimal.rational := by
    rw [lead, zpow_add₀ (by norm_num), zpow_natCast, Decimal.rational]
    refine mul_le_mul_of_nonneg_right ?_ (ten_zpow_pos _).le
    exact_mod_cast many
  exact (zpow_lt_zpow_iff_right₀ (by norm_num)).mp
    (lt_of_le_of_lt least (lt_of_lt_of_le inRange ceiling_le_ten_zpow))

theorem Parts.Writes.exists_float {parts : Parts} {decimal : Decimal}
    (writes : parts.Writes decimal) (inRange : decimal.rational < ceiling) :
    ∃ number, parts.float [] = .ok number := by
  have counted : ∀ pair ∈ parts.exponent, pair.1 = false →
      Lexeme.digitsValue pair.2 < exponentLimit := by
    intro pair written nonneg
    obtain ⟨positive, rfl⟩ := writes.exponent pair written
    have least : 0 ≤ decimal.leadExponent := not_lt.mp (of_decide_eq_false nonneg)
    have most := leadExponent_lt positive inRange
    rw [Decimal.digitsValue_digitText, exponentLimit]
    omega
  rw [← writes.same] at inRange
  exact Parts.exists_float (lt_trans writes.short (by decide)) counted inRange []

theorem Parts.exists_float_withSign {parts : Parts} (negative : Bool)
    (read : ∃ number, parts.float [] = .ok number) :
    ∃ number, Parts.float { parts with negative := negative } [] = .ok number := by
  have same : Parts.significand { parts with negative := negative } = parts.significand := rfl
  obtain ⟨number, read⟩ := read
  rw [float] at read ⊢
  rw [same]
  generalize parts.significand = significand at read ⊢
  generalize parts.exponent.getD (false, []) = exponent at read ⊢
  obtain ⟨taken, shift⟩ := significand
  obtain ⟨minus, digits⟩ := exponent
  dsimp only at read ⊢
  split at read
  · split at read
    · exact ⟨_, rfl⟩
    · cases read
  · by_cases small : taken = 0 ∨ minus = true
    · rw [if_pos small]
      exact ⟨_, rfl⟩
    · rw [if_neg small] at read
      cases read

/-! ### Written numbers -/

/-- A finite number can be read exactly when the parts of its text are a number. -/
theorem exists_readDocument_iff {number : Float} {parts : Parts} {decimal : Decimal}
    (writes : parts.Writes decimal) (written : Json.numberText number = parts.text) :
    (∃ other, readDocument Decoder.number (Json.number number).compact = .ok other) ↔
      ∃ other, parts.float [] = .ok other := by
  have cut := JsonToken.cut_numeral writes.wellFormed Lexeme.ends_nil
  rw [List.append_nil, JsonToken.cut, Parts.value] at cut
  simp only [writes.fractional, Bool.false_and, Bool.false_eq_true, if_false] at cut
  rw [readDocument, Json.compact, String.toList_ofList, Json.compactText, written,
    readJson_of_cut cut]
  cases parts.float [] with
  | error fault =>
      apply iff_of_false
      · rintro ⟨other, impossible⟩
        cases impossible
      · rintro ⟨other, impossible⟩
        cases impossible
  | ok other => exact iff_of_true ⟨other, rfl⟩ ⟨other, rfl⟩

theorem isOk_readDocument_largest : ∀ mantissa ∈ [2 ^ 53 - 2, 2 ^ 53 - 1],
    (readDocument Decoder.number
      (Json.number (Decimal.ofBinary mantissa 971).nearest).compact).isOk = true := by
  decide +kernel

theorem exists_readDocument_neg {number : Float} (finite : number.isFinite = true)
    (readable : ∃ other, readDocument Decoder.number (Json.number number).compact = .ok other) :
    ∃ other, readDocument Decoder.number (Json.number (-number)).compact = .ok other := by
  obtain ⟨negative, decimal, shortest, _⟩ := Reading.exists_shortest_of_isFinite .toEven finite
  obtain ⟨parts, writes⟩ := exists_writes decimal
  have opposite := (Reading.shortest_neg .toEven number).trans (congrArg Reading.opposite shortest)
  rw [exists_readDocument_iff (writes.withSign negative) (writes.numberText_eq shortest)] at readable
  rw [exists_readDocument_iff (writes.withSign (!negative)) (writes.numberText_eq opposite)]
  have signed := Parts.exists_float_withSign (!negative) readable
  exact signed

/-- Every finite number that is written can be read. -/
theorem exists_readDocument_number {number : Float} (finite : number.isFinite = true) :
    ∃ other, readDocument Decoder.number (Json.number number).compact = .ok other := by
  obtain ⟨negative, decimal, shortest, same⟩ :=
    Reading.exists_shortest_of_isFinite .toEven finite
  obtain ⟨parts, writes⟩ := exists_writes decimal
  by_cases inRange : decimal.rational < ceiling
  · rw [exists_readDocument_iff (writes.withSign negative) (writes.numberText_eq shortest)]
    exact (writes.withSign negative).exists_float inRange
  · have isFinite : decimal.nearest.isFinite = true := by
      rw [same] at finite
      cases negative with
      | false => exact finite
      | true => rwa [if_pos rfl, isFinite_neg] at finite
    obtain ⟨mantissa, largest, nearest⟩ :=
      nearestTo_of_ceiling_le (not_lt.mp inRange) (decimal.isFinite_nearest_iff.mp isFinite)
    have top : decimal.nearest = (Decimal.ofBinary mantissa 971).nearest := by
      rw [Decimal.nearest_eq, Decimal.nearest_eq, Decimal.rational_ofBinary]
      exact nearest
    have positive : ∃ other,
        readDocument Decoder.number (Json.number decimal.nearest).compact = .ok other := by
      rw [top]
      exact exists_eq_ok_of_isOk (isOk_readDocument_largest mantissa (by simpa using largest))
    rw [same]
    cases negative with
    | false => exact positive
    | true => exact exists_readDocument_neg isFinite positive

end JsonNumber

end RelationalLayout
