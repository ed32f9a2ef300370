/-
The written forms of decimals stand for the numbers they were made from.

The shortest digits of a floating-point number are chosen so that they read back as
that number, and the plain form keeps the value of a decimal. Reading depends on the
value only, so what is written is read as the number it was written for.
-/

import RelationalLayout.Decimal.Text
import RelationalLayout.Proofs.Float.Nearest
import RelationalLayout.Proofs.Text.Lexeme

namespace RelationalLayout

open Float.Model (UnpackedFloat)

namespace Decimal

/-! ### Values -/

theorem rational_ten_mul (digits : ℕ) (exponent : ℤ) :
    rational { digits := digits, exponent := exponent + 1 } =
      rational { digits := 10 * digits, exponent := exponent } := by
  unfold rational
  dsimp only
  rw [zpow_add_one₀ (by norm_num)]
  push_cast
  ring

theorem rational_trim (decimal : Decimal) : decimal.trim.rational = decimal.rational := by
  fun_induction trim decimal with
  | case1 decimal isZero =>
      unfold rational
      rw [isZero, Nat.cast_zero, zero_mul, zero_mul]
  | case2 decimal nonzero divisible ih =>
      have digits : 10 * (decimal.digits / 10) = decimal.digits := by omega
      rw [ih, rational_ten_mul, digits]
  | case3 => rfl

theorem rational_ofBinary (mantissa : ℕ) (exponent : ℤ) :
    (ofBinary mantissa exponent).rational = mantissa * 2 ^ exponent := by
  unfold ofBinary
  split
  · rename_i negative
    obtain ⟨count, rfl⟩ : ∃ count : ℕ, exponent = -count := ⟨(-exponent).toNat, by omega⟩
    unfold rational
    dsimp only
    rw [Int.neg_neg, Int.toNat_natCast, zpow_neg, zpow_neg, zpow_natCast, zpow_natCast]
    have ten : (10 : ℚ) ^ count = 5 ^ count * 2 ^ count := by
      rw [← mul_pow]
      norm_num
    rw [ten]
    change ((mantissa * 5 ^ count : ℕ) : ℚ) * _ = _
    push_cast
    field_simp
  · rename_i nonneg
    obtain ⟨count, rfl⟩ : ∃ count : ℕ, exponent = count := ⟨exponent.toNat, by omega⟩
    unfold rational
    dsimp only
    rw [Int.toNat_natCast, zpow_zero, mul_one, zpow_natCast]
    change ((mantissa * 2 ^ count : ℕ) : ℚ) = _
    push_cast
    rfl

theorem nearest_eq_of_rational_eq {left right : Decimal} (same : left.rational = right.rational) :
    left.nearest = right.nearest := by
  rw [nearest_eq, nearest_eq, same]

/-! ### Shortest digits -/

theorem readsBack_of_candidate {tie : TieRule} {readsBack : Decimal → Bool} {whole found : Decimal}
    {count : ℕ} (chosen : candidate tie readsBack whole count = some found) :
    readsBack found = true := by
  have either (nearer : Bool) {upper lower : Decimal} (above : readsBack upper = true)
      (below : readsBack lower = true) : readsBack (if nearer then upper else lower) = true := by
    cases nearer with
    | false => exact below
    | true => exact above
  unfold candidate at chosen
  dsimp only at chosen
  split at chosen
  · rename_i lower upper
    cases chosen
    exact either _ upper lower
  · rename_i lower _
    cases chosen
    exact lower
  · rename_i _ upper
    cases chosen
    exact upper
  · cases chosen

theorem nearest_shortest {tie : TieRule} {readsBack : Decimal → Bool} {whole : Decimal}
    (sound : ∀ found, readsBack found = true → found.nearest = whole.nearest) :
    (whole.shortest tie readsBack).nearest = whole.nearest := by
  unfold shortest
  rw [nearest_eq_of_rational_eq (rational_trim _)]
  cases chosen : (List.range 17).findSome? (fun fewer =>
      candidate tie readsBack whole (fewer + 1)) with
  | none => rfl
  | some found =>
      obtain ⟨_, _, candidateFound⟩ := List.exists_of_findSome?_eq_some chosen
      exact sound found (readsBack_of_candidate candidateFound)

/-! ### Plain forms -/

theorem isDigit_of_mem_digitText {number : ℕ} {letter : Char}
    (member : letter ∈ digitText number) : letter.isDigit = true :=
  Nat.isDigit_of_mem_toDigits (by decide) (by decide) member

theorem isDigit_of_mem_zeros {count : ℕ} {letter : Char} (member : letter ∈ zeros count) :
    letter.isDigit = true := by
  rw [List.eq_of_mem_replicate member]
  rfl

theorem digitsValue_digitText (number : ℕ) : Lexeme.digitsValue (digitText number) = number :=
  Nat.ofDigitChars_ten_toDigits

theorem digitsValue_append_zeros (digits : List Char) (count : ℕ) :
    Lexeme.digitsValue (digits ++ zeros count) = Lexeme.digitsValue digits * 10 ^ count := by
  have split := Nat.ofDigitChars_append (b := 10) (l := digits) (m := zeros count) 0
  rw [zeros, Nat.ofDigitChars_replicate_zero, Nat.mul_comm] at split
  exact split

theorem digitsValue_zeros_append (count : ℕ) (digits : List Char) :
    Lexeme.digitsValue (zeros count ++ digits) = Lexeme.digitsValue digits := by
  have split := Nat.ofDigitChars_append (b := 10) (l := zeros count) (m := digits) 0
  rw [zeros, Nat.ofDigitChars_replicate_zero, Nat.mul_zero] at split
  exact split

theorem firstIs_isDigit {text : List Char} (visible : text ≠ [])
    (digits : ∀ letter ∈ text, letter.isDigit = true) :
    Lexeme.firstIs Char.isDigit text = true := by
  cases text with
  | nil => exact absurd rfl visible
  | cons letter text => exact digits letter List.mem_cons_self

theorem firstIs_plainText (decimal : Decimal) :
    Lexeme.firstIs Char.isDigit decimal.plainText = true := by
  have number : Lexeme.firstIs Char.isDigit (digitText decimal.digits) = true :=
    firstIs_isDigit Nat.toDigits_ne_nil (fun _ => isDigit_of_mem_digitText)
  unfold plainText pointText
  split
  · split
    · exact number
    · split
      · rename_i inside
        refine Lexeme.firstIs_append _ (firstIs_isDigit ?_ ?_)
        · rw [← List.length_pos_iff, List.length_take]
          omega
        · exact fun letter member => isDigit_of_mem_digitText (List.mem_of_mem_take member)
      · rfl
  · split
    · rfl
    · exact Lexeme.firstIs_append _ number

theorem numeral_point {digits fraction : List Char} {number places : ℕ}
    (whole : ∀ letter ∈ digits, letter.isDigit = true)
    (behind : ∀ letter ∈ fraction, letter.isDigit = true)
    (value : Lexeme.digitsValue (digits ++ fraction) = number) (count : fraction.length = places)
    (some : 0 < places) :
    Lexeme.numeral (digits ++ '.' :: fraction) =
      (digits ++ '.' :: fraction, ({ digits := number, exponent := -places } : Decimal).nearest) := by
  have visible : fraction ≠ [] := by
    rw [← List.length_pos_iff, count]
    exact some
  have numeral := Lexeme.numeral_point whole behind visible Lexeme.ends_nil.numeral
  rw [List.append_nil, value, count] at numeral
  exact numeral

theorem numeral_pointText {number places : ℕ} (some : 0 < places) :
    Lexeme.numeral (pointText (digitText number) places) =
      (pointText (digitText number) places,
        ({ digits := number, exponent := -places } : Decimal).nearest) := by
  unfold pointText
  rw [if_neg (Nat.pos_iff_ne_zero.mp some)]
  split
  · rename_i inside
    refine numeral_point ?_ ?_ ?_ ?_ some
    · exact fun letter member => isDigit_of_mem_digitText (List.mem_of_mem_take member)
    · exact fun letter member => isDigit_of_mem_digitText (List.mem_of_mem_drop member)
    · rw [List.take_append_drop, digitsValue_digitText]
    · rw [List.length_drop]
      omega
  · rename_i outside
    have whole : ∀ letter ∈ zeros 1, letter.isDigit = true := fun _ => isDigit_of_mem_zeros
    refine numeral_point whole ?_ ?_ ?_ some
    · intro letter member
      rcases List.mem_append.mp member with zero | digit
      · exact isDigit_of_mem_zeros zero
      · exact isDigit_of_mem_digitText digit
    · exact (digitsValue_zeros_append (places - (digitText number).length + 1) _).trans
        (digitsValue_digitText number)
    · rw [List.length_append, zeros, List.length_replicate]
      omega

/-- The plain form of a decimal is one numeral, and it is read as the same number. -/
theorem numeral_plainText (decimal : Decimal) :
    Lexeme.numeral decimal.plainText = (decimal.plainText, decimal.nearest) := by
  unfold plainText
  split
  · rename_i negative
    have places : -((-decimal.exponent).toNat : ℤ) = decimal.exponent := by omega
    rw [numeral_pointText (by omega), places]
  · rename_i nonneg
    obtain ⟨count, exponent⟩ : ∃ count : ℕ, decimal.exponent = count :=
      ⟨decimal.exponent.toNat, by omega⟩
    have numeral {digits : List Char} (whole : ∀ letter ∈ digits, letter.isDigit = true)
        (value : (Lexeme.digitsValue digits : ℚ) = decimal.rational) :
        Lexeme.numeral digits = (digits, decimal.nearest) := by
      have read := Lexeme.numeral_whole whole Lexeme.ends_nil.numeral
      have same : rational { digits := Lexeme.digitsValue digits, exponent := 0 } =
          decimal.rational := by
        rw [← value, rational, zpow_zero, mul_one]
      rw [List.append_nil] at read
      rw [read, nearest_eq_of_rational_eq same]
    split
    · rename_i isZero
      have whole : ∀ letter ∈ zeros 1, letter.isDigit = true := fun _ => isDigit_of_mem_zeros
      refine numeral whole ?_
      rw [rational, isZero, Nat.cast_zero, zero_mul]
      rfl
    · refine numeral ?_ ?_
      · intro letter member
        rcases List.mem_append.mp member with digit | zero
        · exact isDigit_of_mem_digitText digit
        · exact isDigit_of_mem_zeros zero
      · rw [digitsValue_append_zeros, digitsValue_digitText, rational, exponent,
          Int.toNat_natCast, zpow_natCast]
        push_cast
        rfl

end Decimal

namespace Binary64

theorem eq_of_compare {left right : UnpackedFloat} (leftPlus : IsPlus left)
    (rightPlus : IsPlus right) (same : left.compare right = some .eq) : left = right := by
  cases leftPlus with
  | zero => cases rightPlus <;> first | rfl | cases same
  | infinity => cases rightPlus <;> first | rfl | cases same
  | finite =>
      cases rightPlus with
      | zero | infinity => cases same
      | finite =>
          obtain ⟨exponents, mantissas⟩ := Ordering.then_eq_eq.mp (Option.some.inj same)
          exact finite_congr (compare_eq_iff_eq.mp mantissas) (compare_eq_iff_eq.mp exponents)

theorem isPlus_rounded (quantity : ℚ) : IsPlus (rounded .positive quantity) := by
  unfold rounded
  apply isPlus_dite
  · intro positive
    by_cases full : nearestEven (quantity / 2 ^ unit quantity) = 2 ^ 53
    · rw [if_pos full]
      exact .finite _ _ _
    · rw [if_neg full]
      exact .finite _ _ _
  · exact fun _ => .zero

theorem eq_of_beq_nearestTo {left right : ℚ} (same : (nearestTo left == nearestTo right) = true) :
    nearestTo left = nearestTo right := by
  have compared : (parts (nearestTo left)).compare (parts (nearestTo right)) = some .eq :=
    eq_of_beq same
  exact eq_of_parts_eq (eq_of_compare (isPlus_packed (isPlus_rounded left))
    (isPlus_packed (isPlus_rounded right)) compared)

theorem parts_nearestTo {mantissa : ℕ} {exponent : ℤ} {positive : 0 < mantissa}
    (canonical : IsCanonical (.finite .positive mantissa exponent positive)) :
    parts (nearestTo (mantissa * 2 ^ exponent)) = .finite .positive mantissa exponent positive := by
  have packed : parts (nearestTo (mantissa * 2 ^ exponent)) =
      unpack (pack (rounded .positive (mantissa * 2 ^ exponent))) := rfl
  rw [packed, rounded_of_isCanonical canonical, unpack_pack_of_isCanonical canonical]

end Binary64

namespace Reading

open Binary64

theorem exists_exact_of_isFinite {number : Float} (finite : number.isFinite = true) :
    ∃ negative magnitude, exact number = .finite negative magnitude ∧
      number = if negative then -magnitude.nearest else magnitude.nearest := by
  have canonical : IsCanonical (parts number) := isCanonical_unpack _
  have isFinite : (parts number).isFinite = true := finite
  have signed {negative : Bool} {magnitude : Decimal} (unsigned : UnpackedFloat)
      (magnitudeParts : parts magnitude.nearest = unsigned)
      (same : parts number = if negative then unsigned.neg else unsigned) :
      number = if negative then -magnitude.nearest else magnitude.nearest := by
    refine eq_of_parts_eq (same.trans ?_)
    cases negative with
    | false => exact magnitudeParts.symm
    | true => exact (congrArg UnpackedFloat.neg magnitudeParts.symm).trans (parts_neg _).symm
  have unpacked : number.toModel.unpack = parts number := rfl
  rw [exact, unpacked]
  cases shown : parts number with
  | notANumber | infinity =>
      rw [shown] at isFinite
      cases isFinite
  | zero sign =>
      refine ⟨_, _, rfl, signed (.zero .positive) rfl ?_⟩
      rw [shown]
      cases sign <;> rfl
  | finite sign mantissa exponent positive =>
      rw [shown] at canonical
      have magnitudeParts : parts (Decimal.ofBinary mantissa exponent).nearest =
          .finite .positive mantissa exponent positive := by
        rw [Decimal.nearest_eq, Decimal.rational_ofBinary]
        exact parts_nearestTo canonical
      refine ⟨_, _, rfl, signed _ magnitudeParts ?_⟩
      rw [shown]
      cases sign <;> rfl

/-- The shortest digits of a finite number are read as its magnitude. -/
theorem exists_shortest_of_isFinite (tie : TieRule) {number : Float}
    (finite : number.isFinite = true) :
    ∃ negative decimal, shortest tie number = .finite negative decimal ∧
      number = if negative then -decimal.nearest else decimal.nearest := by
  obtain ⟨negative, magnitude, read, same⟩ := exists_exact_of_isFinite finite
  have sound : ∀ found : Decimal, (found.nearest == magnitude.nearest) = true →
      found.nearest = magnitude.nearest := by
    intro found equal
    rw [Decimal.nearest_eq, Decimal.nearest_eq] at *
    exact eq_of_beq_nearestTo equal
  refine ⟨negative, magnitude.shortest tie (fun found => found.nearest == magnitude.nearest),
    ?_, ?_⟩
  · unfold shortest
    rw [read]
  · rw [Decimal.nearest_shortest sound]
    exact same

end Reading

theorem eq_of_not_isFinite {number : Float} (infinite : number.isFinite = false) :
    number = 1 / 0 ∨ number = -1 / 0 ∨ number = 0 / 0 := by
  have notFinite : (Binary64.parts number).isFinite = false := infinite
  cases shown : Binary64.parts number with
  | notANumber => exact Or.inr (Or.inr (Binary64.eq_of_parts_eq shown))
  | infinity sign =>
      cases sign with
      | positive => exact Or.inl (Binary64.eq_of_parts_eq shown)
      | negative => exact Or.inr (Or.inl (Binary64.eq_of_parts_eq shown))
  | zero | finite =>
      rw [shown] at notFinite
      cases notFinite

end RelationalLayout
