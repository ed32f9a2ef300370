/-
Numbers are read back from their written form.

What is written for a number is a numeral: digits, perhaps a point with digits behind it,
perhaps an exponent. A numeral is read as the parts it was made of, provided that what
follows cannot be swallowed by it, and its value does not depend on what follows.
-/

import RelationalLayout.Json.Lexeme
import RelationalLayout.Load
import RelationalLayout.Proofs.Decimal

namespace RelationalLayout

open Lexeme (Ends)

namespace JsonNumber

/-! ### Digits -/

def IsDigits (text : List Char) : Prop := text ≠ [] ∧ ∀ letter ∈ text, letter.isDigit = true

/-- The digits before the point: a zero alone, or digits that do not start with one. -/
def IsWhole (text : List Char) : Prop := text = ['0'] ∨ IsDigits text ∧ text.head? ≠ some '0'

theorem isDigits_zero : IsDigits ['0'] := by
  refine ⟨List.cons_ne_nil _ _, fun letter member => ?_⟩
  rw [List.mem_singleton.mp member]
  rfl

theorem IsWhole.isDigits {text : List Char} (whole : IsWhole text) : IsDigits text := by
  rcases whole with rfl | ⟨digits, _⟩
  · exact isDigits_zero
  · exact digits

theorem isDigits_digitText (number : Nat) : IsDigits (Decimal.digitText number) :=
  ⟨Nat.toDigits_ne_nil, fun _ => Decimal.isDigit_of_mem_digitText⟩

theorem head?_digitText {number : Nat} (positive : number ≠ 0) :
    (Decimal.digitText number).head? ≠ some '0' := by
  induction number using Nat.strongRecOn with
  | ind number ih =>
      by_cases small : number < 10
      · rw [Decimal.digitText, Nat.toDigits_of_lt_base small]
        intro zero
        have all : ∀ digit < 10, digit ≠ 0 → Nat.digitChar digit ≠ '0' := by decide
        exact all number small positive (by simpa using zero)
      · rw [Decimal.digitText, Nat.toDigits_of_base_le (by decide) (by omega),
          List.head?_append_of_ne_nil _ Nat.toDigits_ne_nil]
        exact ih (number / 10) (by omega) (by omega)

theorem IsDigits.append {digits more : List Char} (isDigits : IsDigits digits)
    (all : ∀ letter ∈ more, letter.isDigit = true) : IsDigits (digits ++ more) := by
  refine ⟨List.append_ne_nil_of_left_ne_nil isDigits.1 more, fun letter member => ?_⟩
  rcases List.mem_append.mp member with here | later
  · exact isDigits.2 letter here
  · exact all letter later

theorem isWhole_append_zeros {number : Nat} (positive : number ≠ 0) (count : Nat) :
    IsWhole (Decimal.digitText number ++ Decimal.zeros count) := by
  have isDigits := isDigits_digitText number
  refine Or.inr ⟨isDigits.append fun _ => Decimal.isDigit_of_mem_zeros, ?_⟩
  rw [List.head?_append_of_ne_nil _ isDigits.1]
  exact head?_digitText positive

variable {digits rest : List Char}

theorem digits1_append (isDigits : IsDigits digits)
    (stops : ∀ letter ∈ rest.head?, letter.isDigit = false) :
    digits1 (digits ++ rest) = .ok (digits, rest) := by
  rw [digits1, Lexeme.takeWhile_append_of_all isDigits.2 stops,
    Lexeme.dropWhile_append_of_all isDigits.2 stops]
  cases digits with
  | nil => exact absurd rfl isDigits.1
  | cons digit digits => rfl

theorem wholeDigits_append (whole : IsWhole digits)
    (stops : ∀ letter ∈ rest.head?, letter.isDigit = false) :
    wholeDigits (digits ++ rest) = .ok (digits, rest) := by
  rcases whole with rfl | ⟨isDigits, noZero⟩
  · have noDigit : Lexeme.firstIs Char.isDigit rest = false := by
      cases rest with
      | nil => rfl
      | cons letter rest => exact stops letter rfl
    simp [wholeDigits, noDigit]
  · rw [← digits1_append isDigits stops]
    cases digits with
    | nil => exact absurd rfl isDigits.1
    | cons digit digits =>
        have other : digit ≠ '0' := by simpa using noZero
        simp [wholeDigits, other]

/-! ### Numerals -/

namespace Parts

def fractionText : Option (List Char) → List Char
  | none => []
  | some digits => '.' :: digits

def exponentText : Option (Bool × List Char) → List Char
  | none => []
  | some (negative, digits) => 'e' :: (if negative then '-' else '+') :: digits

def magnitudeText (parts : Parts) : List Char :=
  parts.whole ++ (fractionText parts.fraction ++ exponentText parts.exponent)

def text (parts : Parts) : List Char :=
  if parts.negative then '-' :: parts.magnitudeText else parts.magnitudeText

structure WellFormed (parts : Parts) : Prop where
  whole : IsWhole parts.whole
  fraction : ∀ digits ∈ parts.fraction, IsDigits digits
  exponent : ∀ pair ∈ parts.exponent, IsDigits pair.2

end Parts

theorem fractionPart_append {fraction : Option (List Char)}
    (wellFormed : ∀ digits ∈ fraction, IsDigits digits)
    (stops : ∀ letter ∈ rest.head?, letter.isDigit = false ∧ letter ≠ '.') :
    fractionPart (Parts.fractionText fraction ++ rest) = .ok (fraction, rest) := by
  cases fraction with
  | none =>
      cases rest with
      | nil => rfl
      | cons letter rest =>
          have noPoint := (stops letter rfl).2
          simp [Parts.fractionText, fractionPart, noPoint]
  | some digits =>
      have read := digits1_append (wellFormed digits rfl) fun letter atHead => (stops letter atHead).1
      simp [Parts.fractionText, fractionPart, read, bind, Except.bind]

theorem exponentPart_append {exponent : Option (Bool × List Char)}
    (wellFormed : ∀ pair ∈ exponent, IsDigits pair.2) (ends : Ends rest) :
    exponentPart (Parts.exponentText exponent ++ rest) = .ok (exponent, rest) := by
  cases exponent with
  | none =>
      cases rest with
      | nil => rfl
      | cons letter rest =>
          have stops := (ends letter rfl).1
          have noExponent : ¬ (letter = 'e' ∨ letter = 'E') := by
            rintro (rfl | rfl) <;> revert stops <;> decide
          simp only [Parts.exponentText, exponentPart, List.nil_append, if_neg noExponent]
  | some pair =>
      obtain ⟨negative, digits⟩ := pair
      have read := digits1_append (wellFormed _ rfl) (Lexeme.isDigit_eq_false_of_ends ends)
      cases negative <;>
        simp [Parts.exponentText, exponentPart, exponentSign, read, bind, Except.bind]

theorem read_magnitudeText {parts : Parts} (wellFormed : parts.WellFormed) (ends : Ends rest) :
    read parts.negative (parts.magnitudeText ++ rest) = .ok (parts, rest) := by
  -- Neither the point nor the exponent can be swallowed by the digits before them.
  have behindFraction : Lexeme.EndsNumeral (Parts.exponentText parts.exponent ++ rest) := by
    intro letter atHead
    cases exponent : parts.exponent with
    | none =>
        rw [exponent] at atHead
        exact ends.numeral letter atHead
    | some pair =>
        rw [exponent] at atHead
        cases atHead
        decide
  have behindWhole : ∀ letter ∈ (Parts.fractionText parts.fraction ++
      (Parts.exponentText parts.exponent ++ rest)).head?, letter.isDigit = false := by
    intro letter atHead
    cases fraction : parts.fraction with
    | none =>
        rw [fraction] at atHead
        exact (behindFraction letter atHead).1
    | some digits =>
        rw [fraction] at atHead
        cases atHead
        decide
  simp only [read, Parts.magnitudeText, List.append_assoc, bind, Except.bind,
    wholeDigits_append wellFormed.whole behindWhole,
    fractionPart_append wellFormed.fraction behindFraction,
    exponentPart_append wellFormed.exponent ends]

namespace Parts

variable {parts : Parts} {number : Float}

theorem float_eq_ok (read : parts.float rest = .ok number) (other : List Char) :
    parts.float other = .ok number := by
  simp only [float] at read ⊢
  split at read
  · rename_i exponent taken
    cases scaled : scale (Float.ofNat parts.significand.1)
        ((if (parts.exponent.getD (false, [])).1 then -(exponent : Int) else exponent) +
          parts.significand.2) with
    | none =>
        rw [scaled] at read
        cases read
    | some value =>
        rw [scaled] at read
        exact read
  · split at read
    · rename_i vanishes
      rw [if_pos vanishes]
      exact read
    · cases read

/-- The value of a numeral with a point or an exponent does not depend on what follows it. -/
theorem value_eq_ok (fractional : (parts.fraction.isNone && parts.exponent.isNone) = false)
    {document : Json} (read : parts.value rest = .ok document) :
    ∃ number, document = .number number ∧ ∀ other, parts.value other = .ok (.number number) := by
  simp only [value, fractional, Bool.false_and, Bool.false_eq_true, if_false] at read ⊢
  cases found : parts.float rest with
  | error fault =>
      rw [found] at read
      cases read
  | ok number =>
      rw [found] at read
      cases read
      refine ⟨number, rfl, fun other => ?_⟩
      rw [float_eq_ok found other]
      rfl

end Parts

/-! ### Written numbers -/

namespace Parts

def power (parts : Parts) : Int :=
  match parts.exponent with
  | none => 0
  | some (negative, digits) =>
      if negative then -Lexeme.digitsValue digits else Lexeme.digitsValue digits

def decimal (parts : Parts) : Decimal :=
  { digits := Lexeme.digitsValue (parts.whole ++ parts.fraction.getD [])
    exponent := parts.power - (parts.fraction.getD []).length }

/-- The parts of the text of a decimal. They have a point or an exponent, and few digits before
the point. -/
structure Writes (parts : Parts) (decimal : Decimal) : Prop where
  wellFormed : parts.WellFormed
  text : parts.magnitudeText = decimal.jsonText
  fractional : (parts.fraction.isNone && parts.exponent.isNone) = false
  same : parts.decimal.rational = decimal.rational
  short : Lexeme.digitsValue parts.whole < 10 ^ 16
  exponent : ∀ pair ∈ parts.exponent, decimal.digits ≠ 0 ∧
    pair = (decide (decimal.leadExponent < 0), Decimal.digitText decimal.leadExponent.natAbs)

end Parts

theorem exists_pointText {number : Nat} (positive : number ≠ 0) (places : Nat) :
    ∃ whole fraction, IsWhole whole ∧ (∀ digits ∈ fraction, IsDigits digits) ∧
      Decimal.pointText (Decimal.digitText number) places = whole ++ Parts.fractionText fraction ∧
      Lexeme.digitsValue (whole ++ fraction.getD []) = number ∧
      (fraction.getD []).length = places := by
  obtain ⟨visible, digits⟩ := isDigits_digitText number
  have noZero := head?_digitText positive
  unfold Decimal.pointText
  split
  · rename_i none
    refine ⟨Decimal.digitText number, .none, .inr ⟨⟨visible, digits⟩, noZero⟩, ?_, ?_, ?_, ?_⟩
    · simp
    · simp [Parts.fractionText]
    · simp [Decimal.digitsValue_digitText]
    · exact none.symm
  · split
    · rename_i some inside
      refine ⟨_, .some _, .inr ⟨⟨?_, ?_⟩, ?_⟩, ?_, rfl, ?_, ?_⟩
      · rw [← List.length_pos_iff, List.length_take]
        omega
      · exact fun letter member => digits letter (List.mem_of_mem_take member)
      · rw [List.head?_take, if_neg (by omega)]
        exact noZero
      · rintro _ ⟨⟩
        refine ⟨?_, fun letter member => digits letter (List.mem_of_mem_drop member)⟩
        rw [← List.length_pos_iff, List.length_drop]
        omega
      · rw [Option.getD_some, List.take_append_drop, Decimal.digitsValue_digitText]
      · rw [Option.getD_some, List.length_drop]
        omega
    · refine ⟨['0'], .some _, .inl rfl, ?_, rfl, ?_, ?_⟩
      · rintro _ ⟨⟩
        refine ⟨by simp [visible], fun letter member => ?_⟩
        rcases List.mem_append.mp member with zero | digit
        · exact Decimal.isDigit_of_mem_zeros zero
        · exact digits letter digit
      · exact (Decimal.digitsValue_zeros_append (places - (Decimal.digitText number).length + 1)
          _).trans (Decimal.digitsValue_digitText number)
      · rw [Option.getD_some, List.length_append, Decimal.zeros, List.length_replicate]
        omega

theorem digitsValue_mul_le (whole fraction : List Char) :
    Lexeme.digitsValue whole * 10 ^ fraction.length ≤ Lexeme.digitsValue (whole ++ fraction) := by
  have split : Lexeme.digitsValue (whole ++ fraction) =
      Nat.ofDigitChars 10 fraction (Lexeme.digitsValue whole) :=
    Nat.ofDigitChars_append 0
  rw [split, Nat.ofDigitChars_eq_ofDigitChars_zero, Nat.mul_comm]
  exact Nat.le_add_right _ _

theorem digitsValue_whole_lt {whole fraction : List Char} {number : Nat}
    (value : Lexeme.digitsValue (whole ++ fraction) = number)
    (few : (Decimal.digitText number).length ≤ fraction.length + 16) :
    Lexeme.digitsValue whole < 10 ^ 16 := by
  have below := (Nat.length_toDigits_le_iff (by decide) (by omega)).mp few
  have least := digitsValue_mul_le whole fraction
  rw [value] at least
  rw [Nat.pow_add, Nat.mul_comm] at below
  exact Nat.lt_of_mul_lt_mul_right (Nat.lt_of_le_of_lt least below)

section Decimals

variable {decimal : Decimal}

theorem exists_writes_zero (isZero : decimal.digits = 0) :
    ∃ parts : Parts, parts.Writes decimal := by
  refine ⟨⟨false, ['0'], some ['0'], none⟩, ⟨.inl rfl, ?_, by simp⟩, ?_, rfl, ?_, ?_, by simp⟩
  · rintro _ ⟨⟩
    exact isDigits_zero
  · rw [Decimal.jsonText, if_pos isZero]
    rfl
  · have noDigits : Lexeme.digitsValue ['0', '0'] = 0 := rfl
    simp [Parts.decimal, Decimal.rational, noDigits, isZero]
  · change Lexeme.digitsValue ['0'] < 10 ^ 16
    decide

theorem exists_writes_exponent (positive : decimal.digits ≠ 0)
    (far : decimal.leadExponent < -5 ∨ 16 ≤ decimal.leadExponent) :
    ∃ parts : Parts, parts.Writes decimal := by
  obtain ⟨whole, fraction, isWhole, isFraction, text, value, places⟩ :=
    exists_pointText positive ((Decimal.digitText decimal.digits).length - 1)
  have visible : 0 < (Decimal.digitText decimal.digits).length := Nat.length_toDigits_pos
  have lead : decimal.leadExponent =
    decimal.exponent + (Decimal.digitText decimal.digits).length - 1 := rfl
  refine ⟨⟨false, whole, fraction, some (decide (decimal.leadExponent < 0),
    Decimal.digitText decimal.leadExponent.natAbs)⟩, ⟨isWhole, isFraction, ?_⟩, ?_, ?_, ?_, ?_, ?_⟩
  · rintro _ ⟨⟩
    exact isDigits_digitText _
  · rw [Decimal.jsonText, if_neg positive, if_pos far]
    dsimp only
    rw [text]
    by_cases below : decimal.leadExponent < 0 <;>
      simp [Parts.magnitudeText, Parts.exponentText, Decimal.signedText, Decimal.integerText, below]
  · simp
  · have power : (if decide (decimal.leadExponent < 0) = true
        then -(Lexeme.digitsValue (Decimal.digitText decimal.leadExponent.natAbs) : Int)
        else Lexeme.digitsValue (Decimal.digitText decimal.leadExponent.natAbs)) =
          decimal.leadExponent := by
      rw [Decimal.digitsValue_digitText]
      by_cases below : decimal.leadExponent < 0
      · rw [if_pos (decide_eq_true below)]
        omega
      · rw [if_neg (by simpa using below)]
        omega
    have last : decimal.leadExponent - ((Decimal.digitText decimal.digits).length - 1 : ℕ) =
        decimal.exponent := by omega
    rw [Parts.decimal, Parts.power, value, places]
    dsimp only
    rw [power, last]
  · exact digitsValue_whole_lt value (by omega)
  · rintro _ ⟨⟩
    exact ⟨positive, rfl⟩

theorem exists_writes_point (positive : decimal.digits ≠ 0)
    (near : ¬(decimal.leadExponent < -5 ∨ 16 ≤ decimal.leadExponent)) (below : decimal.exponent < 0) :
    ∃ parts : Parts, parts.Writes decimal := by
  obtain ⟨whole, fraction, isWhole, isFraction, text, value, places⟩ :=
    exists_pointText positive (-decimal.exponent).toNat
  have lead : decimal.leadExponent =
    decimal.exponent + (Decimal.digitText decimal.digits).length - 1 := rfl
  refine ⟨⟨false, whole, fraction, none⟩, ⟨isWhole, isFraction, by simp⟩, ?_, ?_, ?_, ?_, by simp⟩
  · rw [Decimal.jsonText, if_neg positive, if_neg near, if_pos below]
    simp [Parts.magnitudeText, Parts.exponentText, Decimal.plainText, below, text]
  · cases fraction with
    | none =>
        have none : (-decimal.exponent).toNat = 0 := places.symm
        omega
    | some digits => rfl
  · have last : (0 : Int) - (-decimal.exponent).toNat = decimal.exponent := by omega
    rw [Parts.decimal, Parts.power, value, places]
    dsimp only
    rw [last]
  · exact digitsValue_whole_lt value (by omega)

theorem exists_writes_whole (positive : decimal.digits ≠ 0)
    (near : ¬(decimal.leadExponent < -5 ∨ 16 ≤ decimal.leadExponent))
    (nonneg : ¬decimal.exponent < 0) :
    ∃ parts : Parts, parts.Writes decimal := by
  obtain ⟨count, power⟩ : ∃ count : ℕ, decimal.exponent = count :=
    ⟨decimal.exponent.toNat, by omega⟩
  have lead : decimal.leadExponent =
    decimal.exponent + (Decimal.digitText decimal.digits).length - 1 := rfl
  have visible : 0 < (Decimal.digitText decimal.digits).length := Nat.length_toDigits_pos
  have value : Lexeme.digitsValue (Decimal.digitText decimal.digits ++ Decimal.zeros count) =
      decimal.digits * 10 ^ count := by
    rw [Decimal.digitsValue_append_zeros, Decimal.digitsValue_digitText]
  refine ⟨⟨false, Decimal.digitText decimal.digits ++ Decimal.zeros count, some ['0'], none⟩,
    ⟨isWhole_append_zeros positive _, ?_, by simp⟩, ?_, rfl, ?_, ?_, by simp⟩
  · rintro _ ⟨⟩
    exact isDigits_zero
  · rw [Decimal.jsonText, if_neg positive, if_neg near, if_neg nonneg, Decimal.plainText,
      if_neg nonneg, if_neg positive, power, Int.toNat_natCast]
    simp [Parts.magnitudeText, Parts.fractionText, Parts.exponentText]
  · have all : Lexeme.digitsValue
        (Decimal.digitText decimal.digits ++ Decimal.zeros count ++ Decimal.zeros 1) =
          decimal.digits * 10 ^ count * 10 ^ 1 := by
      rw [Decimal.digitsValue_append_zeros, value]
    have last : (10 : ℚ) ^ (0 - (1 : ℕ) : ℤ) = 10⁻¹ := by norm_num
    change (Lexeme.digitsValue
        (Decimal.digitText decimal.digits ++ Decimal.zeros count ++ Decimal.zeros 1) : ℚ) *
          10 ^ (0 - (1 : ℕ) : ℤ) = decimal.rational
    rw [all, last, Decimal.rational, power, zpow_natCast]
    push_cast
    ring
  · have short : decimal.digits < 10 ^ (16 - count) :=
      (Nat.length_toDigits_le_iff (by decide) (by omega)).mp
        (show (Decimal.digitText decimal.digits).length ≤ 16 - count by omega)
    have whole : 10 ^ (16 - count) * 10 ^ count = 10 ^ 16 := by
      rw [← Nat.pow_add]
      congr 1
      omega
    dsimp only
    rw [value, ← whole]
    exact Nat.mul_lt_mul_of_pos_right short (Nat.pow_pos (by decide))

end Decimals

/-- What is written for a decimal is a numeral with a point or an exponent. -/
theorem exists_writes (decimal : Decimal) : ∃ parts : Parts, parts.Writes decimal := by
  by_cases isZero : decimal.digits = 0
  · exact exists_writes_zero isZero
  by_cases far : decimal.leadExponent < -5 ∨ 16 ≤ decimal.leadExponent
  · exact exists_writes_exponent isZero far
  by_cases below : decimal.exponent < 0
  · exact exists_writes_point isZero far below
  · exact exists_writes_whole isZero far below

theorem Parts.Writes.withSign {parts : Parts} {decimal : Decimal} (writes : parts.Writes decimal)
    (negative : Bool) : Parts.Writes { parts with negative := negative } decimal where
  wellFormed := ⟨writes.wellFormed.whole, writes.wellFormed.fraction, writes.wellFormed.exponent⟩
  text := writes.text
  fractional := writes.fractional
  same := writes.same
  short := writes.short
  exponent := writes.exponent

theorem Parts.Writes.numberText_eq {parts : Parts} {decimal : Decimal}
    (writes : parts.Writes decimal) {number : Float} {negative : Bool}
    (shortest : Reading.shortest .toEven number = .finite negative decimal) :
    Json.numberText number = Parts.text { parts with negative := negative } := by
  rw [Json.numberText, shortest, Parts.text, (writes.withSign negative).text]

/-- What is written for a whole number is a numeral of digits alone, which keeps the number as
long as it fits into a machine word. -/
theorem exists_parts_integerText {number : Int} (above : -(signedLimit : Int) ≤ number)
    (below : number < wordLimit) :
    ∃ parts : Parts, parts.WellFormed ∧ parts.text = Decimal.integerText number ∧
      ∀ rest, parts.value rest = .ok (.integer number) := by
  have isWhole : IsWhole (Decimal.digitText number.natAbs) := by
    by_cases zero : number.natAbs = 0
    · exact Or.inl (by rw [zero]; rfl)
    · exact Or.inr ⟨isDigits_digitText _, head?_digitText zero⟩
  refine ⟨⟨decide (number < 0), Decimal.digitText number.natAbs, none, none⟩,
    ⟨isWhole, by simp, by simp⟩, ?_, fun rest => ?_⟩
  · by_cases negative : number < 0 <;>
      simp [Parts.text, Parts.magnitudeText, Parts.fractionText, Parts.exponentText,
        Decimal.integerText, negative]
  · by_cases negative : number < 0
    · have some : 0 < number.natAbs := by omega
      have fits : number.natAbs ≤ signedLimit := by omega
      have same : -(number.natAbs : Int) = number := by omega
      simp [Parts.value, Decimal.digitsValue_digitText, negative, some, fits, same,
        -Nat.cast_natAbs]
    · have fits : number.natAbs < wordLimit := by omega
      have same : (number.natAbs : Int) = number := by omega
      simp [Parts.value, Decimal.digitsValue_digitText, negative, fits, same, -Nat.cast_natAbs]

end JsonNumber

/-! ### Tokens -/

theorem JsonToken.first_of_isDigit {letter : Char} (digit : letter.isDigit = true)
    (rest : List Char) : first letter rest = ofNumber false (letter :: rest) := by
  have other (mark : Char) (noDigit : mark.isDigit = false) : letter ≠ mark := by
    rintro rfl
    rw [digit] at noDigit
    cases noDigit
  have noMark : punctuation? letter = none := by
    simp [punctuation?, other '[' rfl, other ']' rfl, other '\x7b' rfl, other '\x7d' rfl,
      other ':' rfl, other ',' rfl]
  rw [first, noMark]
  simp [digit, other '"' rfl, other '-' rfl]

theorem JsonToken.eq_of_isBlank {letter : Char} (blank : isBlank letter = true) :
    letter = ' ' ∨ letter = '\n' ∨ letter = '\t' ∨ letter = '\r' := by
  simpa [isBlank, or_assoc] using blank

theorem JsonToken.isBlank_eq_false_of_isDigit {letter : Char} (digit : letter.isDigit = true) :
    isBlank letter = false := by
  apply Bool.eq_false_iff.mpr
  intro blank
  rcases eq_of_isBlank blank with rfl | rfl | rfl | rfl <;> revert digit <;> decide

theorem JsonToken.cut_literal {letter : Char} {value : Json} {expected : List Char}
    (known : literal? letter = some (value, expected)) (rest : List Char) :
    cut (letter :: (expected ++ rest)) =
      (.scalar (.ok value), letter :: (expected ++ rest), rest) :: cut rest := by
  have first : first letter (expected ++ rest) = (.scalar (.ok value), rest) := by
    unfold literal? at known
    split at known <;> cases known <;> simp [JsonToken.first, punctuation?, literal?, literal]
  have noBlank : isBlank letter = false := by
    unfold literal? at known
    split at known <;> cases known <;> decide
  rw [cut, noBlank, first]
  rfl

theorem JsonToken.cut_numeral {parts : JsonNumber.Parts} (wellFormed : parts.WellFormed)
    {rest : List Char} (ends : Ends rest) :
    cut (parts.text ++ rest) =
      (.scalar (parts.value rest), parts.text ++ rest, rest) :: cut rest := by
  have read := JsonNumber.read_magnitudeText wellFormed ends
  obtain ⟨visible, digits⟩ := wellFormed.whole.isDigits
  cases sign : parts.negative with
  | true =>
      have whole : parts.text ++ rest = '-' :: (parts.magnitudeText ++ rest) := by
        simp [JsonNumber.Parts.text, sign]
      have first : first '-' (parts.magnitudeText ++ rest) = (.scalar (parts.value rest), rest) := by
        rw [sign] at read
        simp [JsonToken.first, punctuation?, ofNumber, read]
      rw [whole, cut, first]
      rfl
  | false =>
      have same : parts.text ++ rest = parts.magnitudeText ++ rest := by
        simp [JsonNumber.Parts.text, sign]
      obtain ⟨letter, tail, whole⟩ := List.exists_cons_of_ne_nil visible
      have digit : letter.isDigit = true := digits letter (whole ▸ List.mem_cons_self)
      obtain ⟨behind, split⟩ : ∃ behind, parts.magnitudeText ++ rest = letter :: behind := by
        simp [JsonNumber.Parts.magnitudeText, whole]
      rw [sign, split] at read
      have first : first letter behind = (.scalar (parts.value rest), rest) := by
        rw [first_of_isDigit digit, ofNumber, read]
      rw [same, split, cut, isBlank_eq_false_of_isDigit digit, first]
      rfl

theorem readJson_of_cut {source text rest : List Char} {value : Except JsonFault Json}
    (cut : JsonToken.cut source = [(.scalar value, text, rest)]) :
    readJson source = (.scalar text value rest, none) := by
  rw [readJson, cut]
  rfl

/-- A number is read wherever it stands as it is where it stands alone. -/
theorem JsonToken.cut_numberText {number other : Float}
    (alone : readDocument Decoder.number (Json.number number).compact = .ok other)
    {rest : List Char} (ends : Ends rest) :
    cut (Json.numberText number ++ rest) =
      (.scalar (.ok (.number other)), Json.numberText number ++ rest, rest) :: cut rest := by
  rw [readDocument, Json.compact, String.toList_ofList, Json.compactText] at alone
  -- Only numbers that are not finite are written as null, and null is no number.
  have notNull : Json.numberText number ≠ "null".toList := by
    intro isNull
    have cutNull : cut "null".toList = [(.scalar (.ok .null), "null".toList, [])] := by
      have split : "null".toList = 'n' :: (['u', 'l', 'l'] ++ []) := rfl
      rw [split, cut_literal rfl, cut]
    rw [isNull, readJson_of_cut cutNull] at alone
    cases alone
  cases shortest : Reading.shortest .toEven number with
  | finite negative magnitude =>
      obtain ⟨unsigned, writes⟩ := JsonNumber.exists_writes magnitude
      have written := writes.numberText_eq shortest
      replace writes := writes.withSign negative
      generalize ({ unsigned with negative := negative } : JsonNumber.Parts) = parts at *
      have cutAlone := cut_numeral writes.wellFormed Lexeme.ends_nil
      rw [List.append_nil, cut] at cutAlone
      rw [written, readJson_of_cut cutAlone] at alone
      cases value : parts.value [] with
      | error fault =>
          rw [value] at alone
          cases alone
      | ok document =>
          obtain ⟨found, rfl, everywhere⟩ := JsonNumber.Parts.value_eq_ok writes.fractional value
          rw [value] at alone
          cases alone
          rw [written, cut_numeral writes.wellFormed ends, everywhere]
  | infinite negative => exact absurd (by rw [Json.numberText, shortest]) notNull
  | notANumber => exact absurd (by rw [Json.numberText, shortest]) notNull

end RelationalLayout
