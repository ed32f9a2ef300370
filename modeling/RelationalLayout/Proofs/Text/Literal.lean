/-
The number literals of a text.

A literal spells a decimal with its digits and its point, whatever zeros it is padded
with, and it is read as the number nearest to that decimal. So the literals that are
not read as finite numbers are those that spell too large a decimal.
-/

import Mathlib.Data.List.TakeWhile
import RelationalLayout.Proofs.Float.Overflow
import RelationalLayout.Proofs.Text.Grammar

namespace RelationalLayout

namespace Lexeme

/-- The decimal that a stretch of digits spells; a sign makes no difference. -/
def magnitude (stretch : List Char) : Decimal :=
  { digits := digitsValue (stretch.filter Char.isDigit)
    exponent := -((stretch.dropWhile (· ≠ '.')).drop 1).length }

def literal? : Lexeme → Option Decimal
  | .token (.number _) stretch => some (magnitude stretch)
  | _ => none

end Lexeme

def literals (source : String) : List Decimal :=
  (Lexeme.cut source.toList).filterMap Lexeme.literal?

namespace Lexeme

/-! ### Numerals -/

theorem ne_point_of_isDigit {letter : Char} (digit : letter.isDigit = true) : letter ≠ '.' := by
  intro same
  subst same
  revert digit
  decide

theorem magnitude_whole {digits : List Char} (whole : ∀ letter ∈ digits, letter.isDigit = true) :
    magnitude digits = { digits := digitsValue digits, exponent := 0 } := by
  have noPoint : digits.dropWhile (· ≠ '.') = [] := by
    rw [List.dropWhile_eq_nil_iff]
    exact fun letter member => decide_eq_true (ne_point_of_isDigit (whole letter member))
  rw [magnitude, List.filter_eq_self.mpr whole, noPoint]
  rfl

theorem magnitude_point {digits fraction : List Char}
    (whole : ∀ letter ∈ digits, letter.isDigit = true)
    (behind : ∀ letter ∈ fraction, letter.isDigit = true) :
    magnitude (digits ++ '.' :: fraction) =
      { digits := digitsValue (digits ++ fraction), exponent := -fraction.length } := by
  have stops : ∀ letter ∈ ('.' :: fraction).head?, decide (letter ≠ '.') = false := by
    intro letter atHead
    cases atHead
    decide
  have noPoint : ∀ letter ∈ digits, decide (letter ≠ '.') = true :=
    fun letter member => decide_eq_true (ne_point_of_isDigit (whole letter member))
  have digitsOnly : (digits ++ '.' :: fraction).filter Char.isDigit = digits ++ fraction := by
    rw [List.filter_append, List.filter_cons_of_neg (by decide), List.filter_eq_self.mpr whole,
      List.filter_eq_self.mpr behind]
  rw [magnitude, digitsOnly, dropWhile_append_of_all noPoint stops]
  rfl

/-- A numeral is read as the number nearest to what it spells. -/
theorem numeral_snd (text : List Char) :
    (numeral text).2 = (magnitude (numeral text).1).nearest := by
  have whole : ∀ letter ∈ text.takeWhile Char.isDigit, letter.isDigit = true :=
    List.all_eq_true.mp List.all_takeWhile
  have behind := isDigit_of_mem_fractionDigits (text.dropWhile Char.isDigit)
  simp only [numeral]
  split
  · rename_i none
    rw [List.isEmpty_iff] at none
    rw [magnitude_whole whole, none, List.append_nil]
    rfl
  · rw [magnitude_point whole behind]

theorem eq_nearest_of_first {letter : Char} {rest stretch : List Char} {value : Float}
    (read : first letter rest = .token (.number value) stretch) :
    value = (magnitude stretch).nearest ∨ value = -(magnitude stretch).nearest := by
  cases firstToken_of_first read with
  | word _ same => exact absurd same.symm (Token.ofWord_ne_number _ _)
  | quoted _ _ same => cases same
  | digits _ same spelled =>
      rw [Token.number.inj same, spelled]
      exact Or.inl (numeral_snd _)
  | minus isMinus _ same spelled =>
      rw [Token.number.inj same, spelled, isMinus]
      exact Or.inr (congrArg (- ·) (numeral_snd rest))
  | mark isMark =>
      have member := mem_marks_of_mark? isMark
      simp at member

end Lexeme

/-! ### Literals -/

open Lexeme

theorem isFinite_iff_of_mem_cut {text stretch : List Char} {value : Float}
    (member : .token (.number value) stretch ∈ cut text) :
    value.isFinite = true ↔ (magnitude stretch).rational < Binary64.overflow := by
  obtain ⟨letter, rest, read⟩ := exists_first_of_mem_cut member
  rw [← Decimal.isFinite_nearest_iff]
  rcases eq_nearest_of_first read.symm with plus | minus
  · rw [plus]
  · rw [minus, isFinite_neg]

/-- The tokens of a text are read as themselves exactly when none of its literals is too large. -/
theorem literals_lt_overflow_iff {source : String} :
    (∀ literal ∈ literals source, literal.rational < Binary64.overflow) ↔
      ∀ token ∈ Lexeme.tokens (cut source.toList), token.readBack = token := by
  constructor
  · intro small token member
    obtain ⟨lexeme, inside, isToken⟩ := List.mem_filterMap.mp member
    cases token with
    | number value =>
        cases lexeme with
        | token found stretch =>
            cases isToken
            have literal : magnitude stretch ∈ literals source :=
              List.mem_filterMap.mpr ⟨_, inside, rfl⟩
            exact Token.readBack_number.mpr
              ((isFinite_iff_of_mem_cut inside).mpr (small _ literal))
        | _ => cases isToken
    | _ => rfl
  · intro same literal member
    obtain ⟨lexeme, inside, isLiteral⟩ := List.mem_filterMap.mp member
    unfold literal? at isLiteral
    split at isLiteral
    · rename_i value stretch
      cases isLiteral
      have token : .number value ∈ Lexeme.tokens (cut source.toList) :=
        List.mem_filterMap.mpr ⟨_, inside, rfl⟩
      exact (isFinite_iff_of_mem_cut inside).mp (Token.readBack_number.mp (same _ token))
    · cases isLiteral

end RelationalLayout
