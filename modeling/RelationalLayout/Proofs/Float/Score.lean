/-
Scores in floating-point numbers.

Rounding does not tell a relation from its mirror, so the laws of scores rest on the
exponential and the logarithm only: on what these give for zeros, for the negative
infinity and for what is not a number.
-/

import RelationalLayout.Proofs.Confidence
import RelationalLayout.Proofs.Float.Opposite

namespace RelationalLayout

open Float.Model (UnpackedFloat Format)

namespace Binary64

/-! ### Signs of results -/

theorem isPlus_roundWithAccuracy (mantissa : Nat) (exponent : Int)
    (accuracy : UnpackedFloat.Accuracy) :
    IsPlus (UnpackedFloat.roundWithAccuracy .binary64 .positive mantissa exponent accuracy) := by
  unfold UnpackedFloat.roundWithAccuracy
  dsimp only
  apply isPlus_dite
  · exact fun _ => .zero
  · exact fun _ => .finite _ _ _

theorem isPlus_mul {first second : UnpackedFloat} (plus : IsPlus first)
    (finite : ∃ mantissa exponent positive,
      second = .finite .positive mantissa exponent positive) :
    IsPlus (UnpackedFloat.mul .binary64 first second) := by
  obtain ⟨mantissa, exponent, positive, rfl⟩ := finite
  cases plus with
  | zero => exact .zero
  | finite => exact isPlus_roundWithAccuracy _ _ _
  | infinity => exact .infinity

theorem isPlus_ofNat (number : Nat) : IsPlus (UnpackedFloat.ofNat .binary64 number) := by
  unfold UnpackedFloat.ofNat UnpackedFloat.ofInt UnpackedFloat.normalize
  split
  · rename_i negative
    exact absurd (compare_lt_iff_lt.mp negative) (Int.not_lt.mpr (Int.natCast_nonneg number))
  · exact .zero
  · exact isPlus_roundWithAccuracy _ _ _

theorem isPlus_ofScientific (number : Nat) :
    IsPlus (UnpackedFloat.ofScientific .binary64 number 0) := by
  unfold UnpackedFloat.ofScientific
  apply isPlus_dite
  · exact fun _ => .zero
  · intro _
    have small : ¬(0 : Int) < -(2 ^ Format.binary64.exponentBits + (number.log2 : Int)) := by
      change ¬(0 : Int) < -(2048 + (number.log2 : Int))
      omega
    rw [if_neg (by decide), if_neg small, if_pos (Int.le_refl 0)]
    exact isPlus_mul (.finite _ _ _) ⟨_, _, _, rfl⟩

theorem isPlus_parts_ofNat (number : Nat) : IsPlus (parts (Float.ofNat number)) := by
  change IsPlus (parts (Float.ofScientific number false 0))
  unfold Float.ofScientific
  split
  · have zerothPower : parts (Float.exactlyRepresentablePowersOfTen[(⟨0, by decide⟩ : Fin 23)]) =
        .finite .positive (2 ^ 52) (-52) (by decide) := rfl
    exact isPlus_packed (isPlus_mul (isPlus_packed (isPlus_ofNat _)) ⟨_, _, _, zerothPower⟩)
  · exact isPlus_packed (isPlus_ofScientific number)

end Binary64

/-! ### Curves -/

/-- What is promised of the exponential and of the logarithm at the edges of their domains. -/
class ElementaryLaws : Prop where
  exp_neg_zero : Float.exp (-0) = Float.exp 0
  exp_neg_infinity : Float.exp (-1 / 0) = 0
  exp_nan : Float.exp (0 / 0) = 0 / 0
  log_zero : Float.log 0 = -1 / 0

namespace FloatScore

open Binary64

variable [ElementaryLaws]

theorem exp_eq_of_alike {left right : Float} (alike : Alike left right) :
    Float.exp left = Float.exp right := by
  have isZero {number : Float} {sign : UnpackedFloat.Sign} (zero : parts number = .zero sign) :
      Float.exp number = Float.exp 0 := by
    cases sign with
    | positive => exact congrArg Float.exp (eq_of_parts_eq zero)
    | negative =>
        have negative : number = -0 := eq_of_parts_eq zero
        rw [negative]
        exact ElementaryLaws.exp_neg_zero
  unfold Alike at alike
  generalize leftParts : parts left = first at alike
  generalize rightParts : parts right = second at alike
  cases alike with
  | refl => rw [eq_of_parts_eq (leftParts.trans rightParts.symm)]
  | zero => rw [isZero leftParts, isZero rightParts]

instance : ExactNegation Float where
  Alike := Alike
  symm := Alike.symm
  trans := Alike.trans
  neg := Alike.neg
  sub := Alike.sub
  mul factor := Alike.mul factor
  div := Alike.div
  neg_neg := Alike.neg_neg
  sub_swap := Alike.sub_swap
  sub_neg_neg := Alike.sub_neg_neg
  mul_comm := Alike.mul_comm
  mul_neg := Alike.mul_neg
  neg_mul := Alike.neg_mul
  exp_eq := exp_eq_of_alike

/-! ### The mean of zeros -/

omit [ElementaryLaws] in
theorem foldl_add_neg_infinity (count : Nat) :
    (List.replicate count (-1 / 0 : Float)).foldl (· + ·) (-1 / 0) = -1 / 0 := by
  induction count with
  | zero => rfl
  | succ count ih =>
      have absorbed : (-1 / 0 : Float) + -1 / 0 = -1 / 0 := eq_of_parts_eq rfl
      rw [List.replicate_succ, List.foldl_cons, absorbed]
      exact ih

omit [ElementaryLaws] in
/-- The negative infinity by a count is itself, and not a number when the count is infinite. -/
theorem neg_infinity_div_ofNat (count : Nat) :
    (-1 / 0 : Float) / Float.ofNat count = -1 / 0 ∨ (-1 / 0 : Float) / Float.ofNat count = 0 / 0 := by
  have quotient : parts ((-1 / 0 : Float) / Float.ofNat count) =
      unpack (pack (UnpackedFloat.div .binary64 (.infinity .negative) (parts (Float.ofNat count)))) :=
    rfl
  have plus := isPlus_parts_ofNat count
  generalize parts (Float.ofNat count) = divisor at quotient plus
  cases plus with
  | zero | finite => exact Or.inl (eq_of_parts_eq quotient)
  | infinity => exact Or.inr (eq_of_parts_eq quotient)

omit [ElementaryLaws] in
theorem exceeds_nan (threshold : Float) : Scalar.exceeds (0 / 0) threshold = false := by
  have incomparable (number : UnpackedFloat) : number.lt .notANumber = false := by
    cases number <;> rfl
  have below : Float.lt threshold (0 / 0) = false := by
    change decide (UnpackedFloat.lt (parts threshold) (parts (0 / 0)) = true) = false
    rw [show parts (0 / 0) = .notANumber from rfl, incomparable]
    rfl
  change decide (Float.lt threshold (0 / 0) = true) = false
  rw [below]
  rfl

theorem exceeds_zeros (count : Nat) {threshold : Float}
    (nonnegative : Scalar.isNegative threshold = false) :
    Scalar.exceeds (geometricMean (List.replicate count (Scalar.zero : Float))) threshold = false := by
  cases count with
  | zero => exact nonnegative
  | succ count =>
      have sum : ((List.replicate (count + 1) (Scalar.zero : Float)).map Scalar.log).foldl
          (· + ·) Scalar.zero = -1 / 0 := by
        have logarithm : Scalar.log (Scalar.zero : Float) = -1 / 0 := ElementaryLaws.log_zero
        have first : (Scalar.zero : Float) + -1 / 0 = -1 / 0 := eq_of_parts_eq rfl
        rw [List.map_replicate, logarithm, List.replicate_succ, List.foldl_cons, first]
        exact foldl_add_neg_infinity count
      have mean : geometricMean (List.replicate (count + 1) (Scalar.zero : Float)) =
          Float.exp (-1 / 0 / Float.ofNat (count + 1)) := by
        unfold geometricMean
        rw [sum, List.length_replicate]
        rfl
      rw [mean]
      rcases neg_infinity_div_ofNat (count + 1) with quotient | quotient
      · rw [quotient, ElementaryLaws.exp_neg_infinity]
        exact nonnegative
      · rw [quotient, ElementaryLaws.exp_nan]
        exact exceeds_nan threshold

end FloatScore

/-- Floating-point numbers have the laws of scores as far as the library keeps its promises. -/
instance [ElementaryLaws] : ScoringLaws Float where
  rising_swap := ExactNegation.rising_swap
  bell_swap := ExactNegation.bell_swap
  exceeds_zeros count _ nonnegative := FloatScore.exceeds_zeros count nonnegative

end RelationalLayout
