/-
Opposites of floating-point numbers.

Rounding treats a number and its opposite alike, so a difference taken the other way
round is the opposite difference, and signs go through products. Only the sign of a
zero may come out differently.
-/

import Mathlib.Order.Compare
import RelationalLayout.Proofs.Float.Packing

namespace RelationalLayout.Binary64

open Float.Model (UnpackedFloat Format)
open Float.Model.UnpackedFloat (Sign)

/-- The same number, whatever the sign of a zero. -/
inductive Same : UnpackedFloat → UnpackedFloat → Prop where
  | refl (number : UnpackedFloat) : Same number number
  | zero (left right : Sign) : Same (.zero left) (.zero right)

namespace Same

variable {first second third : UnpackedFloat}

theorem of_eq (same : first = second) : Same first second := same ▸ .refl first

theorem symm (same : Same first second) : Same second first := by
  cases same with
  | refl => exact .refl _
  | zero left right => exact .zero right left

theorem trans (same : Same first second) (also : Same second third) : Same first third := by
  cases same with
  | refl => exact also
  | zero left middle =>
      cases also with
      | refl => exact .zero left middle
      | zero _ right => exact .zero left right

theorem neg (same : Same first second) : Same first.neg second.neg := by
  cases same with
  | refl => exact .refl _
  | zero left right => exact .zero _ _

theorem packed (same : Same first second) : Same (unpack (pack first)) (unpack (pack second)) := by
  cases same with
  | refl => exact .refl _
  | zero left right =>
      have kept (sign : Sign) : unpack (pack (.zero sign)) = .zero sign :=
        unpack_pack_of_isCanonical trivial
      rw [kept, kept]
      exact .zero left right

end Same

/-! ### Rounding -/

theorem roundWithAccuracy_neg (sign : Sign) (mantissa : Nat) (exponent : Int)
    (accuracy : UnpackedFloat.Accuracy) :
    UnpackedFloat.roundWithAccuracy .binary64 (-sign) mantissa exponent accuracy =
      (UnpackedFloat.roundWithAccuracy .binary64 sign mantissa exponent accuracy).neg := by
  unfold UnpackedFloat.roundWithAccuracy
  dsimp only
  rw [apply_dite UnpackedFloat.neg]
  rfl

theorem round_neg (sign : Sign) (mantissa : Nat) (exponent : Int) :
    UnpackedFloat.round .binary64 (-sign) mantissa exponent =
      (UnpackedFloat.round .binary64 sign mantissa exponent).neg :=
  roundWithAccuracy_neg sign _ _ .exact

theorem normalize_neg (mantissa exponent : Int) :
    Same (UnpackedFloat.normalize .binary64 (-mantissa) exponent .positive)
      (UnpackedFloat.normalize .binary64 mantissa exponent .positive).neg := by
  unfold UnpackedFloat.normalize
  rcases lt_trichotomy mantissa 0 with negative | rfl | positive
  · rw [compare_lt_iff_lt.mpr negative, compare_gt_iff_gt.mpr (Int.neg_pos_of_neg negative)]
    dsimp only
    rw [← round_neg]
    exact .refl _
  · exact .zero _ _
  · rw [compare_gt_iff_gt.mpr positive, compare_lt_iff_lt.mpr (Int.neg_neg_of_pos positive)]
    dsimp only
    rw [← round_neg, Int.neg_neg]
    exact .refl _

/-! ### Operations -/

theorem sub_swap (first second : UnpackedFloat) :
    Same (UnpackedFloat.sub .binary64 second first)
      (UnpackedFloat.sub .binary64 first second).neg := by
  cases first with
  | notANumber => cases second <;> exact .refl _
  | infinity sign =>
      cases second with
      | infinity other => cases sign <;> cases other <;> exact .refl _
      | notANumber | zero | finite => exact .refl _
  | zero sign =>
      cases second with
      | zero other => cases sign <;> cases other <;> exact .zero _ _
      | notANumber => exact .refl _
      | infinity other | finite other => exact .of_eq (Binary64.neg_neg _).symm
  | finite sign mantissa exponent positive =>
      cases second with
      | notANumber | zero => exact .refl _
      | infinity other => exact .of_eq (Binary64.neg_neg _).symm
      | finite other otherMantissa otherExponent otherPositive =>
          unfold UnpackedFloat.sub
          dsimp only
          rw [min_comm otherExponent exponent, ← Int.neg_sub]
          exact normalize_neg _ _

theorem apply_neg (sign : Sign) (number : Int) : (-sign).apply number = -sign.apply number := by
  cases sign with
  | negative => exact (Int.neg_neg number).symm
  | positive => rfl

theorem sub_neg_neg (first second : UnpackedFloat) :
    Same (UnpackedFloat.sub .binary64 first.neg second.neg)
      (UnpackedFloat.sub .binary64 first second).neg := by
  cases first with
  | notANumber => cases second <;> exact .refl _
  | infinity sign =>
      cases second with
      | infinity other => cases sign <;> cases other <;> exact .refl _
      | notANumber | zero | finite => exact .refl _
  | zero sign =>
      cases second with
      | zero other => cases sign <;> cases other <;> exact .zero _ _
      | notANumber | infinity | finite => exact .refl _
  | finite sign mantissa exponent positive =>
      cases second with
      | notANumber | zero | infinity => exact .refl _
      | finite other otherMantissa otherExponent otherPositive =>
          have opposites (left right : Int) : -left - -right = -(left - right) := by omega
          change Same (UnpackedFloat.sub .binary64 (.finite (-sign) mantissa exponent positive)
            (.finite (-other) otherMantissa otherExponent otherPositive)) _
          unfold UnpackedFloat.sub
          dsimp only
          rw [apply_neg, apply_neg, opposites]
          exact normalize_neg _ _

theorem sub_same {first other : UnpackedFloat} (same : Same first other) (second : UnpackedFloat) :
    Same (UnpackedFloat.sub .binary64 first second) (UnpackedFloat.sub .binary64 other second) := by
  cases same with
  | refl => exact .refl _
  | zero left right =>
      cases second with
      | notANumber | infinity | finite => exact .refl _
      | zero sign => cases left <;> cases right <;> cases sign <;> exact .zero _ _

theorem sign_mul_neg (left right : Sign) : left * -right = -(left * right) := by
  cases left <;> cases right <;> rfl

theorem mul_neg (first second : UnpackedFloat) :
    UnpackedFloat.mul .binary64 first second.neg =
      (UnpackedFloat.mul .binary64 first second).neg := by
  cases first with
  | notANumber => cases second <;> rfl
  | infinity sign =>
      cases second with
      | notANumber | zero => rfl
      | infinity other | finite other =>
          exact congrArg UnpackedFloat.infinity (sign_mul_neg sign other)
  | zero sign =>
      cases second with
      | notANumber | infinity => rfl
      | zero other | finite other => exact congrArg UnpackedFloat.zero (sign_mul_neg sign other)
  | finite sign mantissa exponent positive =>
      cases second with
      | notANumber => rfl
      | infinity other => exact congrArg UnpackedFloat.infinity (sign_mul_neg sign other)
      | zero other => exact congrArg UnpackedFloat.zero (sign_mul_neg sign other)
      | finite other otherMantissa otherExponent otherPositive =>
          change UnpackedFloat.roundWithAccuracy .binary64 (sign * -other) _ _ _ = _
          rw [sign_mul_neg, roundWithAccuracy_neg]
          rfl

theorem mul_comm (first second : UnpackedFloat) :
    UnpackedFloat.mul .binary64 first second = UnpackedFloat.mul .binary64 second first := by
  have signs (left right : Sign) : left * right = right * left := by
    cases left <;> cases right <;> rfl
  cases first <;> cases second <;> unfold UnpackedFloat.mul <;> dsimp only <;> rw [signs]
  rw [Nat.mul_comm, Int.add_comm]

theorem neg_mul (first second : UnpackedFloat) :
    UnpackedFloat.mul .binary64 first.neg second =
      (UnpackedFloat.mul .binary64 first second).neg := by
  rw [mul_comm, mul_neg, mul_comm]

theorem mul_same (first : UnpackedFloat) {second other : UnpackedFloat} (same : Same second other) :
    Same (UnpackedFloat.mul .binary64 first second) (UnpackedFloat.mul .binary64 first other) := by
  cases same with
  | refl => exact .refl _
  | zero left right =>
      cases first with
      | notANumber | infinity => exact .refl _
      | zero | finite => exact .zero _ _

theorem div_same {first other : UnpackedFloat} (same : Same first other) (second : UnpackedFloat) :
    Same (UnpackedFloat.div .binary64 first second) (UnpackedFloat.div .binary64 other second) := by
  cases same with
  | refl => exact .refl _
  | zero left right =>
      cases second with
      | notANumber | zero => exact .refl _
      | infinity | finite => exact .zero _ _

/-! ### Numbers in bits -/

def parts (number : Float) : UnpackedFloat := number.toModel.unpack

theorem parts_neg (number : Float) : parts (-number) = (parts number).neg :=
  unpack_pack_of_isCanonical (isCanonical_neg (isCanonical_unpack _))

theorem eq_of_parts_eq {left right : Float} (same : parts left = parts right) : left = right := by
  obtain ⟨⟨leftBits, leftValid⟩⟩ := left
  obtain ⟨⟨rightBits, rightValid⟩⟩ := right
  have bits : leftBits.toBitVec = rightBits.toBitVec :=
    (pack_unpack leftValid).symm.trans ((congrArg pack same).trans (pack_unpack rightValid))
  have words : leftBits = rightBits := UInt64.toBitVec_inj.mp bits
  subst words
  rfl

def Alike (left right : Float) : Prop := Same (parts left) (parts right)

namespace Alike

variable {first second third : Float}

theorem symm (alike : Alike first second) : Alike second first := Same.symm alike

theorem trans (alike : Alike first second) (also : Alike second third) : Alike first third :=
  Same.trans alike also

theorem neg (alike : Alike first second) : Alike (-first) (-second) := by
  rw [Alike, parts_neg, parts_neg]
  exact Same.neg alike

theorem neg_neg (number : Float) : Alike (- -number) number := by
  rw [Alike, parts_neg, parts_neg, Binary64.neg_neg]
  exact .refl _

theorem packed_neg {number other : UnpackedFloat} (same : Same number other.neg) :
    Same (unpack (pack number)) (unpack (pack other)).neg := by
  rw [← unpack_pack_neg]
  exact same.packed

theorem sub_swap (first second : Float) : Alike (second - first) (-(first - second)) := by
  rw [Alike, parts_neg]
  exact packed_neg (Binary64.sub_swap (parts first) (parts second))

theorem sub_neg_neg (first second : Float) : Alike (-first - -second) (-(first - second)) := by
  rw [Alike, parts_neg]
  refine packed_neg ?_
  have opposites := Binary64.sub_neg_neg (parts first) (parts second)
  rw [← parts_neg, ← parts_neg] at opposites
  exact opposites

theorem sub (alike : Alike first second) (third : Float) : Alike (first - third) (second - third) :=
  (sub_same alike (parts third)).packed

theorem mul (factor : Float) (alike : Alike first second) :
    Alike (factor * first) (factor * second) :=
  (mul_same (parts factor) alike).packed

theorem mul_comm (first second : Float) : Alike (first * second) (second * first) :=
  (Same.of_eq (Binary64.mul_comm (parts first) (parts second))).packed

theorem div (alike : Alike first second) (third : Float) : Alike (first / third) (second / third) :=
  (div_same alike (parts third)).packed

theorem mul_neg (first second : Float) : Alike (first * -second) (-(first * second)) := by
  rw [Alike, parts_neg]
  refine packed_neg ?_
  have opposites := Binary64.mul_neg (parts first) (parts second)
  rw [← parts_neg] at opposites
  exact .of_eq opposites

theorem neg_mul (first second : Float) : Alike (-first * second) (-(first * second)) := by
  rw [Alike, parts_neg]
  refine packed_neg ?_
  have opposites := Binary64.neg_mul (parts first) (parts second)
  rw [← parts_neg] at opposites
  exact .of_eq opposites

end Alike

end RelationalLayout.Binary64
