/-
How floating-point numbers are packed into bits.

A number is unpacked into a sign, a mantissa and an exponent, and the result of every
operation is packed again. The sign is a bit of its own, so packing goes together with
taking opposites, and numbers that come out of bits come back from them unchanged.
-/

import Mathlib.Data.List.Basic
import Mathlib.Tactic.NormNum

namespace RelationalLayout.Binary64

open Float.Model (UnpackedFloat Format)
open Float.Model.UnpackedFloat (Sign packComponents unpackSign unpackExponent unpackMantissa)

abbrev pack : UnpackedFloat → BitVec 64 := UnpackedFloat.pack .binary64

abbrev unpack : BitVec 64 → UnpackedFloat := UnpackedFloat.unpack .binary64

theorem finite_congr {sign : Sign} {mantissa other : Nat} {exponent otherExponent : Int}
    {positive : 0 < mantissa} {otherPositive : 0 < other} (sameMantissa : mantissa = other)
    (sameExponent : exponent = otherExponent) :
    UnpackedFloat.finite sign mantissa exponent positive =
      .finite sign other otherExponent otherPositive := by
  subst sameMantissa sameExponent
  rfl

/-! ### Components -/

/-- The number with a sign, a biased exponent and the mantissa without its first bit. -/
def ofComponents (sign : Sign) (exponent : BitVec 11) (mantissa : BitVec 52) : UnpackedFloat :=
  if exponent = -1#11 then
    if mantissa = 0#52 then .infinity sign else .notANumber
  else if exponent = 0#11 then
    if positive : 0 < mantissa.toNat then
      .finite sign mantissa.toNat (-1074) positive
    else
      .zero sign
  else
    .finite sign (2 ^ 52 + mantissa.toNat) ((exponent.toNat : Int) - 1075) (by omega)

theorem toNat_one_append (mantissa : BitVec 52) :
    (1#1 ++ mantissa).toNat = 2 ^ 52 + mantissa.toNat := by
  rw [BitVec.toNat_append, ← Nat.shiftLeft_add_eq_or_of_lt mantissa.isLt, Nat.shiftLeft_eq,
    BitVec.toNat_ofNat]
  norm_num

theorem unpack_eq_ofComponents (bits : BitVec 64) :
    unpack bits = ofComponents (Sign.ofBitVec (@unpackSign .binary64 bits))
      (@unpackExponent .binary64 bits) (@unpackMantissa .binary64 bits) := by
  have bias : (Format.binary64.exponentBias : Int) = 1023 := rfl
  unfold unpack UnpackedFloat.unpack ofComponents
  dsimp only
  rw [bias]
  by_cases last : @unpackExponent .binary64 bits = -1#11
  · rw [if_pos last, if_pos last]
  · rw [if_neg last, if_neg last]
    by_cases first : @unpackExponent .binary64 bits = 0#11
    · rw [if_pos first, if_pos first]
      by_cases mantissaZero : @unpackMantissa .binary64 bits = 0#52
      · rw [dif_pos mantissaZero, dif_neg]
        rw [mantissaZero]
        exact Nat.lt_irrefl 0
      · rw [dif_neg mantissaZero, dif_pos]
        · refine finite_congr rfl ?_
          rw [first]
          rfl
        · rw [Nat.pos_iff_ne_zero]
          exact fun isZero => mantissaZero (BitVec.eq_of_toNat_eq isZero)
    · rw [if_neg first, if_neg first]
      exact finite_congr (toNat_one_append _) rfl

theorem unpackSign_packComponents (sign : Sign) (exponent : BitVec 11) (mantissa : BitVec 52) :
    Sign.ofBitVec (unpackSign (packComponents .binary64 sign exponent mantissa)) = sign := by
  have lastBit (first : BitVec 1) :
      (first ++ exponent ++ mantissa).getLsbD 63 = first.getLsbD 0 := by
    rw [BitVec.getLsbD_append, BitVec.getLsbD_append]
    simp only [Nat.reduceLT, if_false, Nat.reduceSub]
  have bits : unpackSign (packComponents .binary64 sign exponent mantissa) = sign.toBitVec := by
    ext index inside
    obtain rfl : index = 0 := by omega
    unfold unpackSign packComponents
    simp only [BitVec.getElem_cast, BitVec.extractLsb, BitVec.getElem_extractLsb']
    rw [← BitVec.getLsbD_eq_getElem]
    exact lastBit sign.toBitVec
  rw [bits]
  cases sign <;> rfl

theorem unpack_packComponents (sign : Sign) (exponent : BitVec 11) (mantissa : BitVec 52) :
    unpack (packComponents .binary64 sign exponent mantissa) =
      ofComponents sign exponent mantissa := by
  rw [unpack_eq_ofComponents, unpackSign_packComponents,
    UnpackedFloat.unpackExponent_packComponents, UnpackedFloat.unpackMantissa_packComponents]

/-! ### Opposites -/

theorem sign_neg_neg (sign : Sign) : - -sign = sign := by
  cases sign <;> rfl

theorem neg_neg (number : UnpackedFloat) : number.neg.neg = number := by
  cases number with
  | notANumber => rfl
  | zero sign => exact congrArg UnpackedFloat.zero (sign_neg_neg sign)
  | infinity sign => exact congrArg UnpackedFloat.infinity (sign_neg_neg sign)
  | finite sign mantissa exponent positive =>
      exact congrArg (fun sign => UnpackedFloat.finite sign mantissa exponent positive)
        (sign_neg_neg sign)

theorem ofComponents_neg (sign : Sign) (exponent : BitVec 11) (mantissa : BitVec 52) :
    ofComponents (-sign) exponent mantissa = (ofComponents sign exponent mantissa).neg := by
  unfold ofComponents
  by_cases last : exponent = -1#11
  · rw [if_pos last, if_pos last]
    split <;> rfl
  · rw [if_neg last, if_neg last]
    by_cases first : exponent = 0#11
    · rw [if_pos first, if_pos first]
      by_cases positive : 0 < mantissa.toNat
      · rw [dif_pos positive, dif_pos positive]
        rfl
      · rw [dif_neg positive, dif_neg positive]
        rfl
    · rw [if_neg first, if_neg first]
      rfl

theorem unpack_packComponents_neg (sign : Sign) (exponent : BitVec 11) (mantissa : BitVec 52) :
    unpack (packComponents .binary64 (-sign) exponent mantissa) =
      (unpack (packComponents .binary64 sign exponent mantissa)).neg := by
  rw [unpack_packComponents, unpack_packComponents, ofComponents_neg]

theorem unpack_pack_neg (number : UnpackedFloat) :
    unpack (pack number.neg) = (unpack (pack number)).neg := by
  cases number with
  | notANumber => rfl
  | infinity sign | zero sign => exact unpack_packComponents_neg _ _ _
  | finite sign mantissa exponent positive =>
      change unpack (pack (.finite (-sign) mantissa exponent positive)) = _
      unfold pack UnpackedFloat.pack
      dsimp only
      split
      · exact unpack_packComponents_neg _ _ _
      · split <;> exact unpack_packComponents_neg _ _ _

/-! ### Canonical numbers -/

/-- Finite numbers have the mantissa and the exponent that they are packed with. -/
def IsCanonical : UnpackedFloat → Prop
  | .finite _ mantissa exponent _ =>
      mantissa < 2 ^ 53 ∧ -1074 ≤ exponent ∧ exponent ≤ 971 ∧
        (2 ^ 52 ≤ mantissa ∨ exponent = -1074)
  | _ => True

theorem isCanonical_neg {number : UnpackedFloat} (canonical : IsCanonical number) :
    IsCanonical number.neg := by
  cases number <;> exact canonical

theorem isCanonical_ofComponents (sign : Sign) (exponent : BitVec 11) (mantissa : BitVec 52) :
    IsCanonical (ofComponents sign exponent mantissa) := by
  unfold ofComponents
  by_cases last : exponent = -1#11
  · rw [if_pos last]
    split <;> trivial
  · have below := mantissa.isLt
    have exponentBelow := exponent.isLt
    have notLast : exponent.toNat ≠ 2047 :=
      fun isLast => last (BitVec.eq_of_toNat_eq isLast)
    rw [if_neg last]
    by_cases first : exponent = 0#11
    · rw [if_pos first]
      by_cases positive : 0 < mantissa.toNat
      · rw [dif_pos positive]
        exact ⟨Nat.lt_trans below (by norm_num), Int.le_refl _, by norm_num, Or.inr rfl⟩
      · rw [dif_neg positive]
        trivial
    · have notFirst : exponent.toNat ≠ 0 :=
        fun isFirst => first (BitVec.eq_of_toNat_eq isFirst)
      rw [if_neg first]
      refine ⟨?_, ?_, ?_, Or.inl (Nat.le_add_right _ _)⟩
      · omega
      · omega
      · omega

theorem isCanonical_unpack (bits : BitVec 64) : IsCanonical (unpack bits) := by
  rw [unpack_eq_ofComponents]
  exact isCanonical_ofComponents _ _ _

theorem exists_eq_ofComponents {number : UnpackedFloat} (canonical : IsCanonical number) :
    number = .notANumber ∨ ∃ (sign : Sign) (exponent : BitVec 11) (mantissa : BitVec 52),
      (exponent = -1#11 → mantissa = 0#52) ∧ number = ofComponents sign exponent mantissa := by
  cases number with
  | notANumber => exact Or.inl rfl
  | infinity sign => exact Or.inr ⟨sign, -1#11, 0#52, fun _ => rfl, rfl⟩
  | zero sign => exact Or.inr ⟨sign, 0#11, 0#52, fun _ => rfl, rfl⟩
  | finite sign mantissa exponent positive =>
      obtain ⟨below, least, greatest, place⟩ := canonical
      refine Or.inr ⟨sign, ?_⟩
      by_cases normal : 2 ^ 52 ≤ mantissa
      · have exponentBits : (BitVec.ofNat 11 (exponent + 1075).toNat).toNat =
            (exponent + 1075).toNat := by
          rw [BitVec.toNat_ofNat, Nat.mod_eq_of_lt]
          omega
        have mantissaBits : (BitVec.ofNat 52 mantissa).toNat = mantissa - 2 ^ 52 := by
          rw [BitVec.toNat_ofNat]
          omega
        have notLast : BitVec.ofNat 11 (exponent + 1075).toNat ≠ -1#11 := by
          intro isLast
          have top := exponentBits.symm.trans (congrArg BitVec.toNat isLast)
          change _ = 2047 at top
          omega
        have notFirst : BitVec.ofNat 11 (exponent + 1075).toNat ≠ 0#11 := by
          intro isFirst
          have bottom := exponentBits.symm.trans (congrArg BitVec.toNat isFirst)
          change _ = 0 at bottom
          omega
        refine ⟨_, BitVec.ofNat 52 mantissa, fun isLast => absurd isLast notLast, ?_⟩
        rw [ofComponents, if_neg notLast, if_neg notFirst]
        refine finite_congr ?_ ?_
        · rw [mantissaBits]
          omega
        · rw [exponentBits]
          omega
      · have mantissaBits : (BitVec.ofNat 52 mantissa).toNat = mantissa := by
          rw [BitVec.toNat_ofNat, Nat.mod_eq_of_lt (not_le.mp normal)]
        refine ⟨0#11, BitVec.ofNat 52 mantissa, fun impossible => absurd impossible (by decide), ?_⟩
        rw [ofComponents, if_neg (by decide), if_pos rfl, dif_pos (mantissaBits.symm ▸ positive)]
        exact finite_congr mantissaBits.symm (place.resolve_left normal)

/-! ### Positive numbers -/

inductive IsPlus : UnpackedFloat → Prop where
  | zero : IsPlus (.zero .positive)
  | finite (mantissa : Nat) (exponent : Int) (positive : 0 < mantissa) :
      IsPlus (.finite .positive mantissa exponent positive)
  | infinity : IsPlus (.infinity .positive)

theorem isPlus_dite {condition : Prop} [Decidable condition] {first : condition → UnpackedFloat}
    {second : ¬condition → UnpackedFloat} (plusFirst : ∀ holds, IsPlus (first holds))
    (plusSecond : ∀ fails, IsPlus (second fails)) :
    IsPlus (if holds : condition then first holds else second holds) := by
  by_cases holds : condition
  · rw [dif_pos holds]
    exact plusFirst holds
  · rw [dif_neg holds]
    exact plusSecond holds

theorem isPlus_ofComponents {exponent : BitVec 11} {mantissa : BitVec 52}
    (isNumber : exponent = -1#11 → mantissa = 0#52) :
    IsPlus (ofComponents .positive exponent mantissa) := by
  unfold ofComponents
  by_cases last : exponent = -1#11
  · rw [if_pos last, if_pos (isNumber last)]
    exact .infinity
  · rw [if_neg last]
    by_cases first : exponent = 0#11
    · rw [if_pos first]
      by_cases positive : 0 < mantissa.toNat
      · rw [dif_pos positive]
        exact .finite _ _ _
      · rw [dif_neg positive]
        exact .zero
    · rw [if_neg first]
      exact .finite _ _ _

theorem isPlus_packComponents {exponent : BitVec 11} {mantissa : BitVec 52}
    (isNumber : exponent = -1#11 → mantissa = 0#52) :
    IsPlus (unpack (packComponents .binary64 .positive exponent mantissa)) := by
  rw [unpack_packComponents]
  exact isPlus_ofComponents isNumber

theorem isPlus_packed {number : UnpackedFloat} (plus : IsPlus number) :
    IsPlus (unpack (pack number)) := by
  cases plus with
  | zero | infinity => exact isPlus_packComponents fun _ => rfl
  | finite mantissa exponent positive =>
      unfold pack UnpackedFloat.pack
      dsimp only
      split
      · exact isPlus_packComponents fun _ => rfl
      · rename_i fits
        split
        · refine isPlus_packComponents fun isLast => ?_
          have last := congrArg BitVec.toNat isLast
          rw [BitVec.toNat_ofNat, Nat.mod_eq_of_lt (by omega)] at last
          change _ = 2047 at last
          omega
        · exact isPlus_packComponents fun impossible => absurd impossible (by decide)

/-! ### Packing components -/

theorem packComponents_unpack (bits : BitVec 64) :
    packComponents .binary64 (Sign.ofBitVec (@unpackSign .binary64 bits))
      (@unpackExponent .binary64 bits) (@unpackMantissa .binary64 bits) = bits := by
  have signBit (bit : BitVec 1) : (Sign.ofBitVec bit).toBitVec = bit := by
    revert bit
    decide
  unfold packComponents unpackSign
  simp only [signBit, unpackExponent, unpackMantissa, BitVec.extractLsb]
  ext index inside
  grind

theorem pack_ofComponents (sign : Sign) (exponent : BitVec 11) (mantissa : BitVec 52)
    (isNumber : exponent = -1#11 → mantissa = 0#52) :
    pack (ofComponents sign exponent mantissa) =
      packComponents .binary64 sign exponent mantissa := by
  have below := mantissa.isLt
  have exponentBelow := exponent.isLt
  have width : Format.binary64.mantissaBits = 53 := rfl
  have bias : (Format.binary64.exponentBias : Int) = 1023 := rfl
  unfold ofComponents
  by_cases last : exponent = -1#11
  · rw [if_pos last, if_pos (isNumber last), last, isNumber last]
    rfl
  · rw [if_neg last]
    have notTop : exponent.toNat ≠ 2047 :=
      fun isTop => last (BitVec.eq_of_toNat_eq isTop)
    by_cases first : exponent = 0#11
    · rw [if_pos first]
      subst first
      by_cases positive : 0 < mantissa.toNat
      · rw [dif_pos positive]
        have log := (Nat.log2_lt (Nat.pos_iff_ne_zero.mp positive)).mpr below
        have biased : (-1074 + (Format.binary64.exponentBias : Int) + (52 : Nat)).toNat = 1 := rfl
        unfold pack UnpackedFloat.pack
        simp only [biased, width]
        rw [if_neg (by decide), if_neg (by omega), BitVec.ofNat_toNat, BitVec.setWidth_eq]
      · rw [dif_neg positive]
        have zero : mantissa = 0#52 := BitVec.eq_of_toNat_eq (Nat.eq_zero_of_not_pos positive)
        rw [zero]
        rfl
    · rw [if_neg first]
      have notBottom : exponent.toNat ≠ 0 :=
        fun isBottom => first (BitVec.eq_of_toNat_eq isBottom)
      have log : (2 ^ 52 + mantissa.toNat).log2 = 52 := by
        have atLeast := (Nat.le_log2 (by omega : 2 ^ 52 + mantissa.toNat ≠ 0)).mpr
          (Nat.le_add_right (2 ^ 52) _)
        have atMost := (Nat.log2_lt (by omega : 2 ^ 52 + mantissa.toNat ≠ 0)).mpr
          (by omega : 2 ^ 52 + mantissa.toNat < 2 ^ 53)
        omega
      have biased : ((exponent.toNat : Int) - 1075 + (Format.binary64.exponentBias : Int) +
          (52 : Nat)).toNat = exponent.toNat := by
        rw [bias]
        omega
      have exponentBits : BitVec.ofNat 11 exponent.toNat = exponent := by
        rw [BitVec.ofNat_toNat, BitVec.setWidth_eq]
      have mantissaBits : BitVec.ofNat 52 (2 ^ 52 + mantissa.toNat) = mantissa := by
        refine BitVec.eq_of_toNat_eq ?_
        rw [BitVec.toNat_ofNat]
        omega
      unfold pack UnpackedFloat.pack
      simp only [biased, log, width]
      rw [if_neg (by omega), if_pos trivial]
      exact congrArg₂ (packComponents .binary64 sign) exponentBits mantissaBits

/-! ### Round trips -/

/-- Canonical numbers come back from bits as they were. -/
theorem unpack_pack_of_isCanonical {number : UnpackedFloat} (canonical : IsCanonical number) :
    unpack (pack number) = number := by
  rcases exists_eq_ofComponents canonical with rfl | ⟨sign, exponent, mantissa, isNumber, rfl⟩
  · rfl
  · rw [pack_ofComponents _ _ _ isNumber]
    exact unpack_packComponents sign exponent mantissa

theorem pack_unpack {bits : BitVec 64} (valid : Format.binary64.Valid bits) :
    pack (unpack bits) = bits := by
  rw [unpack_eq_ofComponents]
  by_cases isNumber : @unpackExponent .binary64 bits = -1#11 → @unpackMantissa .binary64 bits = 0#52
  · rw [pack_ofComponents _ _ _ isNumber]
    exact packComponents_unpack bits
  · obtain ⟨last, notZero⟩ := Classical.not_imp.mp isNumber
    rw [ofComponents, if_pos last, if_neg notZero]
    exact (valid.eq_packedNaN last notZero).symm

end RelationalLayout.Binary64
