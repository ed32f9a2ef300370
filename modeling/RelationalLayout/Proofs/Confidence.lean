/-
Laws of scores.

A relation and its mirror with the operands swapped have the same score, an
alignment does not depend on the order of its operands, and the mean of scores that
are all zero exceeds no threshold. All of it rests on what the numbers at hand do.
-/

import RelationalLayout.Confidence

namespace RelationalLayout

/-- Numbers whose opposites are taken exactly: the opposite of an operand gives the opposite of a
result. Numbers may be alike without being equal, as zeros of different signs are; the exponential
does not tell them apart. -/
class ExactNegation (α : Type) [Scalar α] where
  Alike : α → α → Prop
  symm {first second : α} : Alike first second → Alike second first
  trans {first second third : α} : Alike first second → Alike second third → Alike first third
  neg {first second : α} : Alike first second → Alike (-first) (-second)
  sub {first second : α} : Alike first second → (third : α) → Alike (first - third) (second - third)
  mul (factor : α) {first second : α} : Alike first second → Alike (factor * first) (factor * second)
  div {first second : α} : Alike first second → (third : α) → Alike (first / third) (second / third)
  neg_neg (number : α) : Alike (- -number) number
  sub_swap (first second : α) : Alike (second - first) (-(first - second))
  sub_neg_neg (first second : α) : Alike (-first - -second) (-(first - second))
  mul_comm (first second : α) : Alike (first * second) (second * first)
  mul_neg (first second : α) : Alike (first * -second) (-(first * second))
  neg_mul (first second : α) : Alike (-first * second) (-(first * second))
  exp_eq {first second : α} : Alike first second → Scalar.exp first = Scalar.exp second

namespace ExactNegation

variable {α : Type} [Scalar α] [ExactNegation α]

theorem logistic_eq_of_alike {left right : α} (alike : Alike (-left) (-right)) :
    logistic left = logistic right := by
  unfold logistic
  exact congrArg (fun power => Scalar.one / (Scalar.one + power)) (exp_eq alike)

theorem rising_swap (offset first second : α) :
    rising offset (first - second) = falling (-offset) (second - first) := by
  unfold rising falling
  refine logistic_eq_of_alike (neg ?_)
  have difference : Alike ((second - first) - -offset) (-((first - second) - offset)) :=
    trans (sub (sub_swap first second) (-offset)) (sub_neg_neg _ _)
  have scaled := trans (mul steepness difference) (mul_neg _ _)
  exact symm (trans (neg scaled) (neg_neg _))

theorem bell_swap (first second : α) : bell (first - second) = bell (second - first) := by
  unfold bell
  refine exp_eq (div ?_ _)
  have swapped := sub_swap first second
  generalize first - second = difference at *
  generalize second - first = other at *
  have product : Alike (other * other) (-(-difference * difference)) :=
    trans (trans (mul other swapped) (mul_comm _ _))
      (trans (mul (-difference) swapped) (mul_neg _ _))
  exact symm (trans (trans (neg_mul other other) (neg product)) (neg_neg _))

end ExactNegation

/-- What the search relies on about the numbers that scores are computed in. -/
class ScoringLaws (α : Type) [Scalar α] : Prop where
  rising_swap (offset first second : α) :
    rising offset (first - second) = falling (-offset) (second - first)
  bell_swap (first second : α) : bell (first - second) = bell (second - first)
  exceeds_zeros (count : Nat) {threshold : α} (nonnegative : Scalar.isNegative threshold = false) :
    Scalar.exceeds (geometricMean (List.replicate count Scalar.zero)) threshold = false

/-- In exact arithmetic the mean also depends neither on the order of the scores nor on how often
all of them are repeated. -/
class ExactScoring (α : Type) [Scalar α] : Prop extends ScoringLaws α where
  geometricMean_repeated {scores repeated : List α} {count : Nat} (positive : 0 < count)
    (same : repeated.Perm (List.replicate count scores).flatten) :
    geometricMean repeated = geometricMean scores

variable {α : Type} [Scalar α]

/-! ### Options -/

namespace BinaryOption

theorem confidence?_mirror_of_swap
    (risingSwap : ∀ offset first second : α,
      rising offset (first - second) = falling (-offset) (second - first))
    (bellSwap : ∀ first second : α, bell (first - second) = bell (second - first))
    {option mirror : BinaryOption} (mirrored : option.mirror = some mirror)
    (first second : Point α) :
    mirror.confidence? second first = option.confidence? first second := by
  have vertical := bellSwap first.y second.y
  have horizontal := bellSwap first.x second.x
  cases option with
  | outsideRingOf | insideRingOf | contains => cases mirrored
  | leftOf | rightOf | above | below =>
      cases mirrored
      simp only [confidence?, risingSwap]
  | horizontallyAligned | verticallyAligned | directlyLeftOf | directlyRightOf | directlyAbove |
      directlyBelow =>
      cases mirrored
      simp only [confidence?, risingSwap, vertical, horizontal]

theorem confidence?_mirror [ScoringLaws α] {option mirror : BinaryOption}
    (mirrored : option.mirror = some mirror) (first second : Point α) :
    mirror.confidence? second first = option.confidence? first second :=
  confidence?_mirror_of_swap ScoringLaws.rising_swap ScoringLaws.bell_swap mirrored first second

theorem confidence?_eq_none_iff {option : BinaryOption} {first second : Point α} :
    option.confidence? first second = none ↔ option.isSupported = false := by
  cases option <;> simp only [confidence?, isSupported, reduceCtorEq, Bool.true_eq_false]

end BinaryOption

/-! ### Layouts -/

namespace Layout

variable {tag : Type} [LayoutTag tag]

theorem scoreOrZero_binary (diagram : Diagram α) (option : BinaryOption) (separation : Separation)
    (first second : String) :
    scoreOrZero diagram (.binary option separation first second : Layout tag) =
      match diagram.find? first, diagram.find? second with
      | some left, some right => (option.confidence? left right).getD Scalar.zero
      | _, _ => Scalar.zero := by
  simp only [scoreOrZero, score, Diagram.locate]
  cases diagram.find? first with
  | none => rfl
  | some left =>
      cases diagram.find? second with
      | none => rfl
      | some right =>
          simp only [bind, Except.bind]
          cases option.confidence? left right <;> rfl

theorem scoreOrZero_mirror [ScoringLaws α] (diagram : Diagram α) {option mirror : BinaryOption}
    (mirrored : option.mirror = some mirror) (separation : Separation) (first second : String) :
    scoreOrZero diagram (.binary mirror separation second first : Layout tag) =
      scoreOrZero diagram (.binary option separation first second : Layout tag) := by
  rw [scoreOrZero_binary, scoreOrZero_binary]
  cases diagram.find? first with
  | none => cases diagram.find? second <;> rfl
  | some left =>
      cases diagram.find? second with
      | none => rfl
      | some right => simp only [BinaryOption.confidence?_mirror mirrored]

theorem scoreOrZero_of_not_supported (diagram : Diagram α) {option : BinaryOption}
    (unsupported : option.isSupported = false) (separation : Separation) (first second : String) :
    scoreOrZero diagram (.binary option separation first second : Layout tag) = Scalar.zero := by
  rw [scoreOrZero_binary]
  cases diagram.find? first with
  | none => rfl
  | some left =>
      cases diagram.find? second with
      | none => rfl
      | some right => simp only [BinaryOption.confidence?_eq_none_iff.mpr unsupported, Option.getD_none]

end Layout

theorem exceeds_geometricMean_of_zeros [ScoringLaws α] {scores : List α}
    (zeros : ∀ score ∈ scores, score = Scalar.zero) {threshold : α}
    (nonnegative : Scalar.isNegative threshold = false) :
    Scalar.exceeds (geometricMean scores) threshold = false := by
  rw [List.eq_replicate_of_mem zeros]
  exact ScoringLaws.exceeds_zeros scores.length nonnegative

theorem Rule.confidence_eq_ok_iff {schema : Schema} {world : Instance} {diagram : Diagram α}
    {rule : Rule} {score : α} :
    rule.confidence schema world diagram = .ok score ↔
      ∃ layouts, rule.compile schema world 0 = .ok layouts ∧
        geometricMean (layouts.map (Layout.scoreOrZero diagram)) = score := by
  unfold confidence
  cases rule.compile schema world 0 with
  | error fault => simp only [reduceCtorEq, false_and, exists_false]
  | ok layouts => simp only [Except.ok.injEq, exists_eq_left']

end RelationalLayout
