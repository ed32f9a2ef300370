/-
Scores in exact real numbers.

Below all real numbers lies the logarithm of zero, whose exponential is zero again.
In these numbers the laws of scores hold without rounding.
-/

import Mathlib.Analysis.SpecialFunctions.Log.Basic
import RelationalLayout.Proofs.Confidence

namespace RelationalLayout

/-- A real number, or the logarithm of zero. -/
inductive RealScore where
  | logZero
  | real (value : ℝ)

namespace RealScore

def lift (operation : ℝ → ℝ → ℝ) : RealScore → RealScore → RealScore
  | .real left, .real right => .real (operation left right)
  | _, _ => .logZero

def neg : RealScore → RealScore
  | .logZero => .logZero
  | .real value => .real (-value)

noncomputable def exp : RealScore → RealScore
  | .logZero => .real 0
  | .real value => .real (Real.exp value)

noncomputable def log : RealScore → RealScore
  | .logZero => .logZero
  | .real value => if 0 < value then .real (Real.log value) else .logZero

noncomputable def exceeds : RealScore → RealScore → Bool
  | .logZero, _ => false
  | .real _, .logZero => true
  | .real left, .real right => decide (right < left)

def toWithBot : RealScore → WithBot ℝ
  | .logZero => ⊥
  | .real value => value

theorem toWithBot_injective : Function.Injective toWithBot := by
  intro left right same
  cases left with
  | logZero =>
      cases right with
      | logZero => rfl
      | real value => exact absurd same (WithBot.bot_ne_coe)
  | real value =>
      cases right with
      | logZero => exact absurd same (WithBot.coe_ne_bot)
      | real other => rw [WithBot.coe_injective same]

noncomputable instance : LinearOrder RealScore := LinearOrder.lift' toWithBot toWithBot_injective

noncomputable instance : Scalar RealScore where
  add := lift (· + ·)
  sub := lift (· - ·)
  mul := lift (· * ·)
  div := lift (· / ·)
  neg := neg
  ofNat number := .real number
  exp := exp
  log := log
  exceeds := exceeds

theorem exceeds_iff (score threshold : RealScore) :
    Scalar.exceeds score threshold = true ↔ threshold < score := by
  cases score with
  | logZero =>
      refine iff_of_false (fun impossible => by cases impossible) ?_
      exact not_lt_bot (a := threshold.toWithBot)
  | real value =>
      cases threshold with
      | logZero => exact iff_of_true rfl (WithBot.bot_lt_coe value)
      | real other => exact decide_eq_true_iff.trans WithBot.coe_lt_coe.symm

theorem rising_swap (offset first second : RealScore) :
    rising offset (first - second) = falling (-offset) (second - first) := by
  cases offset with
  | logZero => cases first <;> cases second <;> rfl
  | real offset =>
      cases first with
      | logZero => cases second <;> rfl
      | real first =>
          cases second with
          | logZero => rfl
          | real second =>
              have arguments : (1 : ℕ) / (10 : ℕ) * (first - second - offset) =
                  -((1 : ℕ) / (10 : ℕ) * (second - first - -offset)) := by
                ring
              exact congrArg (fun position => logistic (RealScore.real position)) arguments

theorem bell_swap (first second : RealScore) : bell (first - second) = bell (second - first) := by
  cases first with
  | logZero => cases second <;> rfl
  | real first =>
      cases second with
      | logZero => rfl
      | real second =>
          have arguments : -(first - second) * (first - second) / ((2 : ℕ) * (1600 : ℕ)) =
              -(second - first) * (second - first) / ((2 : ℕ) * (1600 : ℕ)) := by
            ring
          exact congrArg (fun exponent => exp (RealScore.real exponent)) arguments

theorem log_zero : Scalar.log (Scalar.zero : RealScore) = .logZero := by
  have notPositive : ¬(0 : ℝ) < ((0 : ℕ) : ℝ) := by
    rw [Nat.cast_zero]
    exact lt_irrefl 0
  exact if_neg notPositive

theorem foldl_add_logZero (scores : List RealScore) :
    scores.foldl (· + ·) .logZero = (.logZero : RealScore) := by
  induction scores with
  | nil => rfl
  | cons score scores ih => exact ih

theorem geometricMean_zeros (count : Nat) :
    geometricMean (List.replicate count (Scalar.zero : RealScore)) = Scalar.zero := by
  cases count with
  | zero => rfl
  | succ count =>
      have sum : ((List.replicate (count + 1) (Scalar.zero : RealScore)).map Scalar.log).foldl
          (· + ·) Scalar.zero = .logZero := by
        rw [List.replicate_succ, List.map_cons, List.foldl_cons, log_zero]
        exact foldl_add_logZero _
      have zero : (.real 0 : RealScore) = Scalar.zero := congrArg RealScore.real Nat.cast_zero.symm
      rw [geometricMean, sum, ← zero]
      rfl

theorem geometricMean_singleton {value : ℝ} (positive : 0 < value) :
    geometricMean [RealScore.real value] = .real value := by
  have logarithm : log (.real value) = .real (Real.log value) := if_pos positive
  have mean : geometricMean [RealScore.real value] =
      exp (lift (· / ·) (lift (· + ·) (.real (0 : ℕ)) (log (.real value))) (.real (1 : ℕ))) :=
    rfl
  rw [mean, logarithm]
  simp only [lift, exp, Nat.cast_zero, Nat.cast_one, zero_add, div_one, Real.exp_log positive]

/-! ### Repeated scores -/

theorem sum_assoc (first second third : RealScore) :
    first + second + third = first + (second + third) := by
  cases first with
  | logZero => rfl
  | real first =>
      cases second with
      | logZero => rfl
      | real second =>
          cases third with
          | logZero => rfl
          | real third => exact congrArg RealScore.real (add_assoc first second third)

theorem sum_comm (first second : RealScore) : first + second = second + first := by
  cases first with
  | logZero => cases second <;> rfl
  | real first =>
      cases second with
      | logZero => rfl
      | real second => exact congrArg RealScore.real (add_comm first second)

theorem sum_zero (score : RealScore) : score + Scalar.zero = score := by
  cases score with
  | logZero => rfl
  | real value =>
      have same : value + ((0 : ℕ) : ℝ) = value := by rw [Nat.cast_zero, add_zero]
      exact congrArg RealScore.real same

noncomputable def total (scores : List RealScore) : RealScore :=
  scores.foldl (· + ·) Scalar.zero

theorem foldl_add (start : RealScore) (scores : List RealScore) :
    scores.foldl (· + ·) start = start + total scores := by
  induction scores generalizing start with
  | nil => exact (sum_zero start).symm
  | cons score scores ih =>
      rw [total, List.foldl_cons, List.foldl_cons, ih, ih (Scalar.zero + score),
        sum_comm Scalar.zero score, sum_zero, sum_assoc]

theorem total_append (first second : List RealScore) :
    total (first ++ second) = total first + total second := by
  rw [total, List.foldl_append, foldl_add]
  rfl

theorem total_perm {first second : List RealScore} (same : first.Perm second) :
    total first = total second := by
  have swap (start left right : RealScore) : start + left + right = start + right + left := by
    rw [sum_assoc, sum_comm left right, sum_assoc]
  exact same.foldl_eq' (fun left _ right _ start => swap start left right) Scalar.zero

/-- Repeated scores add up to a multiple of their sum, unless one of them has no logarithm. -/
theorem total_repeated (scores : List RealScore) (count : Nat) :
    total (List.replicate (count + 1) scores).flatten =
      lift (· * ·) (.real ((count + 1 : Nat) : ℝ)) (total scores) := by
  induction count with
  | zero =>
      rw [List.replicate_one, List.flatten_singleton]
      cases total scores with
      | logZero => rfl
      | real value =>
          simp only [lift]
          rw [Nat.zero_add, Nat.cast_one, one_mul]
  | succ count ih =>
      rw [List.replicate_succ, List.flatten_cons, total_append, ih]
      cases total scores with
      | logZero => rfl
      | real value =>
          have more : value + ((count + 1 : ℕ) : ℝ) * value = ((count + 1 + 1 : ℕ) : ℝ) * value := by
            push_cast
            ring
          exact congrArg RealScore.real more

theorem geometricMean_repeated {scores repeated : List RealScore} {count : Nat}
    (positive : 0 < count) (same : repeated.Perm (List.replicate count scores).flatten) :
    geometricMean repeated = geometricMean scores := by
  obtain ⟨count, rfl⟩ := Nat.exists_eq_add_one_of_ne_zero (Nat.ne_of_gt positive)
  have length : repeated.length = (count + 1) * scores.length := by
    rw [same.length_eq, List.length_flatten, List.map_replicate, List.sum_replicate_nat]
  cases scores with
  | nil =>
      rw [List.length_nil, Nat.mul_zero] at length
      rw [List.length_eq_zero_iff.mp length]
  | cons score scores =>
      have some : repeated ≠ [] := by
        intro none
        rw [none, List.length_nil, List.length_cons] at length
        exact absurd length.symm (Nat.mul_ne_zero (Nat.succ_ne_zero _) (Nat.succ_ne_zero _))
      have logarithms : total (repeated.map Scalar.log) =
          lift (· * ·) (.real ((count + 1 : ℕ) : ℝ)) (total ((score :: scores).map Scalar.log)) := by
        rw [total_perm (same.map Scalar.log), List.map_flatten, List.map_replicate, total_repeated]
      have means : total (repeated.map Scalar.log) / Scalar.ofNat repeated.length =
          total ((score :: scores).map Scalar.log) / Scalar.ofNat (score :: scores).length := by
        rw [logarithms, length]
        cases total ((score :: scores).map Scalar.log) with
        | logZero => rfl
        | real value =>
            have notZero : ((count + 1 : ℕ) : ℝ) ≠ 0 := Nat.cast_ne_zero.mpr (Nat.succ_ne_zero count)
            have quotients : ((count + 1 : ℕ) : ℝ) * value /
                (((count + 1) * (score :: scores).length : ℕ) : ℝ) =
                  value / ((score :: scores).length : ℝ) := by
              rw [Nat.cast_mul, mul_div_mul_left _ _ notZero]
            exact congrArg RealScore.real quotients
      rw [geometricMean, geometricMean, List.isEmpty_eq_false_iff.mpr some]
      exact congrArg Scalar.exp means

instance : ScoringLaws RealScore where
  rising_swap := rising_swap
  bell_swap := bell_swap
  exceeds_zeros count _ nonnegative := by
    rw [geometricMean_zeros]
    exact nonnegative

instance : ExactScoring RealScore where
  geometricMean_repeated := geometricMean_repeated

end RealScore

end RelationalLayout
