/-
Placed layouts score well.

Staging and scoring read each option on their own. Where the constraints of a layout are
met and its operands are as far apart as its curve asks for, the curve has passed one
half, and aligned operands are level, where the bell curve is one.
-/

import Mathlib.Analysis.SpecialFunctions.Exp
import RelationalLayout.Proofs.FootprintConstraint
import RelationalLayout.Proofs.FootprintScore

namespace RelationalLayout

/-! ### Directions -/

/-- The distance along an axis at which a direction is as likely as not. -/
def Axis.clearance : Axis → Nat
  | .x => 50
  | .y => 25

def UnaryOption.direction : UnaryOption → Axis
  | .leftOfCenter => .x
  | .rightOfCenter => .x
  | .aboveCenter => .y
  | .belowCenter => .y

def BinaryOption.direction? : BinaryOption → Option Axis
  | .leftOf => some .x
  | .rightOf => some .x
  | .above => some .y
  | .below => some .y
  | .directlyLeftOf => some .x
  | .directlyRightOf => some .x
  | .directlyAbove => some .y
  | .directlyBelow => some .y
  | _ => none

def GroundLayout.direction? : GroundLayout → Option Axis
  | .unary option _ _ => some option.direction
  | .binary option _ _ _ => option.direction?
  | _ => none

theorem StagingSettings.le_of_holds_gap {α κ : Type} [Measure α] [Preorder κ] {value : α → κ}
    (settings : StagingSettings) {separation : Separation} {difference : κ}
    (holds : (settings.gap separation : Gap α).comparison.Holds difference
      (value (settings.gap separation : Gap α).distance)) :
    value (settings.gap separation : Gap α).distance ≤ difference := by
  cases separation with
  | unspecified | atLeast => exact holds
  | exactly => exact holds.ge

/-! ### Curves -/

variable {κ : Type} [Field κ] [LinearOrder κ] [IsStrictOrderedRing κ]

/-- What is used of an exponential: it is positive, rises, and is one at zero. -/
structure IsExponential (exp : κ → κ) : Prop where
  pos (number : κ) : 0 < exp number
  monotone : Monotone exp
  zero : exp 0 = 1

theorem isExponential_exp : IsExponential Real.exp where
  pos := Real.exp_pos
  monotone := Real.exp_monotone
  zero := Real.exp_zero

section Curves

variable {exp : κ → κ} (exponential : IsExponential exp) (log : κ → κ) (exceeds : κ → κ → Bool)

theorem steepness_nonneg :
    letI := Scalar.ofField exp log exceeds
    0 ≤ (steepness : κ) :=
  div_nonneg (Nat.cast_nonneg 1) (Nat.cast_nonneg 10)

include exponential

theorem half_le_logistic {position : κ} (nonnegative : 0 ≤ position) :
    letI := Scalar.ofField exp log exceeds
    1 / 2 ≤ logistic position := by
  change (1 : κ) / 2 ≤ ((1 : ℕ) : κ) / (((1 : ℕ) : κ) + exp (-position))
  have most : exp (-position) ≤ 1 := by
    rw [← exponential.zero]
    exact exponential.monotone (neg_nonpos.mpr nonnegative)
  have positive : 0 < 1 + exp (-position) := add_pos one_pos (exponential.pos _)
  rw [Nat.cast_one, div_le_div_iff₀ two_pos positive, one_mul, one_mul, ← one_add_one_eq_two]
  exact add_le_add_right most 1

theorem half_le_rising {clearance ahead behind : κ} (clear : clearance ≤ ahead - behind) :
    letI := Scalar.ofField exp log exceeds
    1 / 2 ≤ rising clearance (ahead - behind) := by
  refine half_le_logistic exponential log exceeds ?_
  exact mul_nonneg (steepness_nonneg log exceeds) (sub_nonneg.mpr clear)

theorem half_le_falling {clearance ahead behind : κ} (clear : clearance ≤ ahead - behind) :
    letI := Scalar.ofField exp log exceeds
    1 / 2 ≤ falling (-clearance) (behind - ahead) := by
  have before : behind - ahead - -clearance ≤ 0 := by linarith
  refine half_le_logistic exponential log exceeds ?_
  exact neg_nonneg.mpr (mul_nonpos_of_nonneg_of_nonpos (steepness_nonneg log exceeds) before)

omit [IsStrictOrderedRing κ] in
theorem bell_of_level {first second : κ} (level : first = second) :
    letI := Scalar.ofField exp log exceeds
    bell (first - second) = 1 := by
  change exp (-(first - second) * (first - second) / _) = 1
  rw [level, sub_self, mul_zero, zero_div, exponential.zero]

omit [IsStrictOrderedRing κ] in
theorem half_le_mul_bell {direction first second : κ} (likely : 1 / 2 ≤ direction)
    (level : first = second) :
    letI := Scalar.ofField exp log exceeds
    1 / 2 ≤ direction * bell (first - second) := by
  have certain := bell_of_level exponential log exceeds level
  exact (likely.trans_eq (mul_one direction).symm).trans_eq (congrArg (direction * ·) certain.symm)

/-! ### Options -/

theorem UnaryOption.half_le_confidence {admits : κ → Prop} {option : UnaryOption}
    (clear : ∀ difference, admits difference → (option.direction.clearance : κ) ≤ difference)
    {point : Point κ} (related : option.Says admits point) :
    letI := Scalar.ofField exp log exceeds
    1 / 2 ≤ option.confidence point := by
  let arithmetic := Scalar.ofField exp log exceeds
  have origin : (Scalar.zero : κ) = 0 := Nat.cast_zero
  cases option with
  | leftOfCenter | belowCenter =>
      simp only [confidence, origin]
      exact half_le_falling exponential log exceeds (clear _ related)
  | rightOfCenter | aboveCenter =>
      simp only [confidence, origin]
      exact half_le_rising exponential log exceeds (clear _ related)

/-- Atoms in a relation whose distances are clear score at least one half, and one if they are only
to be aligned. -/
theorem BinaryOption.exists_confidence {admits : κ → Prop} {spaced : Prop} {option : BinaryOption}
    (clear : ∀ axis, option.direction? = some axis →
      ∀ difference, admits difference → (axis.clearance : κ) ≤ difference)
    {first second : Point κ} (related : option.Says admits spaced first second) :
    letI := Scalar.ofField exp log exceeds
    ∃ score, option.confidence? first second = some score ∧ 1 / 2 ≤ score ∧
      (option.direction? = none → score = 1) := by
  cases option with
  | outsideRingOf | insideRingOf | contains => exact related.elim
  | horizontallyAligned | verticallyAligned =>
      have certain := bell_of_level exponential log exceeds related.1
      have half : (1 : κ) / 2 ≤ 1 := half_le_self zero_le_one
      exact ⟨_, rfl, half.trans_eq certain.symm, fun _ => certain⟩
  | leftOf | below =>
      have likely := half_le_falling exponential log exceeds (clear _ rfl _ related)
      exact ⟨_, rfl, likely, fun impossible => by cases impossible⟩
  | rightOf | above =>
      have likely := half_le_rising exponential log exceeds (clear _ rfl _ related)
      exact ⟨_, rfl, likely, fun impossible => by cases impossible⟩
  | directlyLeftOf | directlyBelow =>
      have likely := half_le_falling exponential log exceeds (clear _ rfl _ related.1)
      exact ⟨_, rfl, half_le_mul_bell exponential log exceeds likely related.2,
        fun impossible => by cases impossible⟩
  | directlyRightOf | directlyAbove =>
      have likely := half_le_rising exponential log exceeds (clear _ rfl _ related.1)
      exact ⟨_, rfl, half_le_mul_bell exponential log exceeds likely related.2,
        fun impossible => by cases impossible⟩

end Curves

/-! ### Layouts -/

section Layouts

variable {α : Type} [Measure α] {value : α → κ}

/-- Where the constraints of a layout are met and its distance is clear along the axis of its
direction, its score is at least one half, and one if its atoms are only to be aligned. -/
theorem GroundLayout.half_le_score_of_holds {exp : κ → κ} (exponential : IsExponential exp)
    (log : κ → κ) (exceeds : κ → κ → Bool) (reads : Reads value) (settings : StagingSettings)
    (placement : Placement α) {layout : GroundLayout} (isScored : layout.isScored = true)
    (clear : ∀ axis, layout.direction? = some axis →
      (axis.clearance : κ) ≤ value (settings.gap layout.separation : Gap α).distance)
    {diagram : Diagram κ} {position : Assignment κ}
    (drawn : ∀ atom ∈ layout.operands, diagram.find? atom = some (pointOf position atom))
    (holds : layout.Holds settings placement value position) :
    letI := Scalar.ofField exp log exceeds
    ∃ score, layout.score diagram = .ok score ∧ 1 / 2 ≤ score ∧
      (layout.direction? = none → score = 1) := by
  let arithmetic := Scalar.ofField exp log exceeds
  cases layout with
  | cyclic | grouping => cases isScored
  | unary option separation operand =>
      have related := (option.holds_constraint_iff reads _ operand).mp (holds _ List.mem_cons_self)
      have likely := option.half_le_confidence exponential log exceeds
        (fun _ admitted => (clear _ rfl).trans (settings.le_of_holds_gap admitted)) related
      refine ⟨_, ?_, likely, fun impossible => by cases impossible⟩
      rw [Layout.score, Diagram.locate, drawn operand List.mem_cons_self]
      rfl
  | binary option separation first second =>
      have related := BinaryOption.says_of_holds reads isScored _ _ placement first second holds
      obtain ⟨score, known, likely, certain⟩ :=
        BinaryOption.exists_confidence exponential log exceeds
          (fun axis along _ admitted =>
            (clear axis along).trans (settings.le_of_holds_gap admitted)) related
      refine ⟨score, Layout.score_binary_eq_ok_iff.mpr ⟨_, _, ?_, ?_, known⟩, likely, certain⟩
      · exact drawn first List.mem_cons_self
      · exact drawn second (List.mem_cons_of_mem first List.mem_cons_self)

end Layouts

theorem Reads.comp {α κ ι : Type} [Measure α] [AddCommGroup κ] [AddCommGroup ι] {value : α → κ}
    (reads : Reads value) (map : κ →+ ι) : Reads (fun number => map (value number)) where
  zero := by rw [reads.zero, map_zero]
  neg number := by rw [reads.neg, map_neg]

/-- One atom thirty units above another, scored in real numbers. -/
theorem GroundLayout.half_le_score_of_holds_directlyAbove :
    letI := Scalar.ofReals
    let layout : GroundLayout := .binary .directlyAbove (.atLeast 30) "a" "b"
    let diagram : Diagram ℝ := .ofList [("a", { x := 3, y := 80 }), ("b", { x := 3, y := 40 })]
    let position : Assignment ℝ := fun coordinate =>
      match coordinate.axis with
      | .x => 3
      | .y => if coordinate.atom = "a" then 80 else 40
    let value (number : Float) : ℝ := exactValue number
    IsExponential Real.exp ∧ Reads value ∧ layout.isScored = true ∧
      (∀ axis, layout.direction? = some axis →
        (axis.clearance : ℝ) ≤
          value (StagingSettings.default.gap layout.separation : Gap Float).distance) ∧
      (∀ atom ∈ layout.operands, diagram.find? atom = some (pointOf position atom)) ∧
      layout.Holds .default (.empty : Placement Float) value position ∧
      ∃ score : ℝ, layout.score diagram = .ok score ∧ 1 / 2 ≤ score ∧
        (layout.direction? = none → score = 1) := by
  intro layout diagram position value
  have reads : Reads value := reads_exactValue.comp (Rat.castHom ℝ).toAddMonoidHom
  have thirty : value 30 = 30 := by
    have exact : exactValue 30 = 30 := by decide +kernel
    simp [value, exact]
  have clear : ∀ axis, layout.direction? = some axis →
      (axis.clearance : ℝ) ≤
        value (StagingSettings.default.gap layout.separation : Gap Float).distance := by
    intro axis along
    cases along
    change ((25 : ℕ) : ℝ) ≤ value 30
    rw [thirty]
    norm_num
  have drawn : ∀ atom ∈ layout.operands, diagram.find? atom = some (pointOf position atom) := by
    intro atom member
    rcases List.mem_pair.mp member with rfl | rfl
    · rfl
    · rfl
  have holds : layout.Holds .default (.empty : Placement Float) value position := by
    rw [Holds, constraints, BinaryOption.constraints, List.forall_mem_cons, holds_shared_iff reads,
      Gap.holds_above_iff]
    refine ⟨?_, rfl⟩
    change value 30 ≤ 80 - 40
    rw [thirty]
    norm_num
  exact ⟨isExponential_exp, reads, rfl, clear, drawn, holds,
    half_le_score_of_holds isExponential_exp Real.log _ reads .default .empty rfl clear drawn holds⟩

end RelationalLayout
