/-
What the constraints of a layout say.

Measures are read as exact numbers, and so are the coordinates of atoms. Under such
a reading the constraints of a layout say that its operands stand in the relation
of its option, at the distance of its separation.
-/

import Mathlib.Algebra.Order.Group.Defs
import Mathlib.Algebra.Order.Group.OrderIso
import RelationalLayout.Stager

namespace RelationalLayout

/-! ### Reading measures as exact numbers -/

structure Reads {α κ : Type} [Measure α] [AddCommGroup κ] (value : α → κ) : Prop where
  zero : value Scalar.zero = 0
  neg (number : α) : value (-number) = -value number

def Constraint.map {α κ : Type} (value : α → κ) : Constraint α → Constraint κ
  | .fixed coordinate comparison number => .fixed coordinate comparison (value number)
  | .offset left comparison right distance => .offset left comparison right (value distance)

def Point.map {α κ : Type} (value : α → κ) (point : Point α) : Point κ :=
  { x := value point.x, y := value point.y }

instance {κ : Type} [DecidableEq κ] [LE κ] [DecidableLE κ] (comparison : Comparison)
    (left right : κ) : Decidable (comparison.Holds left right) :=
  match comparison with
  | .equal => inferInstanceAs (Decidable (left = right))
  | .atLeast => inferInstanceAs (Decidable (right ≤ left))
  | .atMost => inferInstanceAs (Decidable (left ≤ right))

instance {κ : Type} [DecidableEq κ] [LE κ] [DecidableLE κ] [Add κ] (constraint : Constraint κ)
    (assignment : Assignment κ) : Decidable (constraint.Holds assignment) :=
  match constraint with
  | .fixed coordinate comparison number =>
      inferInstanceAs (Decidable (comparison.Holds (assignment coordinate) number))
  | .offset left comparison right distance =>
      inferInstanceAs (Decidable (comparison.Holds (assignment left) (assignment right + distance)))

/-! ### What layouts say -/

section Meaning

variable {α κ : Type} [Measure α] [LE κ]

def Separation.Admits (settings : StagingSettings) (value : α → κ) (separation : Separation)
    (difference : κ) : Prop :=
  match separation with
  | .unspecified => value (Measure.ofFloat settings.defaultSeparation) ≤ difference
  | .atLeast distance => value (Measure.ofFloat distance) ≤ difference
  | .exactly distance => difference = value (Measure.ofFloat distance)

def UnaryOption.Says [Zero κ] [Sub κ] (admits : κ → Prop) (option : UnaryOption) (point : Point κ) : Prop :=
  match option with
  | .leftOfCenter => admits (0 - point.x)
  | .rightOfCenter => admits (point.x - 0)
  | .aboveCenter => admits (point.y - 0)
  | .belowCenter => admits (0 - point.y)

/-- Two points stand in a relation to each other. Aligned points are apart, one way or the other,
when they are spaced. -/
def BinaryOption.Says [Sub κ] (admits : κ → Prop) (spaced : Prop) (option : BinaryOption)
    (first second : Point κ) : Prop :=
  match option with
  | .leftOf => admits (second.x - first.x)
  | .rightOf => admits (first.x - second.x)
  | .above => admits (first.y - second.y)
  | .below => admits (second.y - first.y)
  | .horizontallyAligned =>
      first.y = second.y ∧
        (spaced → admits (second.x - first.x) ∨ admits (first.x - second.x))
  | .verticallyAligned =>
      first.x = second.x ∧
        (spaced → admits (first.y - second.y) ∨ admits (second.y - first.y))
  | .directlyLeftOf => admits (second.x - first.x) ∧ first.y = second.y
  | .directlyRightOf => admits (first.x - second.x) ∧ first.y = second.y
  | .directlyAbove => admits (first.y - second.y) ∧ first.x = second.x
  | .directlyBelow => admits (second.y - first.y) ∧ first.x = second.x
  | .outsideRingOf => False
  | .insideRingOf => False
  | .contains => False

theorem StagingSettings.holds_gap_iff (settings : StagingSettings) (value : α → κ)
    (separation : Separation) (difference : κ) :
    (settings.gap separation : Gap α).comparison.Holds difference
        (value (settings.gap separation : Gap α).distance) ↔
      separation.Admits settings value difference := by
  cases separation <;> rfl

end Meaning

/-! ### What constraints say -/

variable {α κ : Type} [Measure α] [AddCommGroup κ] [LinearOrder κ] [IsOrderedAddMonoid κ]
  {value : α → κ} {position : Coordinate → κ}

def pointOf (position : Coordinate → κ) (atom : String) : Point κ :=
  { x := position { axis := .x, atom := atom }, y := position { axis := .y, atom := atom } }

theorem Comparison.holds_add_iff (comparison : Comparison) (left right distance : κ) :
    comparison.Holds left (right + distance) ↔ comparison.Holds (left - right) distance := by
  cases comparison with
  | equal => exact sub_eq_iff_eq_add'.symm
  | atLeast => exact le_sub_iff_add_le'.symm
  | atMost => exact sub_le_iff_le_add'.symm

theorem Comparison.holds_opposite_iff (comparison : Comparison) (left right : κ) :
    comparison.opposite.Holds left (-right) ↔ comparison.Holds (0 - left) right := by
  rw [zero_sub]
  cases comparison with
  | equal => exact neg_eq_iff_eq_neg.symm
  | atLeast => exact le_neg
  | atMost => exact neg_le

namespace Gap

variable (gap : Gap α)

omit [Measure α] in
theorem holds_leftOf_iff (first second : String) :
    ((gap.leftOf first second).map value).Holds position ↔
      gap.comparison.Holds ((pointOf position second).x - (pointOf position first).x)
        (value gap.distance) :=
  gap.comparison.holds_add_iff _ _ _

omit [Measure α] in
theorem holds_above_iff (first second : String) :
    ((gap.above first second).map value).Holds position ↔
      gap.comparison.Holds ((pointOf position first).y - (pointOf position second).y)
        (value gap.distance) :=
  gap.comparison.holds_add_iff _ _ _

omit [Measure α] [IsOrderedAddMonoid κ] in
theorem holds_beyondOrigin_iff (coordinate : Coordinate) :
    ((gap.beyondOrigin coordinate).map value).Holds position ↔
      gap.comparison.Holds (position coordinate - 0) (value gap.distance) := by
  rw [sub_zero]
  rfl

theorem holds_beforeOrigin_iff (reads : Reads value) (coordinate : Coordinate) :
    ((gap.beforeOrigin coordinate).map value).Holds position ↔
      gap.comparison.Holds (0 - position coordinate) (value gap.distance) := by
  rw [← Comparison.holds_opposite_iff, ← reads.neg]
  rfl

end Gap

omit [IsOrderedAddMonoid κ] in
theorem holds_shared_iff (reads : Reads value) (axis : Axis) (first second : String) :
    (∀ constraint ∈ shared axis first second, (constraint.map value).Holds position) ↔
      position { axis := axis, atom := first } = position { axis := axis, atom := second } := by
  unfold shared
  split
  · rename_i same
    subst same
    simp only [List.not_mem_nil, false_implies, implies_true]
  · rw [List.forall_mem_singleton]
    simp only [Constraint.map, Constraint.Holds, Comparison.Holds, reads.zero, add_zero]

namespace UnaryOption

theorem holds_constraint_iff (reads : Reads value) (option : UnaryOption) (gap : Gap α)
    (atom : String) :
    ((option.constraint gap atom).map value).Holds position ↔
      option.Says (fun difference => gap.comparison.Holds difference (value gap.distance))
        (pointOf position atom) := by
  cases option with
  | leftOfCenter => exact gap.holds_beforeOrigin_iff reads _
  | rightOfCenter => exact gap.holds_beyondOrigin_iff _
  | aboveCenter => exact gap.holds_beyondOrigin_iff _
  | belowCenter => exact gap.holds_beforeOrigin_iff reads _

end UnaryOption

/-! ### What alignments say -/

def Axis.other : Axis → Axis
  | .x => .y
  | .y => .x

namespace BinaryOption

def freeAxis? : BinaryOption → Option Axis
  | .horizontallyAligned => some .x
  | .verticallyAligned => some .y
  | _ => none

/-- Whether the first of two aligned atoms gets the lower coordinate when they are spaced. -/
def leads (placement : Placement α) (option : BinaryOption) (first second : String) : Bool :=
  match option with
  | .horizontallyAligned => Measure.atMost (placement.at first).x (placement.at second).x
  | .verticallyAligned => !Measure.atMost (placement.at second).y (placement.at first).y
  | _ => true

def apart {κ : Type} [Sub κ] (placement : Placement α) (option : BinaryOption) (axis : Axis)
    (first second : String) (position : Coordinate → κ) : κ :=
  if option.leads placement first second then
    position { axis := axis, atom := second } - position { axis := axis, atom := first }
  else
    position { axis := axis, atom := first } - position { axis := axis, atom := second }

/-- Aligned atoms share one coordinate, and are apart in the order of their places when they are
spaced. -/
theorem holds_aligned_iff (reads : Reads value) {option : BinaryOption} {axis : Axis}
    (free : option.freeAxis? = some axis) (gap : Gap α) (spaced : Bool) (placement : Placement α)
    (first second : String) :
    (∀ constraint ∈ option.constraints gap spaced placement first second,
      (constraint.map value).Holds position) ↔
      position { axis := axis.other, atom := first } =
          position { axis := axis.other, atom := second } ∧
        (spaced = true → gap.comparison.Holds (option.apart placement axis first second position)
          (value gap.distance)) := by
  cases option with
  | leftOf | rightOf | above | below | directlyLeftOf | directlyRightOf | directlyAbove |
      directlyBelow | outsideRingOf | insideRingOf | contains => cases free
  | horizontallyAligned =>
      cases free
      rw [constraints, List.forall_mem_append, holds_shared_iff reads]
      refine and_congr_right (fun _ => ?_)
      cases spaced with
      | false => simp
      | true =>
          cases order : Measure.atMost (placement.at first).x (placement.at second).x with
          | true =>
              simp only [apart, leads, order, Bool.not_true, Bool.false_eq_true, if_false, if_true,
                List.forall_mem_singleton, forall_const]
              exact gap.holds_leftOf_iff first second
          | false =>
              simp only [apart, leads, order, Bool.not_true, Bool.false_eq_true, if_false,
                List.forall_mem_singleton, forall_const]
              exact gap.holds_leftOf_iff second first
  | verticallyAligned =>
      cases free
      rw [constraints, List.forall_mem_append, holds_shared_iff reads]
      refine and_congr_right (fun _ => ?_)
      cases spaced with
      | false => simp
      | true =>
          cases order : Measure.atMost (placement.at second).y (placement.at first).y with
          | true =>
              simp only [apart, leads, order, Bool.not_true, Bool.false_eq_true, if_false, if_true,
                List.forall_mem_singleton, forall_const]
              exact gap.holds_above_iff first second
          | false =>
              simp only [apart, leads, order, Bool.not_true, Bool.not_false, Bool.false_eq_true, if_false,
                if_true, List.forall_mem_singleton, forall_const]
              exact gap.holds_above_iff second first

theorem says_of_holds (reads : Reads value) {option : BinaryOption}
    (supported : option.isSupported = true) (gap : Gap α) (spaced : Bool) (placement : Placement α)
    (first second : String)
    (holds : ∀ constraint ∈ option.constraints gap spaced placement first second,
      (constraint.map value).Holds position) :
    option.Says (fun difference => gap.comparison.Holds difference (value gap.distance))
      (spaced = true) (pointOf position first) (pointOf position second) := by
  cases option with
  | outsideRingOf | insideRingOf | contains => cases supported
  | leftOf =>
      rw [constraints, List.forall_mem_singleton] at holds
      exact (gap.holds_leftOf_iff first second).mp holds
  | rightOf =>
      rw [constraints, List.forall_mem_singleton] at holds
      exact (gap.holds_leftOf_iff second first).mp holds
  | above =>
      rw [constraints, List.forall_mem_singleton] at holds
      exact (gap.holds_above_iff first second).mp holds
  | below =>
      rw [constraints, List.forall_mem_singleton] at holds
      exact (gap.holds_above_iff second first).mp holds
  | directlyLeftOf =>
      rw [constraints, List.forall_mem_cons, holds_shared_iff reads] at holds
      exact ⟨(gap.holds_leftOf_iff first second).mp holds.1, holds.2⟩
  | directlyRightOf =>
      rw [constraints, List.forall_mem_cons, holds_shared_iff reads] at holds
      exact ⟨(gap.holds_leftOf_iff second first).mp holds.1, holds.2⟩
  | directlyAbove =>
      rw [constraints, List.forall_mem_cons, holds_shared_iff reads] at holds
      exact ⟨(gap.holds_above_iff first second).mp holds.1, holds.2⟩
  | directlyBelow =>
      rw [constraints, List.forall_mem_cons, holds_shared_iff reads] at holds
      exact ⟨(gap.holds_above_iff second first).mp holds.1, holds.2⟩
  | horizontallyAligned =>
      obtain ⟨level, apart⟩ := (holds_aligned_iff reads rfl gap spaced placement first second).mp holds
      refine ⟨level, fun isSpaced => ?_⟩
      replace apart := apart isSpaced
      unfold BinaryOption.apart at apart
      split at apart
      · exact Or.inl apart
      · exact Or.inr apart
  | verticallyAligned =>
      obtain ⟨level, apart⟩ := (holds_aligned_iff reads rfl gap spaced placement first second).mp holds
      refine ⟨level, fun isSpaced => ?_⟩
      replace apart := apart isSpaced
      unfold BinaryOption.apart at apart
      split at apart
      · exact Or.inr apart
      · exact Or.inl apart

end BinaryOption

end RelationalLayout
