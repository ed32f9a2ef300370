/-
What mirrored layouts ask of coordinates.

A relation and its mirror with the operands swapped have the same solutions, unless
aligned atoms are to be apart and their places do not tell which of them comes first.
Then each of the two layouts puts its own first operand in front.
-/

import RelationalLayout.Proofs.Float.Value
import RelationalLayout.Proofs.Mirror

namespace RelationalLayout

variable {α κ : Type} [Measure α] [AddCommGroup κ] [LinearOrder κ] [IsOrderedAddMonoid κ]
  {value : α → κ}

/-! ### Differences and their opposites -/

namespace Separation

/-- A separation admits a difference and its opposite only if it admits none at all. -/
theorem exists_admits_both_iff (settings : StagingSettings) (separation : Separation) :
    (∃ difference, separation.Admits settings value difference ∧
      separation.Admits settings value (-difference)) ↔ separation.Admits settings value 0 := by
  have least {distance : κ} (both : ∃ difference, distance ≤ difference ∧ distance ≤ -difference) :
      distance ≤ 0 := by
    obtain ⟨difference, ahead, back⟩ := both
    rcases le_total difference 0 with negative | positive
    · exact ahead.trans negative
    · exact back.trans (neg_nonpos.mpr positive)
  constructor
  · intro both
    cases separation with
    | unspecified => exact least both
    | atLeast => exact least both
    | exactly distance =>
        obtain ⟨difference, ahead, back⟩ := both
        have same : -difference = difference := back.trans ahead.symm
        have zero : difference = 0 := neg_eq_self.mp same
        exact zero ▸ ahead
  · intro none
    refine ⟨0, none, ?_⟩
    rw [neg_zero]
    exact none

/-- A separation that is given admits every difference with its opposite only if it is exactly
zero. -/
theorem admits_neg_iff [Nontrivial κ] (settings : StagingSettings) {separation : Separation}
    (given : separation ≠ .unspecified) :
    (∀ difference, separation.Admits settings value difference ↔
      separation.Admits settings value (-difference)) ↔
      ∃ distance, separation = .exactly distance ∧ value (Measure.ofFloat distance) = 0 := by
  cases separation with
  | unspecified => exact absurd rfl given
  | atLeast distance =>
      refine iff_of_false ?_ ?_
      · intro same
        obtain ⟨step, positive⟩ := exists_zero_lt (α := κ)
        have beyond : |value (Measure.ofFloat distance)| <
            |value (Measure.ofFloat distance)| + step := lt_add_of_pos_right _ positive
        have ahead := (le_abs_self (value (Measure.ofFloat distance))).trans beyond.le
        have back := (same (|value (Measure.ofFloat distance)| + step)).mp ahead
        exact absurd (back.trans_lt (neg_lt_neg beyond))
          (not_lt.mpr (neg_abs_le (value (Measure.ofFloat distance))))
      · rintro ⟨_, impossible, _⟩
        cases impossible
  | exactly distance =>
      constructor
      · intro same
        have back : -value (Measure.ofFloat distance) = value (Measure.ofFloat distance) :=
          (same (value (Measure.ofFloat distance))).mp rfl
        exact ⟨distance, rfl, neg_eq_self.mp back⟩
      · rintro ⟨_, sameDistance, zero⟩ difference
        cases sameDistance
        change difference = value (Measure.ofFloat distance) ↔
          -difference = value (Measure.ofFloat distance)
        rw [zero, neg_eq_zero]

end Separation

/-! ### Places that do not tell -/

namespace BinaryOption

omit [AddCommGroup κ] [LinearOrder κ] [IsOrderedAddMonoid κ]

/-- Two aligned atoms are to be apart, and neither of their places is before the other: they are
the same along the axis, or cannot be compared. -/
def IsContested (placement : Placement α) (option : BinaryOption) (separation : Separation)
    (first second : String) : Prop :=
  separation ≠ .unspecified ∧ first ≠ second ∧ ∃ axis, option.freeAxis? = some axis ∧
    Measure.atMost ((placement.at first).along axis) ((placement.at second).along axis) =
      Measure.atMost ((placement.at second).along axis) ((placement.at first).along axis)

theorem leads_swap_iff {placement : Placement α} {option : BinaryOption} {axis : Axis}
    (free : option.freeAxis? = some axis) {first second : String} :
    option.leads placement first second = option.leads placement second first ↔
      Measure.atMost ((placement.at first).along axis) ((placement.at second).along axis) =
        Measure.atMost ((placement.at second).along axis) ((placement.at first).along axis) := by
  cases option with
  | leftOf | rightOf | above | below | directlyLeftOf | directlyRightOf | directlyAbove |
      directlyBelow | outsideRingOf | insideRingOf | contains => cases free
  | horizontallyAligned =>
      cases free
      rfl
  | verticallyAligned =>
      cases free
      simp only [leads, Point.along, Bool.not_inj_iff]
      exact eq_comm

theorem mirror_of_freeAxis? {option : BinaryOption} {axis : Axis}
    (free : option.freeAxis? = some axis) : option.mirror = some option := by
  cases option <;> first | rfl | cases free

theorem apart_swap_of_ne [Sub κ] {placement : Placement α} {option : BinaryOption} {first second : String}
    (untied : option.leads placement first second ≠ option.leads placement second first)
    (axis : Axis) (position : Assignment κ) :
    option.apart placement axis second first position =
      option.apart placement axis first second position := by
  rw [apart, apart, Bool.eq_not_of_ne untied]
  cases option.leads placement second first <;> rfl

end BinaryOption

/-! ### Solutions -/

def GroundLayout.Holds (settings : StagingSettings) (placement : Placement α) (value : α → κ)
    (position : Assignment κ) (layout : GroundLayout) : Prop :=
  ∀ constraint ∈ layout.constraints settings placement, (constraint.map value).Holds position

namespace GroundLayout

variable {settings : StagingSettings} {placement : Placement α} {position : Assignment κ}

omit [IsOrderedAddMonoid κ] in
theorem holds_mirror_of_freeAxis?_eq_none (reads : Reads value) {option mirror : BinaryOption}
    (mirrored : option.mirror = some mirror) (ordered : option.freeAxis? = none)
    (separation : Separation) (first second : String) :
    Holds settings placement value position (.binary mirror separation second first) ↔
      Holds settings placement value position (.binary option separation first second) := by
  cases option with
  | outsideRingOf | insideRingOf | contains => cases mirrored
  | horizontallyAligned | verticallyAligned => cases ordered
  | leftOf | rightOf | above | below =>
      cases mirrored
      rfl
  | directlyLeftOf | directlyRightOf | directlyAbove | directlyBelow =>
      cases mirrored
      rw [Holds, Holds, constraints, constraints, BinaryOption.constraints, BinaryOption.constraints,
        List.forall_mem_cons, List.forall_mem_cons, holds_shared_iff reads, holds_shared_iff reads]
      exact and_congr_right (fun _ => eq_comm)

theorem holds_aligned_iff (reads : Reads value) {option : BinaryOption} {axis : Axis}
    (free : option.freeAxis? = some axis) (separation : Separation) (first second : String) :
    Holds settings placement value position (.binary option separation first second) ↔
      position { axis := axis.other, atom := first } =
          position { axis := axis.other, atom := second } ∧
        (separation ≠ .unspecified → separation.Admits settings value
          (option.apart placement axis first second position)) := by
  rw [Holds, constraints, BinaryOption.holds_aligned_iff reads free, decide_eq_true_eq]
  refine and_congr_right (fun _ => imp_congr_right (fun _ => ?_))
  exact settings.holds_gap_iff value separation _

theorem holds_mirror_of_not_contested (reads : Reads value) {option mirror : BinaryOption}
    (mirrored : option.mirror = some mirror) {separation : Separation} {first second : String}
    (settled : ¬option.IsContested placement separation first second) :
    Holds settings placement value position (.binary mirror separation second first) ↔
      Holds settings placement value position (.binary option separation first second) := by
  cases free : option.freeAxis? with
  | none => exact holds_mirror_of_freeAxis?_eq_none reads mirrored free separation first second
  | some axis =>
      rw [BinaryOption.mirror_of_freeAxis? free] at mirrored
      cases mirrored
      by_cases same : first = second
      · rw [same]
      · rw [holds_aligned_iff reads free, holds_aligned_iff reads free]
        refine and_congr eq_comm (imp_congr_right (fun given => ?_))
        rw [BinaryOption.apart_swap_of_ne]
        intro tied
        exact settled ⟨given, same, axis, free, (BinaryOption.leads_swap_iff free).mp tied⟩

omit [LinearOrder κ] [IsOrderedAddMonoid κ] in
theorem apart_swap_of_eq {option : BinaryOption} {first second : String}
    (tied : option.leads placement first second = option.leads placement second first)
    (axis : Axis) (position : Assignment κ) :
    option.apart placement axis second first position =
      -option.apart placement axis first second position := by
  rw [BinaryOption.apart, BinaryOption.apart, ← tied]
  cases option.leads placement first second with
  | true => exact (neg_sub _ _).symm
  | false => exact (neg_sub _ _).symm

omit [LinearOrder κ] [IsOrderedAddMonoid κ] in
theorem exists_level (option : BinaryOption) (axis : Axis) {first second : String}
    (different : first ≠ second) (difference : κ) :
    ∃ position : Assignment κ,
      position { axis := axis.other, atom := first } =
          position { axis := axis.other, atom := second } ∧
        option.apart placement axis first second position = difference := by
  have place (atom : String) : ∃ position : Assignment κ,
      (∀ other, position { axis := axis.other, atom := other } = 0) ∧
      ∀ other, position { axis := axis, atom := other } = if other = atom then difference else 0 := by
    refine ⟨fun coordinate =>
      if coordinate = { axis := axis, atom := atom } then difference else 0, ?_, ?_⟩
    · intro other
      cases axis <;> simp [Axis.other]
    · simp
  -- The atom with the higher coordinate is put at the difference, all others at the origin.
  cases leads : option.leads placement first second with
  | true =>
      obtain ⟨position, level, free⟩ := place second
      refine ⟨position, (level first).trans (level second).symm, ?_⟩
      rw [BinaryOption.apart, leads, if_pos rfl, free, free, if_pos rfl, if_neg different, sub_zero]
  | false =>
      obtain ⟨position, level, free⟩ := place first
      refine ⟨position, (level first).trans (level second).symm, ?_⟩
      rw [BinaryOption.apart, leads, if_neg Bool.false_ne_true, free, free, if_pos rfl,
        if_neg different.symm, sub_zero]

theorem exists_difference_of_contested (reads : Reads value) (settings : StagingSettings)
    {option : BinaryOption} {separation : Separation} {first second : String}
    (contested : option.IsContested placement separation first second) :
    ∃ (level : Assignment κ → Prop) (ahead : Assignment κ → κ),
      (∀ difference, ∃ position, level position ∧ ahead position = difference) ∧
      ∀ position,
        (Holds settings placement value position (.binary option separation first second) ↔
          level position ∧ separation.Admits settings value (ahead position)) ∧
        (Holds settings placement value position (.binary option separation second first) ↔
          level position ∧ separation.Admits settings value (-ahead position)) := by
  obtain ⟨given, different, axis, free, tied⟩ := contested
  refine ⟨fun position => position { axis := axis.other, atom := first } =
      position { axis := axis.other, atom := second },
    option.apart placement axis first second, exists_level option axis different, ?_⟩
  intro position
  rw [holds_aligned_iff reads free, holds_aligned_iff reads free,
    apart_swap_of_eq ((BinaryOption.leads_swap_iff free).mpr tied)]
  exact ⟨and_congr_right (fun _ => forall_prop_of_true given),
    and_congr eq_comm (forall_prop_of_true given)⟩

theorem holds_iff_iff_of_contested [Nontrivial κ] (reads : Reads value)
    (settings : StagingSettings) {option : BinaryOption} {separation : Separation}
    {first second : String} (contested : option.IsContested placement separation first second) :
    (∀ position,
      Holds settings placement value position (.binary option separation first second) ↔
        Holds settings placement value position (.binary option separation second first)) ↔
      ∃ distance, separation = .exactly distance ∧ value (Measure.ofFloat distance) = 0 := by
  obtain ⟨level, ahead, reaches, asks⟩ := exists_difference_of_contested reads settings contested
  rw [← Separation.admits_neg_iff settings contested.1]
  constructor
  · intro same difference
    obtain ⟨position, isLevel, rfl⟩ := reaches difference
    have both := same position
    rw [(asks position).1, (asks position).2] at both
    exact ⟨fun forth => (both.mp ⟨isLevel, forth⟩).2, fun back => (both.mpr ⟨isLevel, back⟩).2⟩
  · intro symmetric position
    rw [(asks position).1, (asks position).2, symmetric]

theorem exists_holds_both_iff_of_contested (reads : Reads value) (settings : StagingSettings)
    {option : BinaryOption} {separation : Separation} {first second : String}
    (contested : option.IsContested placement separation first second) :
    (∃ position,
      Holds settings placement value position (.binary option separation first second) ∧
        Holds settings placement value position (.binary option separation second first)) ↔
      separation.Admits settings value 0 := by
  obtain ⟨level, ahead, reaches, asks⟩ := exists_difference_of_contested reads settings contested
  rw [← Separation.exists_admits_both_iff]
  constructor
  · rintro ⟨position, holds, imageHolds⟩
    exact ⟨ahead position, ((asks position).1.mp holds).2, ((asks position).2.mp imageHolds).2⟩
  · rintro ⟨difference, forth, back⟩
    obtain ⟨position, isLevel, rfl⟩ := reaches difference
    exact ⟨position, (asks position).1.mpr ⟨isLevel, forth⟩, (asks position).2.mpr ⟨isLevel, back⟩⟩

/-! ### Mirror images -/

/-- The constraints of mirror images have the same solutions, and can be met together when those of
one can be met, unless aligned atoms are to be apart and their places are tied. In that case the
solutions are the same only at a distance of exactly zero, and some are shared only where no
distance at all is admitted. -/
theorem mirror_constraints_exact [Nontrivial κ] (reads : Reads value)
    {option mirror : BinaryOption} (mirrored : option.mirror = some mirror)
    (settings : StagingSettings) (placement : Placement α) (separation : Separation)
    (first second : String) :
    let layout : GroundLayout := .binary option separation first second
    let image : GroundLayout := .binary mirror separation second first
    let contested := option.IsContested placement separation first second
    ((∀ position, layout.Holds settings placement value position ↔
        image.Holds settings placement value position) ↔
      (contested → ∃ distance, separation = .exactly distance ∧
        value (Measure.ofFloat distance) = 0)) ∧
    ((∃ position, layout.Holds settings placement value position) ∨
        (∃ position, image.Holds settings placement value position) →
      ((∃ position, layout.Holds settings placement value position ∧
          image.Holds settings placement value position) ↔
        (contested → separation.Admits settings value 0))) := by
  intro layout image contested
  by_cases isContested : contested
  · obtain ⟨_, _, axis, free, _⟩ := id isContested
    rw [BinaryOption.mirror_of_freeAxis? free] at mirrored
    cases mirrored
    rw [forall_prop_of_true isContested, forall_prop_of_true isContested]
    exact ⟨holds_iff_iff_of_contested reads settings isContested,
      fun _ => exists_holds_both_iff_of_contested reads settings isContested⟩
  · have same (position : Assignment κ) : image.Holds settings placement value position ↔
        layout.Holds settings placement value position :=
      holds_mirror_of_not_contested reads mirrored isContested
    rw [forall_prop_of_false isContested, forall_prop_of_false isContested, iff_true, iff_true]
    refine ⟨fun position => (same position).symm, ?_⟩
    rintro (⟨position, holds⟩ | ⟨position, imageHolds⟩)
    · exact ⟨position, holds, (same position).mpr holds⟩
    · exact ⟨position, (same position).mp imageHolds, imageHolds⟩

/-- Atoms side by side that are to be level: their places tell which of them comes first. -/
theorem mirror_constraints_exact_side_by_side :
    let placement : Placement Float := .ofList (Stager.seeds 150 ["a", "b"])
    let layout : GroundLayout := .binary .horizontallyAligned (.exactly 40) "a" "b"
    let image : GroundLayout := .binary .horizontallyAligned (.exactly 40) "b" "a"
    Reads exactValue ∧
      BinaryOption.mirror .horizontallyAligned = some .horizontallyAligned ∧
      ∀ position : Assignment ℚ, layout.Holds .default placement exactValue position ↔
        image.Holds .default placement exactValue position := by
  intro placement layout image
  have mirrored : BinaryOption.mirror .horizontallyAligned = some .horizontallyAligned := rfl
  refine ⟨reads_exactValue, mirrored, ?_⟩
  refine (mirror_constraints_exact reads_exactValue mirrored .default placement (.exactly 40)
    "a" "b").1.mpr ?_
  rintro ⟨_, _, axis, free, tied⟩
  cases free
  exact absurd tied (by decide +kernel)

/-- Atoms side by side that are to be one above the other: neither is placed above the other, so
each of two mirror images can be arranged, and both together cannot. -/
theorem not_mirrored_side_by_side :
    let placement : Placement Float := .ofList (Stager.seeds 150 ["a", "b"])
    let layout : GroundLayout := .binary .verticallyAligned (.exactly 40) "a" "b"
    let image : GroundLayout := .binary .verticallyAligned (.exactly 40) "b" "a"
    let arrangement (layouts : List GroundLayout) : Except StageError (Solution Float) := do
      (← (Stager.empty .default).stageAll layouts).arrange
        { atoms := [{ name := "a", signature := "A" }, { name := "b", signature := "A" }]
          facts := [] }
    BinaryOption.mirror .verticallyAligned = some .verticallyAligned ∧
      (¬∀ position : Assignment ℚ, layout.Holds .default placement exactValue position ↔
        image.Holds .default placement exactValue position) ∧
      (¬∃ position : Assignment ℚ, layout.Holds .default placement exactValue position ∧
        image.Holds .default placement exactValue position) ∧
      (arrangement [layout]).isOk = true ∧ (arrangement [image]).isOk = true ∧
      (arrangement [layout, image]).isOk = false := by
  intro placement layout image arrangement
  have contested : BinaryOption.IsContested placement .verticallyAligned (.exactly 40) "a" "b" := by
    refine ⟨?_, by decide, .y, rfl, by decide +kernel⟩
    intro impossible
    cases impossible
  have apart : exactValue 40 ≠ 0 := by decide +kernel
  refine ⟨rfl, ?_, ?_, by decide +kernel, by decide +kernel, by decide +kernel⟩
  · intro same
    obtain ⟨distance, given, zero⟩ :=
      (holds_iff_iff_of_contested reads_exactValue .default contested).mp same
    cases given
    exact apart zero
  · intro both
    have none : 0 = exactValue 40 :=
      (exists_holds_both_iff_of_contested reads_exactValue .default contested).mp both
    exact apart none.symm

end GroundLayout

end RelationalLayout
