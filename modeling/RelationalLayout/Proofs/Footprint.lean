/-
Mirrored layouts have the same footprints.

A relation and its mirror with the operands swapped say the same, and footprints
say each thing in one way only. A key has the texts of its footprints.
-/

import RelationalLayout.Footprint
import RelationalLayout.Proofs.Query

namespace RelationalLayout.GroundLayout

theorem aligned_comm (option : BinaryOption) (separation : Separation) (first second : String) :
    aligned option separation first second = aligned option separation second first := by
  unfold aligned
  by_cases ordered : first ≤ second
  · by_cases reversed : second ≤ first
    · rw [String.le_antisymm ordered reversed]
    · rw [if_pos ordered, if_neg reversed]
  · have reversed : second ≤ first := (String.le_total first second).resolve_left ordered
    rw [if_neg ordered, if_pos reversed]

theorem footprints_mirror {option mirror : BinaryOption} (mirrored : option.mirror = some mirror)
    (separation : Separation) (first second : String) :
    footprints (.binary mirror separation second first) =
      footprints (.binary option separation first second) := by
  cases option with
  | outsideRingOf | insideRingOf | contains => cases mirrored
  | leftOf | rightOf | above | below =>
      cases mirrored
      rfl
  | horizontallyAligned | verticallyAligned | directlyLeftOf | directlyRightOf | directlyAbove |
      directlyBelow =>
      cases mirrored
      rw [footprints, footprints, aligned_comm]

end RelationalLayout.GroundLayout

namespace RelationalLayout.FootprintKey

theorem mem_ofFootprints_iff {footprints : List GroundLayout} {text : String} :
    text ∈ ofFootprints footprints ↔ ∃ footprint ∈ footprints, footprint.text = text := by
  rw [ofFootprints, List.mem_eraseDups, List.mem_mergeSort, List.mem_map]

theorem pairwise_ofFootprints (footprints : List GroundLayout) :
    (ofFootprints footprints).Pairwise (fun left right => left ≤ right) := by
  have sorted : ((footprints.map Layout.text).mergeSort
      (fun left right => decide (left ≤ right))).Pairwise
        (fun left right => decide (left ≤ right) = true) := by
    apply List.pairwise_mergeSort
    · intro first second third below above
      exact decide_eq_true (String.le_trans (of_decide_eq_true below) (of_decide_eq_true above))
    · intro first second
      rw [Bool.or_eq_true, decide_eq_true_eq, decide_eq_true_eq]
      exact String.le_total first second
  exact (sorted.sublist (eraseDups_sublist _)).imp of_decide_eq_true

theorem ofFootprints_congr {footprints others : List GroundLayout}
    (same : ∀ text, (∃ footprint ∈ footprints, footprint.text = text) ↔
      ∃ other ∈ others, other.text = text) : ofFootprints footprints = ofFootprints others := by
  have members (text : String) : text ∈ ofFootprints footprints ↔ text ∈ ofFootprints others := by
    rw [mem_ofFootprints_iff, mem_ofFootprints_iff, same]
  have permuted := (List.perm_ext_iff_of_nodup (nodup_eraseDups _) (nodup_eraseDups _)).mpr members
  exact permuted.eq_of_pairwise (fun _ _ _ _ => String.le_antisymm) (pairwise_ofFootprints footprints)
    (pairwise_ofFootprints others)

end RelationalLayout.FootprintKey
