/-
Runs of a stager.

A layout that a stager rejects leaves it as it was. After any sequence of calls its
queue, its graphs and the atoms it mentions are therefore those of the layouts that it
accepted, and an arrangement never meets a layout that it has no rule for.
-/

import RelationalLayout.Proofs.CyclicRule

namespace RelationalLayout

/-! ### Items kept once -/

namespace CycleGraph

theorem foldl_addOnce_eraseDups {α : Type} [DecidableEq α] (items later : List α) :
    later.foldl addOnce items.eraseDups = (items ++ later).eraseDups := by
  induction later generalizing items with
  | nil => rw [List.foldl_nil, List.append_nil]
  | cons item later ih =>
      have added : addOnce items.eraseDups item = (items ++ [item]).eraseDups :=
        (eraseDups_concat items item).symm
      rw [List.foldl_cons, added, ih, List.append_assoc, List.singleton_append]

theorem foldl_addOnce_of_nodup {α : Type} [DecidableEq α] {later : List α}
    (distinct : later.Nodup) (items : List α) :
    later.foldl addOnce items = items ++ later.filter (fun item => item ∉ items) := by
  induction later generalizing items with
  | nil => exact (List.append_nil items).symm
  | cons item later ih =>
      obtain ⟨fresh, laterDistinct⟩ := List.nodup_cons.mp distinct
      rw [List.foldl_cons, ih laterDistinct, addOnce]
      by_cases known : item ∈ items
      · rw [if_pos known, List.filter_cons_of_neg (by simpa using known)]
      · have others : later.filter (fun other => other ∉ items ++ [item]) =
            later.filter (fun other => other ∉ items) := by
          apply List.filter_congr
          intro other member
          have different : other ≠ item := fun same => fresh (same ▸ member)
          simp [different]
        rw [if_neg known, List.filter_cons_of_pos (by simpa using known), others,
          List.append_assoc, List.singleton_append]

theorem nodup_foldl_addOnce {α : Type} [DecidableEq α] {items : List α} (distinct : items.Nodup)
    (later : List α) : (later.foldl addOnce items).Nodup := by
  induction later generalizing items with
  | nil => exact distinct
  | cons item later ih => exact ih (nodup_addOnce distinct item)

end CycleGraph

namespace Stager

/-! ### Calls -/

def afterCalls (stager : Stager) : List GroundLayout → Stager
  | [] => stager
  | layout :: rest => (stager.stage layout).1.afterCalls rest

def accepted (stager : Stager) : List GroundLayout → List GroundLayout
  | [] => []
  | layout :: rest =>
      match stager.stage layout with
      | (next, none) => layout :: next.accepted rest
      | (next, some _) => next.accepted rest

/-- All that a stager has is of some layouts, in their order. -/
structure Holds (stager : Stager) (layouts : List GroundLayout) : Prop where
  stageable : ∀ layout ∈ layouts, layout.isStageable = true
  queue : stager.layouts = layouts.filter (fun layout => layout.tag?.isNone)
  draws : stager.Draws layouts
  mentioned : stager.mentioned = (layouts.flatMap Layout.operands).eraseDups

variable {stager next : Stager} {layouts : List GroundLayout} {layout : GroundLayout}

theorem holds_empty (settings : StagingSettings) : (empty settings).Holds [] where
  stageable := fun _ impossible => absurd impossible List.not_mem_nil
  queue := rfl
  draws := draws_empty settings
  mentioned := rfl

theorem holds_of_accepted (holds : stager.Holds layouts)
    (accepted : stager.stage layout = (next, none)) : next.Holds (layouts ++ [layout]) := by
  obtain ⟨stageable, _, queued⟩ := stage_layouts accepted
  refine ⟨?_, ?_, draws_stage holds.draws accepted, ?_⟩
  · exact List.forall_mem_append.mpr ⟨holds.stageable, List.forall_mem_singleton.mpr stageable⟩
  · rw [queued, holds.queue, List.filter_append]
  · obtain ⟨_, rfl⟩ := stage_eq_none_iff.mp accepted
    rw [mention, queue_mentioned, holds.mentioned, CycleGraph.foldl_addOnce_eraseDups,
      List.flatMap_append, List.flatMap_singleton]

theorem eq_of_rejected {fault : StageError} (rejected : stager.stage layout = (next, some fault)) :
    next = stager := by
  cases stageable : layout.isStageable with
  | true =>
      rw [stage_of_isStageable stageable] at rejected
      cases rejected
  | false =>
      rw [stage_of_not_isStageable stageable] at rejected
      cases rejected
      rfl

theorem holds_afterCalls (holds : stager.Holds layouts) (calls : List GroundLayout) :
    (stager.afterCalls calls).Holds (layouts ++ stager.accepted calls) := by
  induction calls generalizing stager layouts with
  | nil =>
      rw [accepted, List.append_nil]
      exact holds
  | cons layout rest ih =>
      rw [afterCalls, accepted]
      split
      · rename_i next here
        rw [here, ← List.singleton_append, ← List.append_assoc]
        exact ih (holds_of_accepted holds here)
      · rename_i next fault here
        rw [here, eq_of_rejected here]
        exact ih holds

/-- What came before has no part in whether a layout is accepted. -/
theorem accepted_eq_filter (stager : Stager) (calls : List GroundLayout) :
    stager.accepted calls = calls.filter Layout.isStageable := by
  induction calls generalizing stager with
  | nil => rfl
  | cons layout rest ih =>
      rw [accepted]
      cases stageable : layout.isStageable with
      | true =>
          rw [stage_of_isStageable stageable, List.filter_cons_of_pos stageable]
          exact congrArg (layout :: ·) (ih _)
      | false =>
          rw [stage_of_not_isStageable stageable,
            List.filter_cons_of_neg (Bool.eq_false_iff.mp stageable)]
          exact ih stager

/-- Layouts staged together are calls up to the first that is rejected. -/
theorem stageEach_eq_afterCalls (stager : Stager) (layouts : List GroundLayout) :
    stager.stageEach layouts =
      (stager.afterCalls (layouts.takeWhile Layout.isStageable),
        (layouts.find? (fun layout => !layout.isStageable)).map .unsupported) := by
  induction layouts generalizing stager with
  | nil => rfl
  | cons layout rest ih =>
      rw [stageEach]
      cases stageable : layout.isStageable with
      | true =>
          rw [stage_of_isStageable stageable, List.takeWhile_cons_of_pos stageable, afterCalls,
            stage_of_isStageable stageable, List.find?_cons_of_neg (by simp [stageable])]
          exact ih _
      | false =>
          rw [stage_of_not_isStageable stageable,
            List.takeWhile_cons_of_neg (Bool.eq_false_iff.mp stageable),
            List.find?_cons_of_pos (by simp [stageable])]
          rfl

/-! ### What a run leaves -/

theorem Holds.placeable (holds : stager.Holds layouts) : stager.Placeable := by
  intro layout member
  rw [holds.queue] at member
  obtain ⟨given, untagged⟩ := List.mem_filter.mp member
  exact ⟨holds.stageable layout given, Option.isNone_iff_eq_none.mp untagged⟩

theorem Holds.atoms_eq (holds : stager.Holds layouts) (world : Instance) :
    stager.atoms world =
      world.atomNames ++ stager.mentioned.filter (fun atom => atom ∉ world.atomNames) := by
  have distinct : stager.mentioned.Nodup := by
    rw [holds.mentioned]
    exact nodup_eraseDups _
  exact CycleGraph.foldl_addOnce_of_nodup distinct world.atomNames

/-- The calls that are accepted are those for layouts that can be placed, and a rejected call
changes nothing. After any calls a new stager has what the accepted layouts give it: those without
a tag in its queue, the edges of the others in the graphs of their cycles, and the operands of all
in the order of their first mention. Layouts staged together are calls up to the first that is
rejected. So an arrangement never meets a layout without a rule, and its atoms are those of the
instance and then the others mentioned. -/
theorem stage_runs_exact {α : Type} [Measure α] (settings : StagingSettings)
    (calls : List GroundLayout) :
    let stager := (empty settings).afterCalls calls
    let accepted := (empty settings).accepted calls
    accepted = calls.filter Layout.isStageable ∧
      (∀ (before rejecting : Stager) layout fault,
        before.stage layout = (rejecting, some fault) → rejecting = before) ∧
      (∀ (before : Stager) (layouts : List GroundLayout), before.stageEach layouts =
        (before.afterCalls (layouts.takeWhile Layout.isStageable),
          (layouts.find? (fun layout => !layout.isStageable)).map .unsupported)) ∧
      stager.layouts = accepted.filter (fun layout => layout.tag?.isNone) ∧
      (∀ cycle, stager.cycles.find? cycle =
        CycleGraph.ofEdges? (GroundLayout.edgesIn cycle accepted)) ∧
      stager.mentioned = (accepted.flatMap Layout.operands).eraseDups ∧
      ∀ world : Instance,
        (∀ layout, stager.arrange (α := α) world ≠ .error (.unsupported layout)) ∧
          stager.atoms world =
            world.atomNames ++ stager.mentioned.filter (fun atom => atom ∉ world.atomNames) ∧
          (world.atomNames.Nodup → (stager.atoms world).Nodup) := by
  intro stager accepted
  have holds : stager.Holds accepted := holds_afterCalls (holds_empty settings) calls
  refine ⟨accepted_eq_filter _ calls, fun _ _ _ _ rejected => eq_of_rejected rejected,
    stageEach_eq_afterCalls, holds.queue, holds.draws, holds.mentioned, ?_⟩
  intro world
  refine ⟨?_, holds.atoms_eq world, fun distinct => CycleGraph.nodup_foldl_addOnce distinct _⟩
  intro layout failed
  rcases arrange_error holds.placeable failed with ⟨_, impossible⟩ | ⟨_, impossible⟩ <;>
    cases impossible

example : ((empty .default).afterCalls [.grouping "a" "all", .unary .leftOfCenter .unspecified "b",
    .binary .contains .unspecified "b" "c", .cyclic .clockwise "d" "b" "ring"]).mentioned =
      ["b", "d"] := by decide

end Stager

end RelationalLayout
