/-
What a staged arrangement keeps.

A stager accepts every layout that it has a rule for, and its solver has exactly the
constraints of the layouts accepted, however coordinates are pulled afterwards. The
positions read back under the names of the inputs are the values of the solver.
-/

import RelationalLayout.Proofs.CycleShape
import RelationalLayout.Proofs.SortedMap
import RelationalLayout.Proofs.Success
import RelationalLayout.Stager

namespace RelationalLayout

/-! ### Accepting layouts -/

namespace Stager

variable {stager next : Stager}

theorem stage_of_isStageable {layout : GroundLayout} (stageable : layout.isStageable = true)
    (stager : Stager) :
    stager.stage layout = ((stager.queue layout).mention layout.operands, none) := by
  rw [stage, if_pos stageable]

theorem stage_of_not_isStageable {layout : GroundLayout} (unplaced : layout.isStageable = false)
    (stager : Stager) : stager.stage layout = (stager, some (.unsupported layout)) := by
  rw [stage, if_neg (Bool.eq_false_iff.mp unplaced)]

theorem stage_eq_none_iff {layout : GroundLayout} :
    stager.stage layout = (next, none) ↔
      layout.isStageable = true ∧ next = (stager.queue layout).mention layout.operands := by
  cases stageable : layout.isStageable with
  | true =>
      rw [stage_of_isStageable stageable, Prod.mk.injEq, eq_comm]
      simp only [and_true, true_and]
  | false =>
      rw [stage_of_not_isStageable stageable, Prod.mk.injEq]
      simp only [reduceCtorEq, and_false, Bool.false_eq_true, false_and]

theorem queue_layouts {layout : GroundLayout} (stageable : layout.isStageable = true)
    (stager : Stager) :
    (stager.queue layout).layouts =
      stager.layouts ++ [layout].filter (fun layout => layout.tag?.isNone) := by
  cases layout with
  | unary | binary => rfl
  | cyclic => exact (List.append_nil _).symm
  | grouping => cases stageable

theorem queue_settings (stager : Stager) (layout : GroundLayout) :
    (stager.queue layout).settings = stager.settings := by
  cases layout <;> rfl

theorem queue_mentioned (stager : Stager) (layout : GroundLayout) :
    (stager.queue layout).mentioned = stager.mentioned := by
  cases layout <;> rfl

theorem stage_layouts {layout : GroundLayout} (accepted : stager.stage layout = (next, none)) :
    layout.isStageable = true ∧ next.settings = stager.settings ∧
      next.layouts = stager.layouts ++ [layout].filter (fun layout => layout.tag?.isNone) := by
  obtain ⟨stageable, rfl⟩ := stage_eq_none_iff.mp accepted
  exact ⟨stageable, queue_settings stager layout, queue_layouts stageable stager⟩

theorem stageEach_layouts {layouts : List GroundLayout}
    (staged : stager.stageEach layouts = (next, none)) :
    (∀ layout ∈ layouts, layout.isStageable = true) ∧ next.settings = stager.settings ∧
      next.layouts = stager.layouts ++ layouts.filter (fun layout => layout.tag?.isNone) := by
  induction layouts generalizing stager with
  | nil =>
      cases staged
      refine ⟨?_, rfl, ?_⟩
      · intro layout impossible
        cases impossible
      · rw [List.filter_nil, List.append_nil]
  | cons layout rest ih =>
      rw [stageEach] at staged
      split at staged
      · rename_i middle accepted
        obtain ⟨stageable, sameSettings, added⟩ := stage_layouts accepted
        obtain ⟨restStageable, restSettings, restAdded⟩ := ih staged
        refine ⟨List.forall_mem_cons.mpr ⟨stageable, restStageable⟩,
          restSettings.trans sameSettings, ?_⟩
        rw [restAdded, added, List.append_assoc, ← List.filter_append, List.singleton_append]
      · cases staged

theorem stageAll_layouts {layouts : List GroundLayout}
    (staged : stager.stageAll layouts = .ok next) :
    (∀ layout ∈ layouts, layout.isStageable = true) ∧ next.settings = stager.settings ∧
      next.layouts = stager.layouts ++ layouts.filter (fun layout => layout.tag?.isNone) := by
  rw [stageAll] at staged
  cases each : stager.stageEach layouts with
  | mk last fault =>
      rw [each] at staged
      cases fault with
      | some fault => cases staged
      | none =>
          cases staged
          exact stageEach_layouts each

/-- What is queued can be placed, and there is no edge of a cycle in it. -/
def Placeable (stager : Stager) : Prop :=
  ∀ layout ∈ stager.layouts, layout.isStageable = true ∧ layout.tag? = none

theorem placeable_of_stageAll {settings : StagingSettings} {layouts : List GroundLayout}
    (staged : (empty settings).stageAll layouts = .ok stager) : stager.Placeable := by
  obtain ⟨stageable, _, queued⟩ := stageAll_layouts staged
  intro layout member
  rw [queued] at member
  obtain ⟨given, untagged⟩ := List.mem_filter.mp ((List.mem_append.mp member).resolve_left
    List.not_mem_nil)
  exact ⟨stageable layout given, Option.isNone_iff_eq_none.mp untagged⟩

theorem mem_atoms {world : Instance} {atom : String} :
    atom ∈ stager.atoms world ↔ atom ∈ world.atomNames ∨ atom ∈ stager.mentioned :=
  CycleGraph.mem_foldl_addOnce

end Stager

/-! ### Solving -/

theorem GroundLayout.demands_of_demands?_eq_some {α : Type} [Measure α]
    {settings : StagingSettings} {placement : Placement α} {layout : GroundLayout}
    {demands : List (Demand α)} (placed : layout.demands? settings placement = some demands) :
    demands = layout.demands settings placement := by
  cases layout with
  | binary option => cases option <;> cases placed <;> rfl
  | unary | cyclic | grouping => cases placed <;> rfl

theorem GroundLayout.demands?_of_isStageable {α : Type} [Measure α] (settings : StagingSettings)
    (placement : Placement α) {layout : GroundLayout} (stageable : layout.isStageable = true)
    (untagged : layout.tag? = none) :
    layout.demands? settings placement = some (layout.demands settings placement) := by
  cases layout with
  | unary => rfl
  | binary option => cases option <;> first | rfl | cases stageable
  | cyclic | grouping => cases untagged

namespace Solver

variable {α : Type} [Measure α] {solver next : Solver α}

omit [Measure α] in
theorem register_demands (solver : Solver α) (coordinate : Coordinate) :
    (solver.register coordinate).demands = solver.demands := by
  unfold register
  split <;> rfl

omit [Measure α] in
theorem foldl_register_demands (solver : Solver α) (coordinates : List Coordinate) :
    (coordinates.foldl register solver).demands = solver.demands := by
  induction coordinates generalizing solver with
  | nil => rfl
  | cons coordinate coordinates ih => rw [List.foldl_cons, ih, register_demands]

theorem require_demands {demand : Demand α} (required : solver.require demand = .ok next) :
    next.demands = solver.demands ++ [demand] := by
  simp only [require] at required
  split at required
  · cases required
    rw [foldl_register_demands]
  · cases required

theorem requireAll_demands {demands : List (Demand α)}
    (required : solver.requireAll demands = .ok next) :
    next.demands = solver.demands ++ demands := by
  induction demands generalizing solver with
  | nil =>
      cases required
      exact (List.append_nil _).symm
  | cons demand demands ih =>
      obtain ⟨middle, first, rest⟩ := bind_eq_ok_iff.mp required
      rw [ih rest, require_demands first, List.append_assoc, List.singleton_append]

theorem requireAll_append {earlier : List (Demand α)}
    (required : solver.requireAll earlier = .ok next) (later : List (Demand α)) :
    solver.requireAll (earlier ++ later) = next.requireAll later := by
  induction earlier generalizing solver with
  | nil =>
      cases required
      rfl
  | cons demand rest ih =>
      obtain ⟨middle, first, required⟩ := bind_eq_ok_iff.mp required
      rw [List.cons_append, requireAll, first]
      exact ih required

theorem suggest_demands {coordinate : Coordinate} {number : α} {strength : Strength}
    (suggested : solver.suggest coordinate number strength = .ok next) :
    next.demands = solver.demands := by
  obtain ⟨_, _, suggested⟩ := bind_eq_ok_iff.mp suggested
  obtain ⟨_, _, suggested⟩ := bind_eq_ok_iff.mp suggested
  cases suggested
  exact register_demands solver coordinate

theorem suggestAll_demands {placement : Placement α} {circled atoms : List String}
    (suggested : Stager.suggestAll placement circled solver atoms = .ok next) :
    next.demands = solver.demands := by
  induction atoms generalizing solver with
  | nil =>
      cases suggested
      rfl
  | cons atom atoms ih =>
      obtain ⟨first, suggestedX, suggested⟩ := bind_eq_ok_iff.mp suggested
      obtain ⟨second, suggestedY, rest⟩ := bind_eq_ok_iff.mp suggested
      rw [ih rest, suggest_demands suggestedY, suggest_demands suggestedX]

theorem solverFor_demands (atoms : List String) :
    (Stager.solverFor atoms : Solver α).demands = [] := by
  have kept (solver : Solver α) : (atoms.foldl (fun solver atom =>
      (solver.register { axis := .x, atom := atom }).register { axis := .y, atom := atom })
        solver).demands = solver.demands := by
    induction atoms generalizing solver with
    | nil => rfl
    | cons atom atoms ih => rw [List.foldl_cons, ih, register_demands, register_demands]
  exact kept .empty

theorem eq_report_of_solve {coordinate : Coordinate} {number : α}
    (reported : Solution.value? solver.solve.1 coordinate = some number) :
    number = solver.report coordinate := by
  obtain ⟨registered, _, same⟩ := List.mem_map.mp (SortedMap.mem_of_lookup_eq_some reported)
  cases same
  rfl

end Solver

namespace Stager

variable {α : Type} [Measure α]

def solver (stager : Stager) (placement : Placement α) (circled atoms : List String) :
    Except SolverError (Solver α) := do
  let demands := stager.layouts.flatMap (GroundLayout.demands stager.settings placement)
  suggestAll placement circled (← (solverFor atoms).requireAll demands) atoms

theorem requireAll_of_requireLayouts {settings : StagingSettings} {placement : Placement α}
    {first last : Solver α} {layouts : List GroundLayout}
    (required : requireLayouts settings placement first layouts = .ok last) :
    first.requireAll (layouts.flatMap (GroundLayout.demands settings placement)) = .ok last := by
  induction layouts generalizing first with
  | nil =>
      cases required
      rfl
  | cons layout rest ih =>
      rw [requireLayouts] at required
      split at required
      · cases required
      · rename_i demands placed
        obtain ⟨middle, here, required⟩ := bind_eq_ok_iff.mp required
        replace here := eq_ok_of_mapError_eq_ok here
        rw [GroundLayout.demands_of_demands?_eq_some placed] at here
        rw [List.flatMap_cons, Solver.requireAll_append here]
        exact ih required

theorem exists_solver_of_solve {stager : Stager} {placement : Placement α}
    {circled atoms : List String} {solution : Solution α}
    (solved : stager.solve placement circled atoms = .ok solution) :
    ∃ last, stager.solver placement circled atoms = .ok last ∧ solution = last.solve.1 := by
  obtain ⟨required, accepted, solved⟩ := bind_eq_ok_iff.mp solved
  obtain ⟨last, suggested, solved⟩ := bind_eq_ok_iff.mp solved
  cases solved
  refine ⟨last, ?_, rfl⟩
  rw [solver, requireAll_of_requireLayouts accepted]
  exact eq_ok_of_mapError_eq_ok suggested

theorem solver_demands {stager : Stager} {placement : Placement α} {circled atoms : List String}
    {last : Solver α} (solved : stager.solver placement circled atoms = .ok last) :
    last.demands = stager.layouts.flatMap (GroundLayout.demands stager.settings placement) := by
  obtain ⟨required, accepted, suggested⟩ := bind_eq_ok_iff.mp solved
  rw [Solver.suggestAll_demands suggested, Solver.requireAll_demands accepted,
    Solver.solverFor_demands, List.nil_append]

end Stager

/-! ### Reading positions back -/

/-- An input name leads back to its coordinate, whatever the atom is called. -/
theorem Coordinate.ofInputName?_inputName (coordinate : Coordinate) :
    ofInputName? coordinate.inputName = some coordinate := by
  obtain ⟨axis, atom⟩ := coordinate
  cases axis with
  | x =>
      have letters : ("x_" ++ atom).toList = 'x' :: '_' :: atom.toList := String.toList_append
      rw [inputName, ofInputName?, letters]
      simp only [String.ofList_toList]
  | y =>
      have letters : ("y_" ++ atom).toList = 'y' :: '_' :: atom.toList := String.toList_append
      rw [inputName, ofInputName?, letters]
      simp only [String.ofList_toList]

theorem Solution.input?_inputName {α : Type} (solution : Solution α) (coordinate : Coordinate) :
    solution.input? coordinate.inputName = solution.value? coordinate := by
  rw [input?, Coordinate.ofInputName?_inputName]

namespace Diagram

variable {α : Type} {inputs : String → Option α}

theorem place_find? {diagram placed : Diagram α} {atoms : List String}
    (succeeds : place inputs diagram atoms = .ok placed) :
    (∀ atom ∈ atoms, ∃ point, placed.find? atom = some point ∧
        inputs (Coordinate.mk .x atom).inputName = some point.x ∧
        inputs (Coordinate.mk .y atom).inputName = some point.y) ∧
      ∀ atom, atom ∉ atoms → placed.find? atom = diagram.find? atom := by
  induction atoms generalizing diagram with
  | nil =>
      cases succeeds
      refine ⟨?_, fun _ _ => rfl⟩
      intro atom impossible
      cases impossible
  | cons atom atoms ih =>
      rw [place] at succeeds
      split at succeeds
      · rename_i x y foundX foundY
        obtain ⟨later, elsewhere⟩ := ih succeeds
        constructor
        · intro other member
          by_cases again : other ∈ atoms
          · exact later other again
          · rcases List.mem_cons.mp member with rfl | inRest
            · refine ⟨{ x := x, y := y }, ?_, foundX, foundY⟩
              rw [elsewhere other again, SortedMap.find?_insert, if_pos rfl]
            · exact absurd inRest again
        · intro other absent
          have different : other ≠ atom := fun same => absent (same ▸ List.mem_cons_self)
          have notLater : other ∉ atoms := fun later => absent (List.mem_cons_of_mem _ later)
          rw [elsewhere other notLater, SortedMap.find?_insert, if_neg different]
      · cases succeeds

theorem ofInputs_find? {diagram : Diagram α} {atoms : List String}
    (succeeds : ofInputs inputs atoms = .ok diagram) {atom : String} (member : atom ∈ atoms) :
    ∃ point, diagram.find? atom = some point ∧
      inputs (Coordinate.mk .x atom).inputName = some point.x ∧
      inputs (Coordinate.mk .y atom).inputName = some point.y :=
  (place_find? succeeds).1 atom member

end Diagram

end RelationalLayout
