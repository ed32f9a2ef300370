/-
Checked programs do not go wrong.

The layouts of a checked program are all staged. A solver never forgets a coordinate, so
both coordinates of every atom are in its solution and are found there again under their
input names. An arrangement of a checked program over a valid instance can therefore fail
in two ways only: at a cycle that is no single ring or line, or in the solver.
-/

import RelationalLayout.Pipeline
import RelationalLayout.Proofs.CheckedRule
import RelationalLayout.Proofs.Staging

namespace RelationalLayout

variable {α : Type} [Measure α]

/-! ### Staging -/

namespace Stager

theorem exists_stageAll {layouts : List GroundLayout}
    (stageable : ∀ layout ∈ layouts, layout.isStageable = true) (stager : Stager) :
    ∃ next, stager.stageAll layouts = .ok next := by
  have each : ∃ next, stager.stageEach layouts = (next, none) := by
    induction layouts generalizing stager with
    | nil => exact ⟨stager, rfl⟩
    | cons layout rest ih =>
        obtain ⟨here, later⟩ := List.forall_mem_cons.mp stageable
        rw [stageEach, stage_of_isStageable here]
        exact ih later _
  obtain ⟨next, staged⟩ := each
  exact ⟨next, by rw [stageAll, staged]⟩

theorem circles_error {settings : StagingSettings}
    {numbered : List ((String × CycleGraph) × Nat)} {fault : StageError}
    (failed : circles (α := α) settings numbered = .error fault) :
    ∃ cycle, fault = .malformedCycle cycle := by
  induction numbered with
  | nil => cases failed
  | cons first rest ih =>
      obtain ⟨⟨cycle, graph⟩, number⟩ := first
      rw [circles] at failed
      split at failed
      · cases failed
        exact ⟨cycle, rfl⟩
      · cases later : circles (α := α) settings rest with
        | error other =>
            rw [later] at failed
            cases failed
            exact ih later
        | ok circled =>
            rw [later] at failed
            cases failed

end Stager

/-! ### Coordinates of solvers -/

namespace Solver

omit [Measure α] in
theorem mem_coordinates_register {solver : Solver α} {coordinate other : Coordinate} :
    other ∈ (solver.register coordinate).coordinates ↔
      other ∈ solver.coordinates ∨ other = coordinate := by
  unfold register
  split
  · rename_i present
    constructor
    · exact Or.inl
    · rintro (known | rfl)
      · exact known
      · exact present
  · simp

omit [Measure α] in
theorem coordinates_subset_register (solver : Solver α) (coordinate : Coordinate) :
    solver.coordinates ⊆ (solver.register coordinate).coordinates :=
  fun _ known => mem_coordinates_register.mpr (Or.inl known)

omit [Measure α] in
theorem coordinates_subset_foldl_register (solver : Solver α) (coordinates : List Coordinate) :
    solver.coordinates ⊆ (coordinates.foldl register solver).coordinates := by
  induction coordinates generalizing solver with
  | nil => exact List.Subset.refl _
  | cons coordinate rest ih =>
      exact List.Subset.trans (solver.coordinates_subset_register coordinate) (ih _)

variable {solver next : Solver α}

theorem coordinates_subset_requireAll {demands : List (Demand α)}
    (required : solver.requireAll demands = .ok next) :
    solver.coordinates ⊆ next.coordinates := by
  induction demands generalizing solver with
  | nil =>
      cases required
      exact List.Subset.refl _
  | cons demand rest ih =>
      obtain ⟨middle, first, later⟩ := bind_eq_ok_iff.mp required
      refine List.Subset.trans ?_ (ih later)
      simp only [require] at first
      split at first <;> cases first
      exact coordinates_subset_foldl_register solver _

theorem coordinates_subset_suggest {coordinate : Coordinate} {number : α} {strength : Strength}
    (suggested : solver.suggest coordinate number strength = .ok next) :
    solver.coordinates ⊆ next.coordinates := by
  obtain ⟨_, _, suggested⟩ := bind_eq_ok_iff.mp suggested
  obtain ⟨_, _, suggested⟩ := bind_eq_ok_iff.mp suggested
  cases suggested
  exact solver.coordinates_subset_register coordinate

theorem coordinates_subset_suggestAll {placement : Placement α} {circled atoms : List String}
    (suggested : Stager.suggestAll placement circled solver atoms = .ok next) :
    solver.coordinates ⊆ next.coordinates := by
  induction atoms generalizing solver with
  | nil =>
      cases suggested
      exact List.Subset.refl _
  | cons atom atoms ih =>
      obtain ⟨first, suggestedX, suggested⟩ := bind_eq_ok_iff.mp suggested
      obtain ⟨second, suggestedY, later⟩ := bind_eq_ok_iff.mp suggested
      have both := List.Subset.trans (coordinates_subset_suggest suggestedX)
        (coordinates_subset_suggest suggestedY)
      exact List.Subset.trans both (ih later)

omit [Measure α] in
theorem mem_coordinates_foldl_register {atoms : List String} {coordinate : Coordinate}
    (solver : Solver α)
    (given : coordinate ∈ solver.coordinates ∨ coordinate.atom ∈ atoms) :
    coordinate ∈ (atoms.foldl (fun solver atom =>
      (solver.register { axis := .x, atom := atom }).register { axis := .y, atom := atom })
        solver).coordinates := by
  induction atoms generalizing solver with
  | nil => simpa using given
  | cons atom atoms ih =>
      rw [List.foldl_cons]
      apply ih
      rcases given with known | member
      · exact Or.inl (coordinates_subset_register _ _ (coordinates_subset_register _ _ known))
      · rcases List.mem_cons.mp member with rfl | later
        · refine Or.inl ?_
          rw [mem_coordinates_register, mem_coordinates_register]
          obtain ⟨axis, atom⟩ := coordinate
          cases axis <;> simp
        · exact Or.inr later

theorem value?_solve {coordinate : Coordinate} (known : coordinate ∈ solver.coordinates) :
    Solution.value? solver.solve.1 coordinate = some (solver.report coordinate) := by
  have reported (coordinates : List Coordinate) (listed : coordinate ∈ coordinates) :
      (coordinates.map (fun coordinate => (coordinate, solver.report coordinate))).lookup
        coordinate = some (solver.report coordinate) := by
    induction coordinates with
    | nil => cases listed
    | cons first rest ih =>
        rw [List.map_cons, SortedMap.lookup_cons_eq_ite]
        by_cases here : coordinate = first
        · simp [here]
        · rw [if_neg here]
          exact ih ((List.mem_cons.mp listed).resolve_left here)
  exact reported solver.coordinates known

end Solver

namespace Stager

theorem exists_input_of_arrange {stager : Stager} {world : Instance} {solution : Solution α}
    (arranged : stager.arrange world = .ok solution) {coordinate : Coordinate}
    (member : coordinate.atom ∈ world.atomNames) :
    ∃ value, solution.value? coordinate = some value ∧
      solution.input? coordinate.inputName = some value := by
  obtain ⟨_, _, solved⟩ := bind_eq_ok_iff.mp arranged
  obtain ⟨last, ended, rfl⟩ := exists_solver_of_solve solved
  obtain ⟨required, accepted, suggested⟩ := bind_eq_ok_iff.mp ended
  -- The coordinates are registered at the start, and no later step drops one.
  have inAtoms : coordinate.atom ∈ stager.atoms world := mem_atoms.mpr (Or.inl member)
  have known : coordinate ∈ last.coordinates :=
    Solver.coordinates_subset_suggestAll suggested
      (Solver.coordinates_subset_requireAll accepted
        (Solver.mem_coordinates_foldl_register .empty (Or.inr inAtoms)))
  refine ⟨_, Solver.value?_solve known, ?_⟩
  rw [Solution.input?_inputName, Solver.value?_solve known]

theorem requireLayouts_error {settings : StagingSettings} {placement : Placement α}
    {layouts : List GroundLayout} {solver : Solver α} {fault : StageError}
    (failed : requireLayouts settings placement solver layouts = .error fault) :
    (∃ error, fault = .solver error) ∨
      ∃ layout ∈ layouts, layout.demands? settings placement = none ∧
        fault = .unsupported layout := by
  induction layouts generalizing solver with
  | nil => cases failed
  | cons layout rest ih =>
      rw [requireLayouts] at failed
      split at failed
      · rename_i unplaced
        cases failed
        exact Or.inr ⟨layout, List.mem_cons_self, unplaced, rfl⟩
      · rcases bind_eq_error_iff.mp failed with refused | ⟨next, _, failed⟩
        · obtain ⟨error, _, same⟩ := exists_eq_error_of_mapError_eq_error refused
          exact Or.inl ⟨error, same⟩
        · rcases ih failed with solving | ⟨other, member, unplaced, same⟩
          · exact Or.inl solving
          · exact Or.inr ⟨other, List.mem_cons_of_mem layout member, unplaced, same⟩

theorem solve_error {stager : Stager} {placement : Placement α} {circled atoms : List String}
    {fault : StageError} (failed : stager.solve placement circled atoms = .error fault) :
    (∃ error, fault = .solver error) ∨
      ∃ layout ∈ stager.layouts, layout.demands? stager.settings placement = none ∧
        fault = .unsupported layout := by
  rcases bind_eq_error_iff.mp failed with refused | ⟨required, _, failed⟩
  · exact requireLayouts_error refused
  · rcases bind_eq_error_iff.mp failed with stuck | ⟨suggested, _, impossible⟩
    · obtain ⟨error, _, same⟩ := exists_eq_error_of_mapError_eq_error stuck
      exact Or.inl ⟨error, same⟩
    · cases impossible

theorem placement_error {stager : Stager} {atoms : List String} {fault : StageError}
    (unplaced : stager.placement (α := α) atoms = .error fault) :
    ∃ cycle, fault = .malformedCycle cycle := by
  rw [placement] at unplaced
  cases circled : circles (α := α) stager.settings stager.cycles.entries.zipIdx with
  | error other =>
      rw [circled] at unplaced
      cases unplaced
      exact circles_error circled
  | ok drawn =>
      rw [circled] at unplaced
      cases unplaced

/-- An arrangement fails at a malformed cycle or in the solver. -/
theorem arrange_error {stager : Stager} (placeable : stager.Placeable) {world : Instance}
    {fault : StageError} (failed : stager.arrange (α := α) world = .error fault) :
    (∃ cycle, fault = .malformedCycle cycle) ∨ ∃ error, fault = .solver error := by
  rcases bind_eq_error_iff.mp failed with unplaced | ⟨placed, _, unsolved⟩
  · exact Or.inl (placement_error unplaced)
  · rcases solve_error unsolved with solving | ⟨layout, member, unruled, _⟩
    · exact Or.inr solving
    · obtain ⟨stageable, untagged⟩ := placeable layout member
      rw [GroundLayout.demands?_of_isStageable _ _ stageable untagged] at unruled
      cases unruled

end Stager

/-! ### Diagrams -/

namespace Diagram

omit [Measure α] in
theorem exists_place {inputs : String → Option α} {atoms : List String}
    (given : ∀ coordinate : Coordinate, coordinate.atom ∈ atoms →
      ∃ value, inputs coordinate.inputName = some value) (diagram : Diagram α) :
    ∃ placed, place inputs diagram atoms = .ok placed := by
  induction atoms generalizing diagram with
  | nil => exact ⟨diagram, rfl⟩
  | cons atom atoms ih =>
      obtain ⟨x, inputX⟩ := given { axis := .x, atom := atom } List.mem_cons_self
      obtain ⟨y, inputY⟩ := given { axis := .y, atom := atom } List.mem_cons_self
      rw [place, inputX, inputY]
      exact ih (fun coordinate member => given coordinate (List.mem_cons_of_mem atom member)) _

omit [Measure α] in
theorem mem_keys_ofInputs {inputs : String → Option α} {atoms : List String}
    {diagram : Diagram α} (read : ofInputs inputs atoms = .ok diagram) (atom : String) :
    atom ∈ diagram.keys ↔ atom ∈ atoms := by
  obtain ⟨positioned, elsewhere⟩ := place_find? read
  rw [SortedMap.mem_keys_iff]
  by_cases member : atom ∈ atoms
  · obtain ⟨point, found, _⟩ := positioned atom member
    exact iff_of_true ⟨point, found⟩ member
  · have absent : diagram.find? atom = none := elsewhere atom member
    simp [absent, member]

end Diagram

/-! ### Arrangements -/

/-- A checked program is compiled over every valid instance, and arranged there unless a cycle is
malformed or the solver fails. The diagram shows just the atoms of the instance, and the solution
gives both coordinates of each under their input names, whatever the atoms are called. -/
theorem arrange_of_checked {schema : Schema} {world : Instance} {program : Program}
    (checked : ∀ rule ∈ program, ∃ env, rule.check schema = .ok env)
    (validated : world.validate schema = .ok ()) (settings : StagingSettings) :
    (∃ layouts, Pipeline.compile schema world program = .ok layouts) ∧
      ((∃ diagram : Diagram α, Pipeline.arrange schema world program settings = .ok diagram ∧
          ∀ atom, atom ∈ diagram.keys ↔ atom ∈ world.atomNames) ∨
        (∃ cycle, (Pipeline.arrange schema world program settings :
          Except PipelineError (Diagram α)) = .error (.stage (.malformedCycle cycle))) ∨
        ∃ error, (Pipeline.arrange schema world program settings :
          Except PipelineError (Diagram α)) = .error (.stage (.solver error))) ∧
      ∀ layouts stager (solution : Solution α),
        Pipeline.compile schema world program = .ok layouts →
        (Stager.empty settings).stageAll layouts = .ok stager →
        stager.arrange world = .ok solution →
        ∀ coordinate : Coordinate, coordinate.atom ∈ world.atomNames →
          ∃ value, solution.value? coordinate = some value ∧
            solution.input? coordinate.inputName = some value := by
  have valid := Instance.validate_eq_ok_iff.mp validated
  obtain ⟨layouts, compiled, stageable⟩ := Program.exists_compile valid checked
  obtain ⟨stager, staged⟩ := Stager.exists_stageAll stageable (.empty settings)
  have compiles : Pipeline.compile schema world program = .ok layouts := by
    rw [Pipeline.compile, Pipeline.validate, validated, compiled]
    rfl
  refine ⟨⟨layouts, compiles⟩, ?_, fun _ _ _ _ _ arranged _ => Stager.exists_input_of_arrange arranged⟩
  cases arranged : stager.arrange (α := α) world with
  | error fault =>
      have failed : (Pipeline.arrange schema world program settings :
          Except PipelineError (Diagram α)) = .error (.stage fault) := by
        simp only [Pipeline.arrange, bind, Except.bind, compiles, staged, arranged,
          Except.mapError]
      rw [failed]
      rcases Stager.arrange_error (Stager.placeable_of_stageAll staged) arranged with ⟨cycle, rfl⟩ | ⟨error, rfl⟩
      · exact Or.inr (Or.inl ⟨cycle, rfl⟩)
      · exact Or.inr (Or.inr ⟨error, rfl⟩)
  | ok solution =>
      have given : ∀ coordinate : Coordinate, coordinate.atom ∈ world.atomNames →
          ∃ value, solution.input? coordinate.inputName = some value := by
        intro coordinate member
        obtain ⟨value, _, input⟩ := Stager.exists_input_of_arrange arranged member
        exact ⟨value, input⟩
      obtain ⟨diagram, read⟩ := Diagram.exists_place given .empty
      have succeeds : Pipeline.arrange schema world program settings = .ok diagram := by
        have whole : Diagram.ofInputs solution.input? world.atomNames = .ok diagram := read
        simp only [Pipeline.arrange, bind, Except.bind, compiles, staged, arranged,
          Except.mapError, whole]
      exact Or.inl ⟨diagram, succeeds, Diagram.mem_keys_ofInputs read⟩

/-- One atom without a name and one whose name looks like an input name, side by side. -/
theorem arrange_of_checked_awkward :
    let schema : Schema :=
      { signatures := ["Node"]
        predicates := [{ name := "next", signatures := ["Node", "Node"] }]
        hierarchy := [] }
    let world : Instance :=
      { atoms := [{ name := "", signature := "Node" }, { name := "x_", signature := "Node" }]
        facts := [{ predicate := "next", arguments := ["", "x_"] }] }
    let program : Program :=
      [{ chain := { first := .predicate "next" ["a", "b"], rest := [.signature "a" "Node"] }
         terminal := .binary .directlyLeftOf .unspecified "a" "b" },
        { chain := { first := .signature "a" "Node", rest := [] }
          terminal := .unary .aboveCenter (.exactly 5) "a" }]
    (∀ rule ∈ program, ∃ env, rule.check schema = .ok env) ∧ world.validate schema = .ok () ∧
      ∃ diagram : Diagram Float, Pipeline.arrange schema world program .default = .ok diagram ∧
        ∀ atom, atom ∈ diagram.keys ↔ atom ∈ world.atomNames := by
  intro schema world program
  have each : ∀ rule ∈ program, (rule.check schema).isOk = true := by decide +kernel
  have checked : ∀ rule ∈ program, ∃ env, rule.check schema = .ok env :=
    fun rule member => exists_eq_ok_of_isOk (each rule member)
  have validated : world.validate schema = .ok () := by decide +kernel
  have succeeds : (Pipeline.arrange schema world program .default :
      Except PipelineError (Diagram Float)).isOk = true := by decide +kernel
  refine ⟨checked, validated, ?_⟩
  rcases (arrange_of_checked (α := Float) checked validated .default).2.1 with
    arranged | ⟨cycle, failed⟩ | ⟨error, failed⟩
  · exact arranged
  · rw [failed] at succeeds
    cases succeeds
  · rw [failed] at succeeds
    cases succeeds

end RelationalLayout
