/-
Arranged diagrams satisfy their programs.

A rule is compiled for every assignment under which its selectors hold, its layout
is staged, and its constraints are those of the solver with which the arrangement
ends. If the values that this solver reports meet its constraints, the positions of
the diagram stand in the relation of the rule.
-/

import RelationalLayout.Pipeline
import RelationalLayout.Proofs.Compilation
import RelationalLayout.Proofs.Constraint
import RelationalLayout.Proofs.Float.Value
import RelationalLayout.Proofs.Instance
import RelationalLayout.Proofs.Staging

namespace RelationalLayout

/-! ### Assignments of atoms -/

theorem Selector.Holds.mem_atomNames {schema : Schema} {world : Instance}
    (valid : world.Valid schema) {selector : Selector} {atomOf : String → String}
    (holds : selector.Holds world (fun name => some (atomOf name))) {name : String}
    (member : name ∈ selector.variableNames) : atomOf name ∈ world.atomNames := by
  obtain ⟨atom, declared, leads⟩ := holds.exists_atom valid member
  rw [Option.some.inj leads]
  exact List.mem_map_of_mem declared

/-! ### Satisfaction -/

/-- The constraints of a solver hold of the values that it reports. -/
def Solver.MeetsDemands {α κ : Type} [Measure α] [LE κ] [Add κ] (value : α → κ)
    (solver : Solver α) : Prop :=
  ∀ demand ∈ solver.demands,
    (demand.constraint.map value).Holds (fun coordinate => value (solver.report coordinate))

instance {α κ : Type} [Measure α] [DecidableEq κ] [LE κ] [DecidableLE κ] [Add κ] (value : α → κ)
    (solver : Solver α) : Decidable (solver.MeetsDemands value) :=
  inferInstanceAs (Decidable (∀ demand ∈ solver.demands, (demand.constraint.map value).Holds _))

section Satisfaction

variable {α κ : Type} [Measure α] [LE κ] [Zero κ] [Sub κ]

def Template.SatisfiedBy (settings : StagingSettings) (value : α → κ) (diagram : Diagram α)
    (atomOf : String → String) : Template → Prop
  | .unary option separation operand =>
      ∃ point, diagram.find? (atomOf operand) = some point ∧
        option.Says (separation.Admits settings value) (point.map value)
  | .binary option separation first second =>
      ∃ left right, diagram.find? (atomOf first) = some left ∧
        diagram.find? (atomOf second) = some right ∧
        option.Says (separation.Admits settings value) (separation ≠ .unspecified)
          (left.map value) (right.map value)
  | .cyclic _ _ _ _ => True
  | .grouping _ _ => True

end Satisfaction

namespace Pipeline

variable {α : Type} [Measure α]

def lastSolver (schema : Schema) (world : Instance) (program : Program)
    (settings : StagingSettings) : Except PipelineError (Solver α) := do
  let layouts ← (program.compile schema world).mapError .compile
  let stager ← ((Stager.empty settings).stageAll layouts).mapError .stage
  let atoms := stager.atoms world
  let (placement, circled) ← (stager.placement atoms).mapError .stage
  (stager.solver placement circled atoms).mapError (fun fault => .stage (.solver fault))

structure Run (α : Type) [Measure α] (schema : Schema) (world : Instance) (program : Program)
    (settings : StagingSettings) where
  layouts : List GroundLayout
  stager : Stager
  placement : Placement α
  circled : List String
  solver : Solver α
  compiled : program.compile schema world = .ok layouts
  staged : (Stager.empty settings).stageAll layouts = .ok stager
  pulled : stager.placement (stager.atoms world) = .ok (placement, circled)
  solved : stager.solver placement circled (stager.atoms world) = .ok solver

namespace Run

variable {schema : Schema} {world : Instance} {program : Program} {settings : StagingSettings}
  (run : Run α schema world program settings)

theorem lastSolver_eq : lastSolver schema world program settings = .ok run.solver := by
  rw [lastSolver, run.compiled]
  simp only [Except.mapError, bind, Except.bind, run.staged, run.pulled, run.solved]

theorem isStageable {layout : GroundLayout} (member : layout ∈ run.layouts) :
    layout.isStageable = true :=
  (Stager.stageAll_layouts run.staged).1 layout member

/-- The solver has the constraints of every layout that is not an edge of a cycle. -/
theorem exists_demand {layout : GroundLayout} (member : layout ∈ run.layouts)
    (untagged : layout.tag? = none) {constraint : Constraint α}
    (inLayout : constraint ∈ layout.constraints settings run.placement) :
    ∃ demand ∈ run.solver.demands, demand.constraint = constraint := by
  obtain ⟨_, sameSettings, accepted⟩ := Stager.stageAll_layouts run.staged
  have isAccepted : layout ∈ run.stager.layouts := by
    rw [accepted]
    refine List.mem_append_right _ (List.mem_filter.mpr ⟨member, ?_⟩)
    rw [untagged]
    rfl
  refine ⟨{ constraint := constraint, source := layout.text }, ?_, rfl⟩
  rw [Stager.solver_demands run.solved, sameSettings]
  exact List.mem_flatMap.mpr ⟨layout, isAccepted, List.mem_map.mpr ⟨constraint, inLayout, rfl⟩⟩

theorem exists_instantiate {rule : Rule} (member : rule ∈ program) {atomOf : String → String}
    (holds : ∀ selector ∈ rule.selectors, selector.Holds world (fun name => some (atomOf name))) :
    ∃ layout ∈ run.layouts, ∃ (substitution : Substitution) (id : String),
      rule.terminal.instantiate substitution id = .ok layout ∧
      ∀ name atom, substitution.find? name = some atom →
        atom = atomOf name ∧ ∃ selector ∈ rule.selectors, name ∈ selector.variableNames := by
  obtain ⟨number, placed⟩ := List.mem_iff_getElem?.mp member
  obtain ⟨own, compiled, kept⟩ := Program.exists_compile_of_getElem? run.compiled placed
  obtain ⟨layout, isOwn, instantiated⟩ := Rule.exists_instantiate compiled holds
  refine ⟨layout, kept layout isOwn, _, _, instantiated, ?_⟩
  intro name atom found
  obtain ⟨inChain, same⟩ := Substitution.find?_cutTo_eq_some.mp found
  exact ⟨same, mem_variablesIn.mp inChain⟩

end Run

/-- The positions of an arranged diagram are what the solver of its run reports. -/
theorem exists_run_of_arrange {schema : Schema} {world : Instance} {program : Program}
    {settings : StagingSettings} {diagram : Diagram α}
    (arranged : arrange schema world program settings = .ok diagram) :
    world.Valid schema ∧ ∃ run : Run α schema world program settings,
      ∀ atom ∈ world.atomNames, diagram.find? atom = some (pointOf run.solver.report atom) := by
  obtain ⟨layouts, compiled, arranged⟩ := bind_eq_ok_iff.mp arranged
  obtain ⟨stager, staged, arranged⟩ := bind_eq_ok_iff.mp arranged
  obtain ⟨solution, solved, placed⟩ := bind_eq_ok_iff.mp arranged
  obtain ⟨_, validated, compiled⟩ := bind_eq_ok_iff.mp compiled
  refine ⟨Instance.validate_eq_ok_iff.mp (eq_ok_of_mapError_eq_ok validated), ?_⟩
  replace solved := eq_ok_of_mapError_eq_ok solved
  replace placed := eq_ok_of_mapError_eq_ok placed
  obtain ⟨⟨placement, circled⟩, pulled, solved⟩ := bind_eq_ok_iff.mp solved
  obtain ⟨solver, ended, rfl⟩ := Stager.exists_solver_of_solve solved
  refine ⟨⟨layouts, stager, placement, circled, solver, eq_ok_of_mapError_eq_ok compiled,
    eq_ok_of_mapError_eq_ok staged, pulled, ended⟩, ?_⟩
  intro atom member
  obtain ⟨point, found, inputX, inputY⟩ := Diagram.ofInputs_find? placed member
  rw [Solution.input?_inputName] at inputX inputY
  rw [found, pointOf, ← Solver.eq_report_of_solve inputX, ← Solver.eq_report_of_solve inputY]

end Pipeline

/-- Where the values that the last solver reports meet its demands, the positions of an arranged diagram
satisfy every rule under every assignment under which its selectors hold. -/
theorem arrange_satisfies {α κ : Type} [Measure α] [AddCommGroup κ] [LinearOrder κ]
    [IsOrderedAddMonoid κ] {value : α → κ} (reads : Reads value) {schema : Schema}
    {world : Instance} {program : Program} {settings : StagingSettings} {diagram : Diagram α}
    (arranged : Pipeline.arrange schema world program settings = .ok diagram)
    (meets : ∀ solver : Solver α, Pipeline.lastSolver schema world program settings = .ok solver →
      solver.MeetsDemands value) :
    ∀ rule ∈ program, ∀ atomOf : String → String,
      (∀ selector ∈ rule.selectors, selector.Holds world (fun name => some (atomOf name))) →
      rule.terminal.SatisfiedBy settings value diagram atomOf := by
  intro rule member atomOf holds
  obtain ⟨valid, run, positions⟩ := Pipeline.exists_run_of_arrange arranged
  obtain ⟨layout, isLayout, substitution, id, instantiated, assigned⟩ :=
    run.exists_instantiate member holds
  have position {name atom : String} (found : substitution.find? name = some atom) :
      atom = atomOf name ∧
        diagram.find? (atomOf name) = some (pointOf run.solver.report (atomOf name)) := by
    obtain ⟨same, selector, inChain, occurs⟩ := assigned name atom found
    exact ⟨same, positions _ ((holds selector inChain).mem_atomNames valid occurs)⟩
  have constraintHolds (untagged : layout.tag? = none) (constraint : Constraint α)
      (inLayout : constraint ∈ layout.constraints settings run.placement) :
      (constraint.map value).Holds
        (fun coordinate => value (run.solver.report coordinate)) := by
    obtain ⟨demand, isDemand, rfl⟩ := run.exists_demand isLayout untagged inLayout
    exact meets run.solver run.lastSolver_eq demand isDemand
  have admits (separation : Separation) : (fun difference =>
      (settings.gap separation : Gap α).comparison.Holds difference
        (value (settings.gap separation : Gap α).distance)) = separation.Admits settings value :=
    funext fun difference => propext (settings.holds_gap_iff value separation difference)
  cases terminal : rule.terminal with
  | unary option separation operand =>
      rw [terminal] at instantiated
      obtain ⟨atom, found, rfl⟩ := Template.instantiate_unary_iff.mp instantiated
      obtain ⟨rfl, placed⟩ := position found
      refine ⟨_, placed, ?_⟩
      rw [← admits]
      exact (option.holds_constraint_iff reads _ _).mp (constraintHolds rfl _ List.mem_cons_self)
  | binary option separation first second =>
      rw [terminal] at instantiated
      obtain ⟨left, right, foundLeft, foundRight, rfl⟩ :=
        Template.instantiate_binary_iff.mp instantiated
      obtain ⟨rfl, leftPlaced⟩ := position foundLeft
      obtain ⟨rfl, rightPlaced⟩ := position foundRight
      refine ⟨_, _, leftPlaced, rightPlaced, ?_⟩
      have related := BinaryOption.says_of_holds reads (run.isStageable isLayout) _ _ _ _ _
        (constraintHolds rfl)
      rw [admits, decide_eq_true_eq] at related
      exact related
  | cyclic => trivial
  | grouping => trivial

/-- Two nodes side by side at an exact distance, and all nodes above the centre. -/
theorem arrange_satisfies_edge :
    let schema : Schema :=
      { signatures := ["Node"]
        predicates := [{ name := "edge", signatures := ["Node", "Node"] }]
        hierarchy := [] }
    let world : Instance :=
      { atoms := [{ name := "n", signature := "Node" }, { name := "m", signature := "Node" }]
        facts := [{ predicate := "edge", arguments := ["n", "m"] }] }
    let program : Program :=
      [{ chain := { first := .predicate "edge" ["a", "b"], rest := [] }
         terminal := .binary .directlyLeftOf (.exactly 30) "a" "b" },
        { chain := { first := .signature "a" "Node", rest := [] }
          terminal := .unary .aboveCenter .unspecified "a" }]
    ∃ diagram : Diagram Float,
      Pipeline.arrange schema world program .default = .ok diagram ∧
      (∀ solver : Solver Float, Pipeline.lastSolver schema world program .default = .ok solver →
        solver.MeetsDemands exactValue) ∧
      ∀ rule ∈ program, ∀ atomOf : String → String,
        (∀ selector ∈ rule.selectors, selector.Holds world (fun name => some (atomOf name))) →
        rule.terminal.SatisfiedBy .default exactValue diagram atomOf := by
  intro schema world program
  have succeeds : (Pipeline.arrange schema world program .default :
      Except PipelineError (Diagram Float)).isOk = true := by decide +kernel
  have checked : (Pipeline.lastSolver schema world program .default :
      Except PipelineError (Solver Float)).toOption.all
        (fun solver => decide (solver.MeetsDemands exactValue)) = true := by decide +kernel
  have meets (solver : Solver Float)
      (ended : Pipeline.lastSolver schema world program .default = .ok solver) :
      solver.MeetsDemands exactValue := by
    rw [ended] at checked
    exact of_decide_eq_true checked
  cases arranged : (Pipeline.arrange schema world program .default :
      Except PipelineError (Diagram Float)) with
  | error fault =>
      rw [arranged] at succeeds
      cases succeeds
  | ok diagram =>
      exact ⟨diagram, rfl, meets, arrange_satisfies reads_exactValue arranged meets⟩

end RelationalLayout
