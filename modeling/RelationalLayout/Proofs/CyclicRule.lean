/-
Cyclic rules from programs to arrangements.

The layouts of a cyclic rule are the edges of one graph, which no other rule has a
part in. An arrangement fails because of a cycle exactly if such a graph is neither
a ring nor a line.
-/

import RelationalLayout.Proofs.Compilation
import RelationalLayout.Proofs.CycleOrder
import RelationalLayout.Proofs.Progress

namespace RelationalLayout

/-! ### Edges of layouts -/

/-- The edge between two operands. Edges run counterclockwise. -/
def CyclicOption.edge (option : CyclicOption) (first second : String) : String × String :=
  match option with
  | .counterclockwise => (first, second)
  | .clockwise => (second, first)

def GroundLayout.edgeIn? (cycle : String) : GroundLayout → Option (String × String)
  | .cyclic option first second id =>
      if id = cycle then some (option.edge first second) else none
  | _ => none

def GroundLayout.edgesIn (cycle : String) (layouts : List GroundLayout) :
    List (String × String) :=
  layouts.filterMap (GroundLayout.edgeIn? cycle)

theorem GroundLayout.mem_edgesIn_iff {cycle : String} {layouts : List GroundLayout}
    {edge : String × String} :
    edge ∈ GroundLayout.edgesIn cycle layouts ↔
      ∃ option first second, .cyclic option first second cycle ∈ layouts ∧
        option.edge first second = edge := by
  rw [GroundLayout.edgesIn, List.mem_filterMap]
  constructor
  · intro given
    obtain ⟨layout, member, added⟩ := given
    cases layout with
    | cyclic option first second id =>
        rw [GroundLayout.edgeIn?] at added
        split at added
        · rename_i same
          subst same
          exact ⟨option, first, second, member, Option.some.inj added⟩
        · cases added
    | unary | binary | grouping => cases added
  · intro given
    obtain ⟨option, first, second, member, same⟩ := given
    refine ⟨_, member, ?_⟩
    rw [GroundLayout.edgeIn?, if_pos rfl, same]

theorem GroundLayout.edgesIn_append_singleton (cycle : String) (layouts : List GroundLayout)
    (layout : GroundLayout) :
    GroundLayout.edgesIn cycle (layouts ++ [layout]) =
      GroundLayout.edgesIn cycle layouts ++ (GroundLayout.edgeIn? cycle layout).toList := by
  rw [GroundLayout.edgesIn, List.filterMap_append]
  rfl

namespace CycleGraph

def ofEdges? (edges : List (String × String)) : Option CycleGraph :=
  if edges = [] then none else some (ofEdges edges)

theorem ofEdges?_append_singleton (edges : List (String × String)) (edge : String × String) :
    ofEdges? (edges ++ [edge]) =
      some (((ofEdges? edges).getD empty).addEdge edge.1 edge.2) := by
  have earlier : (ofEdges? edges).getD empty = ofEdges edges := by
    rw [ofEdges?]
    split
    · rename_i none
      rw [none]
      rfl
    · rfl
  rw [earlier, ← ofEdges_append_singleton, ofEdges?,
    if_neg (List.append_ne_nil_of_right_ne_nil edges (List.cons_ne_nil edge []))]

theorem addLayout_eq (graph : CycleGraph) (option : CyclicOption) (first second : String) :
    graph.addLayout option first second =
      graph.addEdge (option.edge first second).1 (option.edge first second).2 := by
  cases option <;> rfl

end CycleGraph

/-! ### Staging cycles -/

namespace Stager

variable {stager next : Stager} {layouts : List GroundLayout}

/-- The graphs of a stager have the edges of the layouts accepted so far. -/
def Draws (stager : Stager) (layouts : List GroundLayout) : Prop :=
  ∀ cycle, stager.cycles.find? cycle = CycleGraph.ofEdges? (GroundLayout.edgesIn cycle layouts)

theorem draws_empty (settings : StagingSettings) : (empty settings).Draws [] :=
  fun _ => rfl

theorem draws_stage (draws : stager.Draws layouts) {layout : GroundLayout}
    (accepted : stager.stage layout = (next, none)) : next.Draws (layouts ++ [layout]) := by
  obtain ⟨_, rfl⟩ := stage_eq_none_iff.mp accepted
  intro cycle
  cases layout with
  | cyclic option first second id =>
      show (stager.cycles.insert id _).find? cycle = _
      rw [GroundLayout.edgesIn_append_singleton, SortedMap.find?_insert, GroundLayout.edgeIn?]
      by_cases same : cycle = id
      · subst same
        rw [if_pos rfl, if_pos rfl, Option.toList_some, CycleGraph.ofEdges?_append_singleton,
          ← draws cycle, CycleGraph.addLayout_eq]
      · rw [if_neg same, if_neg (Ne.symm same), Option.toList_none, List.append_nil]
        exact draws cycle
  | unary | binary | grouping =>
      rw [GroundLayout.edgesIn_append_singleton]
      exact (draws cycle).trans (congrArg CycleGraph.ofEdges? (List.append_nil _).symm)

theorem draws_stageEach {earlier : List GroundLayout} (draws : stager.Draws earlier)
    (staged : stager.stageEach layouts = (next, none)) : next.Draws (earlier ++ layouts) := by
  induction layouts generalizing stager earlier with
  | nil =>
      cases staged
      rw [List.append_nil]
      exact draws
  | cons layout rest ih =>
      rw [stageEach] at staged
      split at staged
      · rename_i middle accepted
        rw [← List.singleton_append, ← List.append_assoc]
        exact ih (draws_stage draws accepted) staged
      · cases staged

theorem draws_stageAll {settings : StagingSettings}
    (staged : (empty settings).stageAll layouts = .ok stager) : stager.Draws layouts := by
  rw [stageAll] at staged
  cases each : (empty settings).stageEach layouts with
  | mk last fault =>
      rw [each] at staged
      cases fault with
      | some fault => cases staged
      | none =>
          cases staged
          exact draws_stageEach (draws_empty settings) each

/-! ### Placing cycles -/

section Placing

variable {α : Type} [Measure α]

theorem circles_malformed_iff {settings : StagingSettings}
    {numbered : List ((String × CycleGraph) × Nat)} :
    (∃ cycle, circles (α := α) settings numbered = .error (.malformedCycle cycle)) ↔
      ∃ entry ∈ numbered, entry.1.2.order? = none := by
  induction numbered with
  | nil =>
      refine iff_of_false ?_ ?_
      · intro given
        obtain ⟨_, impossible⟩ := given
        cases impossible
      · intro given
        obtain ⟨_, impossible, _⟩ := given
        cases impossible
  | cons first rest ih =>
      obtain ⟨⟨cycle, graph⟩, number⟩ := first
      rw [circles]
      simp only [List.mem_cons, exists_eq_or_imp]
      cases ordered : graph.order? with
      | none => exact iff_of_true ⟨cycle, rfl⟩ (Or.inl rfl)
      | some order =>
          simp only [reduceCtorEq, false_or, ← ih]
          cases circles (α := α) settings rest with
          | error fault => rfl
          | ok circled =>
              refine iff_of_false ?_ ?_ <;>
              · intro given
                obtain ⟨_, impossible⟩ := given
                cases impossible

/-- Circles come first, so neither a layout nor the solver is in the way of their errors. -/
theorem arrange_malformed_iff {stager : Stager} {world : Instance} :
    (∃ cycle, stager.arrange (α := α) world = .error (.malformedCycle cycle)) ↔
      ∃ cycle graph, stager.cycles.find? cycle = some graph ∧ graph.order? = none := by
  have malformed : (∃ cycle, stager.arrange (α := α) world = .error (.malformedCycle cycle)) ↔
      ∃ cycle, circles (α := α) stager.settings stager.cycles.entries.zipIdx =
        .error (.malformedCycle cycle) := by
    apply exists_congr
    intro cycle
    rw [arrange, placement]
    cases circles (α := α) stager.settings stager.cycles.entries.zipIdx with
    | error fault => simp only [bind, Except.bind, Except.error.injEq]
    | ok circled =>
        refine iff_of_false ?_ (fun impossible => by cases impossible)
        intro failed
        rcases solve_error failed with ⟨_, impossible⟩ | ⟨_, _, _, impossible⟩ <;>
          cases impossible
  rw [malformed, circles_malformed_iff]
  constructor
  · intro given
    obtain ⟨⟨⟨cycle, graph⟩, number⟩, numbered, disordered⟩ := given
    exact ⟨cycle, graph, SortedMap.mem_entries_iff.mp (List.fst_mem_of_mem_zipIdx numbered),
      disordered⟩
  · intro given
    obtain ⟨cycle, graph, found, disordered⟩ := given
    obtain ⟨number, placed⟩ := List.mem_iff_getElem?.mp (SortedMap.mem_entries_iff.mpr found)
    exact ⟨((cycle, graph), number), List.mk_mem_zipIdx_iff_getElem?.mpr placed, disordered⟩

end Placing

end Stager

/-! ### Cyclic rules -/

def cycleId (number : Nat) : String := "cycle-" ++ Nat.repr number

namespace Rule

def IsCyclic (rule : Rule) : Prop :=
  ∃ option first second tag, rule.terminal = .cyclic option first second tag

def IsSatisfiable (rule : Rule) (world : Instance) : Prop :=
  ∃ atomOf, HoldUnder world rule.selectors atomOf

def CycleEdge (rule : Rule) (world : Instance) (source target : String) : Prop :=
  ∃ option first second tag, rule.terminal = .cyclic option first second tag ∧
    ∃ atomOf, HoldUnder world rule.selectors atomOf ∧
      option.edge (atomOf first) (atomOf second) = (source, target)

theorem exists_cycleEdge_iff {rule : Rule} {world : Instance} :
    (∃ source target, rule.CycleEdge world source target) ↔
      rule.IsCyclic ∧ rule.IsSatisfiable world := by
  constructor
  · intro given
    obtain ⟨_, _, option, first, second, tag, cyclic, atomOf, hold, _⟩ := given
    exact ⟨⟨option, first, second, tag, cyclic⟩, atomOf, hold⟩
  · intro given
    obtain ⟨⟨option, first, second, tag, cyclic⟩, atomOf, hold⟩ := given
    exact ⟨_, _, option, first, second, tag, cyclic, atomOf, hold, rfl⟩

end Rule

section CyclicRules

variable {schema : Schema} {world : Instance} {program : Program} {layouts : List GroundLayout}

theorem mem_edgesIn_of_compile (compiled : program.compile schema world = .ok layouts)
    {cycle : String} {edge : String × String} :
    edge ∈ GroundLayout.edgesIn cycle layouts ↔
      ∃ (index : Nat) (rule : Rule), program[index]? = some rule ∧ cycle = cycleId index ∧
        rule.CycleEdge world edge.1 edge.2 := by
  rw [GroundLayout.mem_edgesIn_iff]
  constructor
  · intro given
    obtain ⟨option, source, target, member, rfl⟩ := given
    obtain ⟨index, rule, own, placed, here, inOwn⟩ := Program.exists_rule_of_mem compiled member
    obtain ⟨atomOf, hold, instantiated⟩ := Rule.exists_holdUnder here inOwn
    cases terminal : rule.terminal with
    | cyclic _ first second tag =>
        rw [terminal] at instantiated
        obtain ⟨_, _, found, foundToo, same⟩ := Template.instantiate_cyclic_iff.mp instantiated
        cases same
        obtain ⟨_, rfl⟩ := Substitution.find?_cutTo_eq_some.mp found
        obtain ⟨_, rfl⟩ := Substitution.find?_cutTo_eq_some.mp foundToo
        exact ⟨index, rule, placed, rfl, option, first, second, tag, terminal, atomOf, hold, rfl⟩
    | unary | binary | grouping =>
        rw [terminal] at instantiated
        simp only [Template.instantiate_unary_iff, Template.instantiate_binary_iff,
          Template.instantiate_grouping_iff, reduceCtorEq, and_false, exists_false] at instantiated
  · intro given
    obtain ⟨index, rule, placed, rfl, option, first, second, tag, terminal, atomOf, hold, same⟩ :=
      given
    obtain ⟨own, here, kept⟩ := Program.exists_compile_of_getElem? compiled placed
    obtain ⟨layout, inOwn, instantiated⟩ := Rule.exists_instantiate here hold
    rw [terminal] at instantiated
    obtain ⟨_, _, found, foundToo, rfl⟩ := Template.instantiate_cyclic_iff.mp instantiated
    obtain ⟨_, rfl⟩ := Substitution.find?_cutTo_eq_some.mp found
    obtain ⟨_, rfl⟩ := Substitution.find?_cutTo_eq_some.mp foundToo
    exact ⟨option, _, _, kept _ inOwn, same⟩

variable {settings : StagingSettings} {stager : Stager}

theorem Stager.mem_cycles_iff (compiled : program.compile schema world = .ok layouts)
    (staged : (Stager.empty settings).stageAll layouts = .ok stager) {cycle : String} :
    cycle ∈ stager.cycles.keys ↔
      ∃ (index : Nat) (rule : Rule), program[index]? = some rule ∧ rule.IsCyclic ∧
        rule.IsSatisfiable world ∧ cycle = cycleId index := by
  have drawn : cycle ∈ stager.cycles.keys ↔
      ∃ edge, edge ∈ GroundLayout.edgesIn cycle layouts := by
    rw [SortedMap.mem_keys_iff, Stager.draws_stageAll staged cycle, CycleGraph.ofEdges?]
    cases GroundLayout.edgesIn cycle layouts with
    | nil => simp only [if_true, reduceCtorEq, exists_false, List.not_mem_nil]
    | cons edge edges =>
        rw [if_neg (List.cons_ne_nil edge edges)]
        exact iff_of_true ⟨_, rfl⟩ ⟨edge, List.mem_cons_self⟩
  simp only [drawn, mem_edgesIn_of_compile compiled, Prod.exists]
  constructor
  · intro given
    obtain ⟨source, target, index, rule, placed, same, leads⟩ := given
    obtain ⟨cyclic, satisfiable⟩ := Rule.exists_cycleEdge_iff.mp ⟨source, target, leads⟩
    exact ⟨index, rule, placed, cyclic, satisfiable, same⟩
  · intro given
    obtain ⟨index, rule, placed, cyclic, satisfiable, same⟩ := given
    obtain ⟨source, target, leads⟩ := Rule.exists_cycleEdge_iff.mpr ⟨cyclic, satisfiable⟩
    exact ⟨source, target, index, rule, placed, same, leads⟩

theorem Stager.edges_of_find? (compiled : program.compile schema world = .ok layouts)
    (staged : (Stager.empty settings).stageAll layouts = .ok stager) {index : Nat} {rule : Rule}
    (placed : program[index]? = some rule) {graph : CycleGraph}
    (found : stager.cycles.find? (cycleId index) = some graph) :
    graph.WellFormed ∧
      ∀ source target, (source, target) ∈ graph.edges ↔ rule.CycleEdge world source target := by
  rw [Stager.draws_stageAll staged, CycleGraph.ofEdges?] at found
  split at found
  · cases found
  · cases found
    refine ⟨CycleGraph.wellFormed_ofEdges _, ?_⟩
    intro source target
    rw [CycleGraph.mem_edges_ofEdges, mem_edgesIn_of_compile compiled]
    constructor
    · intro given
      obtain ⟨other, otherRule, otherPlaced, same, leads⟩ := given
      have sameIndex : index = other := numbered_injective "cycle-" same
      rw [← sameIndex, placed] at otherPlaced
      cases otherPlaced
      exact leads
    · exact fun leads => ⟨index, rule, placed, rfl, leads⟩

/-- The cycles of a staged program are its cyclic rules whose chains hold of some atoms, with
the edges of these rules, and only a cycle that is neither a ring nor a line is malformed. -/
theorem stageAll_cycles_exact {α : Type} [Measure α]
    (compiled : program.compile schema world = .ok layouts)
    (staged : (Stager.empty settings).stageAll layouts = .ok stager) :
    Function.Injective cycleId ∧
      (∀ cycle, cycle ∈ stager.cycles.keys ↔
        ∃ (index : Nat) (rule : Rule), program[index]? = some rule ∧ rule.IsCyclic ∧
          rule.IsSatisfiable world ∧ cycle = cycleId index) ∧
      (∀ (index : Nat) (rule : Rule) (graph : CycleGraph), program[index]? = some rule →
        stager.cycles.find? (cycleId index) = some graph →
        graph.edges.Nodup ∧
          ∀ source target, (source, target) ∈ graph.edges ↔ rule.CycleEdge world source target) ∧
      ∀ target : Instance,
        (∃ cycle, stager.arrange (α := α) target = .error (.malformedCycle cycle)) ↔
          ∃ (index : Nat) (rule : Rule), program[index]? = some rule ∧ rule.IsCyclic ∧
            rule.IsSatisfiable world ∧ ¬IsRing (rule.CycleEdge world) ∧
            ¬IsLine (rule.CycleEdge world) := by
  refine ⟨numbered_injective "cycle-", fun _ => Stager.mem_cycles_iff compiled staged, ?_, ?_⟩
  · intro index rule graph placed found
    obtain ⟨wellFormed, edges⟩ := Stager.edges_of_find? compiled staged placed found
    exact ⟨wellFormed.edgesDistinct, edges⟩
  · intro target
    rw [Stager.arrange_malformed_iff]
    have malformed_iff {index : Nat} {rule : Rule} (placed : program[index]? = some rule)
        {graph : CycleGraph} (found : stager.cycles.find? (cycleId index) = some graph) :
        graph.order? = none ↔
          ¬IsRing (rule.CycleEdge world) ∧ ¬IsLine (rule.CycleEdge world) := by
      obtain ⟨wellFormed, edges⟩ := Stager.edges_of_find? compiled staged placed found
      have same : (fun source target => (source, target) ∈ graph.edges) = rule.CycleEdge world :=
        funext fun source => funext fun target => propext (edges source target)
      rw [CycleGraph.order?_eq_none_iff wellFormed, same]
    constructor
    · intro given
      obtain ⟨cycle, graph, found, disordered⟩ := given
      obtain ⟨index, rule, placed, cyclic, satisfiable, rfl⟩ :=
        (Stager.mem_cycles_iff compiled staged).mp (SortedMap.mem_keys_iff.mpr ⟨graph, found⟩)
      exact ⟨index, rule, placed, cyclic, satisfiable, (malformed_iff placed found).mp disordered⟩
    · intro given
      obtain ⟨index, rule, placed, cyclic, satisfiable, shapeless⟩ := given
      obtain ⟨graph, found⟩ := SortedMap.mem_keys_iff.mp
        ((Stager.mem_cycles_iff compiled staged).mpr
          ⟨index, rule, placed, cyclic, satisfiable, rfl⟩)
      exact ⟨_, graph, found, (malformed_iff placed found).mpr shapeless⟩

end CyclicRules

/-- A rule that is not cyclic, a ring that is drawn clockwise and a node with two successors. -/
theorem stageAll_cycles_exact_branching :
    let schema : Schema :=
      { signatures := ["Node"]
        predicates :=
          [{ name := "next", signatures := ["Node", "Node"] },
            { name := "child", signatures := ["Node", "Node"] }]
        hierarchy := [] }
    let world : Instance :=
      { atoms :=
          [{ name := "a", signature := "Node" }, { name := "b", signature := "Node" },
            { name := "c", signature := "Node" }]
        facts :=
          [{ predicate := "next", arguments := ["a", "b"] },
            { predicate := "next", arguments := ["b", "a"] },
            { predicate := "child", arguments := ["a", "b"] },
            { predicate := "child", arguments := ["a", "c"] }] }
    let program : Program :=
      [{ chain := { first := .signature "x" "Node", rest := [] }
         terminal := .unary .aboveCenter .unspecified "x" },
        { chain := { first := .predicate "next" ["x", "y"], rest := [] }
          terminal := .cyclic .clockwise "x" "y" () },
        { chain := { first := .predicate "child" ["x", "y"], rest := [] }
          terminal := .cyclic .counterclockwise "x" "y" () }]
    ∃ (layouts : List GroundLayout) (stager : Stager),
      program.compile schema world = .ok layouts ∧
      (Stager.empty .default).stageAll layouts = .ok stager ∧
      (∀ cycle, cycle ∈ stager.cycles.keys ↔
        ∃ (index : Nat) (rule : Rule), program[index]? = some rule ∧ rule.IsCyclic ∧
          rule.IsSatisfiable world ∧ cycle = cycleId index) ∧
      (∀ (index : Nat) (rule : Rule) (graph : CycleGraph), program[index]? = some rule →
        stager.cycles.find? (cycleId index) = some graph →
        graph.edges.Nodup ∧
          ∀ source target, (source, target) ∈ graph.edges ↔ rule.CycleEdge world source target) ∧
      ∃ (index : Nat) (rule : Rule), program[index]? = some rule ∧ rule.IsCyclic ∧
        rule.IsSatisfiable world ∧ ¬IsRing (rule.CycleEdge world) ∧
        ¬IsLine (rule.CycleEdge world) := by
  intro schema world program
  have compiles : (program.compile schema world).isOk = true := by decide +kernel
  obtain ⟨layouts, compiled⟩ := exists_eq_ok_of_isOk compiles
  have stages : ((program.compile schema world).toOption.map fun layouts =>
      ((Stager.empty .default).stageAll layouts).isOk) = some true := by decide +kernel
  rw [compiled] at stages
  obtain ⟨stager, staged⟩ := exists_eq_ok_of_isOk (Option.some.inj stages)
  have ordered : ((program.compile schema world).toOption.bind fun layouts =>
      ((Stager.empty .default).stageAll layouts).toOption.map fun stager =>
        (stager.cycles.find? "cycle-2").map CycleGraph.order?) = some (some none) := by
    decide +kernel
  rw [compiled] at ordered
  simp only [Except.toOption, Option.bind_some, staged, Option.map_some, Option.some.injEq]
    at ordered
  obtain ⟨graph, found, disordered⟩ := Option.map_eq_some_iff.mp ordered
  obtain ⟨_, keys, edges, shapes⟩ := stageAll_cycles_exact (α := Float) compiled staged
  refine ⟨layouts, stager, compiled, staged, keys, edges, ?_⟩
  exact (shapes world).mp (Stager.arrange_malformed_iff.mpr ⟨_, graph, found, disordered⟩)

end RelationalLayout
