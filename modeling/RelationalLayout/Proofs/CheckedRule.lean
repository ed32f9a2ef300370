/-
Compiling checked rules.

Over a valid instance the facts of a predicate have as many arguments as its schema
declares, and so has every selector of a well-typed chain. A well-typed chain can
therefore be evaluated, its substitutions bind all operands of the terminal, and what
comes out can be staged.
-/

import RelationalLayout.Proofs.Compilation
import RelationalLayout.Proofs.Instance
import RelationalLayout.Proofs.Typing

namespace RelationalLayout

variable {schema : Schema} {world : Instance}

/-! ### Evaluating well-typed chains -/

theorem Selector.exists_candidates (valid : world.Valid schema) {env : TypeEnv}
    {selector : Selector} (typed : selector.TypedBy schema env) :
    ∃ tuples, selector.candidates schema world = .ok tuples := by
  cases selector with
  | signature variableName signatureName => exact ⟨_, rfl⟩
  | predicate predicateName arguments =>
      obtain ⟨declared, found, matching⟩ := typed
      have arity : declared.arity = arguments.length := matching.length_eq.symm
      -- All facts have the declared arity, which is that of the selector.
      have factArity : ∀ tuple ∈ world.tuplesOf predicateName,
          tuple.length = arguments.length := by
        intro tuple member
        obtain ⟨fact, listed, rfl, rfl⟩ := Instance.mem_tuplesOf_iff.mp member
        obtain ⟨predicate, foundToo, factArity, _⟩ := valid.factsTyped fact listed
        cases found.symm.trans foundToo
        exact factArity.symm.trans arity
      refine ⟨world.tuplesOf predicateName, ?_⟩
      simp only [candidates, found]
      split
      · rename_i wrong isWrong
        have different := List.find?_some isWrong
        have inLengths := List.mem_of_find?_eq_some isWrong
        simp only [Option.map_some, Option.toList_some, List.singleton_append, List.mem_cons,
          List.mem_map] at inLengths
        rcases inLengths with rfl | ⟨tuple, member, rfl⟩
        · simp [arity] at different
        · simp [factArity tuple member] at different
      · rfl

theorem exists_substitutionsOf (valid : world.Valid schema) {env : TypeEnv}
    {selectors : List Selector} (typed : ∀ selector ∈ selectors, selector.TypedBy schema env) :
    ∃ substitutions, substitutionsOf schema world selectors = .ok substitutions := by
  have built (query : Query) :
      ∃ result, Query.ofSelectors schema world query selectors = .ok result := by
    induction selectors generalizing query with
    | nil => exact ⟨query, rfl⟩
    | cons selector rest ih =>
        obtain ⟨typedHere, typedRest⟩ := List.forall_mem_cons.mp typed
        obtain ⟨tuples, found⟩ := selector.exists_candidates valid typedHere
        rw [Query.ofSelectors, Selector.addTo, found]
        exact ih typedRest _
  obtain ⟨query, result⟩ := built []
  exact ⟨query.answers, by rw [substitutionsOf, result]; rfl⟩

/-! ### Instantiating terminals -/

namespace Template

variable {terminal : Template} {id : String} {substitution : Substitution}

theorem isStageable_of_instantiate {layout : GroundLayout}
    (instantiated : terminal.instantiate substitution id = .ok layout) :
    layout.isStageable = terminal.isStageable := by
  cases terminal with
  | unary option separation operand =>
      obtain ⟨atom, _, rfl⟩ := instantiate_unary_iff.mp instantiated
      rfl
  | binary option separation first second =>
      obtain ⟨left, right, _, _, rfl⟩ := instantiate_binary_iff.mp instantiated
      rfl
  | cyclic option first second cycle =>
      obtain ⟨left, _, instantiated⟩ := bind_eq_ok_iff.mp instantiated
      obtain ⟨right, _, instantiated⟩ := bind_eq_ok_iff.mp instantiated
      cases instantiated
      rfl
  | grouping operand group =>
      obtain ⟨atom, _, instantiated⟩ := bind_eq_ok_iff.mp instantiated
      cases instantiated
      rfl

theorem exists_instantiate_of_bound (id : String)
    (bound : ∀ operand ∈ terminal.operands, operand ∈ substitution.keys) :
    ∃ layout, terminal.instantiate substitution id = .ok layout := by
  have resolved (operand : String) (member : operand ∈ terminal.operands) :
      ∃ atom, terminal.resolve substitution operand = .ok atom := by
    obtain ⟨atom, found⟩ := SortedMap.mem_keys_iff.mp (bound operand member)
    exact ⟨atom, resolve_eq_ok_iff.mpr found⟩
  cases terminal with
  | unary option separation operand =>
      obtain ⟨atom, here⟩ := resolved operand (by simp [Layout.operands])
      exact ⟨_, bind_eq_ok_iff.mpr ⟨atom, here, rfl⟩⟩
  | binary option separation first second =>
      obtain ⟨left, here⟩ := resolved first (by simp [Layout.operands])
      obtain ⟨right, there⟩ := resolved second (by simp [Layout.operands])
      exact ⟨_, bind_eq_ok_iff.mpr ⟨left, here, bind_eq_ok_iff.mpr ⟨right, there, rfl⟩⟩⟩
  | cyclic option first second cycle =>
      obtain ⟨left, here⟩ := resolved first (by simp [Layout.operands])
      obtain ⟨right, there⟩ := resolved second (by simp [Layout.operands])
      exact ⟨_, bind_eq_ok_iff.mpr ⟨left, here, bind_eq_ok_iff.mpr ⟨right, there, rfl⟩⟩⟩
  | grouping operand group =>
      obtain ⟨atom, here⟩ := resolved operand (by simp [Layout.operands])
      exact ⟨_, bind_eq_ok_iff.mpr ⟨atom, here, rfl⟩⟩

theorem exists_instantiateAll (id : String) {substitutions : List Substitution}
    (bound : ∀ substitution ∈ substitutions, ∀ operand ∈ terminal.operands,
      operand ∈ substitution.keys) :
    ∃ layouts, terminal.instantiateAll id substitutions = .ok layouts ∧
      ∀ layout ∈ layouts, layout.isStageable = terminal.isStageable := by
  induction substitutions with
  | nil => exact ⟨[], rfl, by simp⟩
  | cons substitution rest ih =>
      obtain ⟨boundHere, boundRest⟩ := List.forall_mem_cons.mp bound
      obtain ⟨layout, instantiated⟩ := exists_instantiate_of_bound id boundHere
      obtain ⟨layouts, remaining, alike⟩ := ih boundRest
      refine ⟨layout :: layouts, ?_, ?_⟩
      · rw [instantiateAll, instantiated, remaining]
        rfl
      · exact List.forall_mem_cons.mpr ⟨isStageable_of_instantiate instantiated, alike⟩

end Template

/-! ### Compiling -/

theorem Rule.exists_compile (valid : world.Valid schema) {rule : Rule} {env : TypeEnv}
    (checked : rule.check schema = .ok env) (number : Nat) :
    ∃ layouts, rule.compile schema world number = .ok layouts ∧
      ∀ layout ∈ layouts, layout.isStageable = true := by
  obtain ⟨keys, typed, stageable, operands⟩ := Rule.check_eq_ok_iff.mp checked
  obtain ⟨substitutions, found⟩ := exists_substitutionsOf valid typed
  have bound : ∀ substitution ∈ substitutions, ∀ operand ∈ rule.terminal.operands,
      operand ∈ substitution.keys := by
    intro substitution member operand isOperand
    have domain := ((mem_substitutionsOf_iff found).mp member).1
    exact (domain operand).mpr ((keys operand).mp (operands operand isOperand))
  obtain ⟨layouts, instantiated, alike⟩ :=
    Template.exists_instantiateAll (Nat.repr number) bound
  refine ⟨layouts, Rule.compile_eq_ok_iff.mpr ⟨substitutions, found, instantiated⟩, ?_⟩
  intro layout member
  rw [alike layout member, stageable]

theorem Program.exists_compile (valid : world.Valid schema) {program : Program}
    (checked : ∀ rule ∈ program, ∃ env, rule.check schema = .ok env) :
    ∃ layouts, program.compile schema world = .ok layouts ∧
      ∀ layout ∈ layouts, layout.isStageable = true := by
  have compiled (number : Nat) :
      ∃ layouts, Program.compileFrom schema world number program = .ok layouts ∧
        ∀ layout ∈ layouts, layout.isStageable = true := by
    induction program generalizing number with
    | nil => exact ⟨[], rfl, by simp⟩
    | cons rule rest ih =>
        obtain ⟨⟨env, checkedHere⟩, checkedRest⟩ := List.forall_mem_cons.mp checked
        obtain ⟨own, here, stageable⟩ := rule.exists_compile valid checkedHere number
        obtain ⟨later, remaining, stageableLater⟩ := ih checkedRest (number + 1)
        refine ⟨own ++ later, ?_, List.forall_mem_append.mpr ⟨stageable, stageableLater⟩⟩
        rw [Program.compileFrom, here, remaining]
        rfl
  exact compiled 0

end RelationalLayout
