/-
What checking a rule finds out.

An environment types a selector when it gives each variable the signature that the
selector has for it. Checking succeeds exactly when some environment of the variables
of the chain types all its selectors and the terminal can be placed over them, and it
returns that environment.
-/

import Mathlib.Data.List.Forall2
import RelationalLayout.Proofs.Query
import RelationalLayout.Proofs.Success
import RelationalLayout.Typing

namespace RelationalLayout

/-! ### Assigning signatures -/

namespace TypeEnv

variable {env next : TypeEnv}

theorem assign_eq_ok_iff {variableName signature : String} :
    env.assign variableName signature = .ok next ↔
      Query.bind? env variableName signature = some next := by
  rw [assign, Query.bind?]
  cases env.find? variableName with
  | none => simp
  | some earlier => by_cases same : earlier = signature <;> simp [same]

theorem assignAll_eq_iff {pairs : List (String × String)} :
    env.assignAll pairs = (next, none) ↔ Query.bindAll? env pairs = some next := by
  induction pairs generalizing env with
  | nil => simp [assignAll, Query.bindAll?]
  | cons pair pairs ih =>
      rw [assignAll, Query.bindAll?]
      cases assigned : env.assign pair.1 pair.2 with
      | error conflict =>
          have unbound : Query.bind? env pair.1 pair.2 = none := by
            by_contra bound
            obtain ⟨middle, bound⟩ := Option.ne_none_iff_exists'.mp bound
            rw [assign_eq_ok_iff.mpr bound] at assigned
            cases assigned
          simp [unbound]
      | ok middle => simp [assign_eq_ok_iff.mp assigned, ih]

end TypeEnv

/-! ### Selectors -/

def Selector.TypedBy (schema : Schema) (env : TypeEnv) : Selector → Prop
  | .signature variableName signatureName =>
      signatureName ∈ schema.signatures ∧ env.find? variableName = some signatureName
  | .predicate predicateName arguments =>
      ∃ declared, schema.predicate? predicateName = some declared ∧
        List.Forall₂ (fun argument signature => env.find? argument = some signature) arguments
          declared.signatures

namespace Selector

variable {schema : Schema} {selector : Selector}

theorem map_fst_assignments {pairs : List (String × String)}
    (assigned : selector.assignments schema = .ok pairs) :
    pairs.map Prod.fst = selector.variableNames := by
  cases selector with
  | signature variableName signatureName =>
      simp only [assignments] at assigned
      split at assigned <;> cases assigned
      rfl
  | predicate predicateName arguments =>
      simp only [assignments] at assigned
      split at assigned
      · cases assigned
      · split at assigned
        · rename_i declared _ arity
          cases assigned
          exact List.map_fst_zip (Nat.le_of_eq arity.symm)
        · cases assigned

theorem typedBy_iff {env : TypeEnv} :
    selector.TypedBy schema env ↔
      ∃ pairs, selector.assignments schema = .ok pairs ∧
        ∀ pair ∈ pairs, env.find? pair.1 = some pair.2 := by
  cases selector with
  | signature variableName signatureName =>
      by_cases known : schema.hasSignature signatureName = true
      · have declared : signatureName ∈ schema.signatures := List.contains_iff_mem.mp known
        simp [TypedBy, assignments, known, declared]
      · have undeclared : signatureName ∉ schema.signatures :=
          fun declared => known (List.contains_iff_mem.mpr declared)
        simp [TypedBy, assignments, known, undeclared]
  | predicate predicateName arguments =>
      cases found : schema.predicate? predicateName with
      | none => simp [TypedBy, assignments, found]
      | some declared =>
          by_cases arity : declared.arity = arguments.length
          · simp only [TypedBy, found, assignments, arity, if_true, Option.some.injEq,
              exists_eq_left', Except.ok.injEq, List.forall₂_iff_zip]
            constructor
            · rintro ⟨_, all⟩ pair member
              exact all member
            · intro all
              exact ⟨arity.symm, fun member => all _ member⟩
          · simp only [TypedBy, found, assignments, arity, if_false, Option.some.injEq,
              exists_eq_left', reduceCtorEq, false_and, exists_false, iff_false]
            intro all
            exact arity all.length_eq.symm

theorem TypedBy.mono {env larger : TypeEnv} (typed : selector.TypedBy schema env)
    (extended : Substitution.Extends larger env) : selector.TypedBy schema larger := by
  obtain ⟨pairs, assigned, given⟩ := typedBy_iff.mp typed
  exact typedBy_iff.mpr ⟨pairs, assigned, fun pair member => extended _ _ (given pair member)⟩

theorem typeIn_eq_iff {env next : TypeEnv} :
    selector.typeIn schema env = (next, none) ↔
      ∃ pairs, selector.assignments schema = .ok pairs ∧ Query.bindAll? env pairs = some next := by
  unfold typeIn
  cases selector.assignments schema with
  | error fault => simp
  | ok pairs => simp [TypeEnv.assignAll_eq_iff]

end Selector

/-! ### Chains -/

theorem typeChain_cons_iff {schema : Schema} {env final : TypeEnv} {selector : Selector}
    {rest : List Selector} :
    typeChain schema env (selector :: rest) = .ok final ↔
      ∃ next, selector.typeIn schema env = (next, none) ∧
        typeChain schema next rest = .ok final := by
  rw [typeChain]
  rcases selector.typeIn schema env with ⟨next, fault⟩
  cases fault <;> simp

/-- A chain is typed by the environment that extends the given one by the variables of the chain
and types all its selectors. -/
theorem typeChain_eq_ok_iff {schema : Schema} {env final : TypeEnv} {selectors : List Selector} :
    typeChain schema env selectors = .ok final ↔
      Substitution.Extends final env ∧
        (∀ name, name ∈ final.keys ↔
          name ∈ env.keys ∨ ∃ selector ∈ selectors, name ∈ selector.variableNames) ∧
        ∀ selector ∈ selectors, selector.TypedBy schema final := by
  induction selectors generalizing env with
  | nil =>
      simp only [typeChain, Except.ok.injEq, List.not_mem_nil, false_and, exists_false, or_false,
        false_implies, implies_true, and_true]
      constructor
      · rintro rfl
        exact ⟨Substitution.Extends.refl _, fun _ => Iff.rfl⟩
      · rintro ⟨extended, keys⟩
        exact (extended.eq_of_keys (fun name => (keys name).mp)).symm
  | cons selector rest ih =>
      simp only [typeChain_cons_iff, Selector.typeIn_eq_iff, ih, List.forall_mem_cons,
        List.exists_mem_cons_iff]
      constructor
      · rintro ⟨next, ⟨pairs, assigned, bound⟩, extended, keys, typed⟩
        obtain ⟨kept, given, keysNext⟩ := Query.bindAll?_sound bound
        refine ⟨extended.trans kept, ?_, ?_, typed⟩
        · intro name
          rw [keys, keysNext, Selector.map_fst_assignments assigned, or_assoc]
        · exact (Selector.typedBy_iff.mpr ⟨pairs, assigned, given⟩).mono extended
      · rintro ⟨extended, keys, typedHere, typed⟩
        obtain ⟨pairs, assigned, given⟩ := Selector.typedBy_iff.mp typedHere
        obtain ⟨next, bound, extendedNext⟩ := Query.bindAll?_complete extended given
        refine ⟨next, ⟨pairs, assigned, bound⟩, extendedNext, ?_, typed⟩
        intro name
        rw [keys, (Query.bindAll?_sound bound).2.2, Selector.map_fst_assignments assigned,
          or_assoc]

/-! ### Rules -/

theorem Template.check_eq_ok_iff {env : TypeEnv} {terminal : Template} :
    Template.check env terminal = .ok () ↔
      terminal.isStageable = true ∧ ∀ operand ∈ terminal.operands, operand ∈ env.keys := by
  unfold Template.check Template.unboundOperand?
  cases stageable : terminal.isStageable with
  | false => simp
  | true =>
      simp only [if_true, true_and]
      split
      · rename_i operand found
        have unknown := List.find?_some found
        refine iff_of_false (by simp) fun bound => ?_
        rw [SortedMap.contains_iff.mpr (bound operand (List.mem_of_find?_eq_some found))] at unknown
        cases unknown
      · rename_i found
        simpa [SortedMap.contains_iff] using found

/-- A rule is well-typed by the environment of just the variables of its chain that types all its
selectors, if its terminal can be placed and stands over these variables. -/
theorem Rule.check_eq_ok_iff {schema : Schema} {rule : Rule} {env : TypeEnv} :
    rule.check schema = .ok env ↔
      (∀ name, name ∈ env.keys ↔ ∃ selector ∈ rule.selectors, name ∈ selector.variableNames) ∧
        (∀ selector ∈ rule.selectors, selector.TypedBy schema env) ∧
        rule.terminal.isStageable = true ∧
        ∀ operand ∈ rule.terminal.operands, operand ∈ env.keys := by
  have noKeys (name : String) : name ∉ (SortedMap.empty : TypeEnv).keys := List.not_mem_nil
  have extended : Substitution.Extends env .empty := fun _ _ impossible => by cases impossible
  simp only [check, bind_eq_ok_iff, typeChain_eq_ok_iff, Except.ok.injEq, noKeys, false_or]
  constructor
  · rintro ⟨_, ⟨_, keys, typed⟩, _, placed, rfl⟩
    exact ⟨keys, typed, Template.check_eq_ok_iff.mp placed⟩
  · rintro ⟨keys, typed, placed⟩
    exact ⟨env, ⟨extended, keys, typed⟩, (), Template.check_eq_ok_iff.mpr placed, rfl⟩

end RelationalLayout
