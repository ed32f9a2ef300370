/-
Signatures of variables against signatures of their atoms.

Checking a rule gives its variables signatures, and evaluating its chain gives them atoms.
A selector by signature makes the two agree. A selector by predicate takes the signatures
from the declaration and the atoms from the facts, and validation compares only their
numbers. So the atoms are declared, but the two agree for all checked rules exactly when
the facts of the instance stay within the declared signatures, which a valid instance
need not do. For one rule it is enough that the facts of its own predicates do.
-/

import RelationalLayout.Proofs.CheckedRule

namespace RelationalLayout

variable {schema : Schema} {world : Instance}

theorem Schema.Below.eq_or_direct {lower upper : String} (below : schema.Below lower upper) :
    lower = upper ∨ ∃ middle, (lower, middle) ∈ schema.hierarchy := by
  cases below with
  | refl => exact Or.inl rfl
  | step direct _ => exact Or.inr ⟨_, direct⟩

def Instance.HasAtomBelow (schema : Schema) (world : Instance) (name signature : String) : Prop :=
  ∃ atom ∈ world.atoms, atom.name = name ∧ schema.Below atom.signature signature

def Fact.RespectsSignatures (schema : Schema) (world : Instance) (fact : Fact) : Prop :=
  ∀ declared, schema.predicate? fact.predicate = some declared →
    List.Forall₂ (world.HasAtomBelow schema) fact.arguments declared.signatures

def Instance.RespectsSignatures (schema : Schema) (world : Instance) : Prop :=
  ∀ fact ∈ world.facts, fact.RespectsSignatures schema world

def Substitution.RespectsTypes (schema : Schema) (world : Instance) (env : TypeEnv)
    (names : List String) (substitution : Substitution) : Prop :=
  ∀ name ∈ names, ∃ atom signature, substitution.find? name = some atom ∧
    env.find? name = some signature ∧ world.HasAtomBelow schema atom signature

def Rule.variableNames (rule : Rule) : List String :=
  rule.selectors.flatMap Selector.variableNames

def Selector.predicateNames : Selector → List String
  | .signature _ _ => []
  | .predicate predicateName _ => [predicateName]

def Rule.predicateNames (rule : Rule) : List String :=
  rule.selectors.flatMap Selector.predicateNames

/-! ### Facts within the declared signatures -/

theorem Selector.respectsTypes {env : TypeEnv} {substitution : Substitution} {selector : Selector}
    (respects : ∀ fact ∈ world.facts, fact.predicate ∈ selector.predicateNames →
      fact.RespectsSignatures schema world)
    (typed : selector.TypedBy schema env) (holds : selector.Holds world substitution.find?) :
    substitution.RespectsTypes schema world env selector.variableNames := by
  intro name member
  cases selector with
  | signature variableName signatureName =>
      obtain ⟨atom, declared, found, rfl⟩ := holds
      rcases List.mem_singleton.mp member with rfl
      exact ⟨atom.name, atom.signature, found, typed.2, atom, declared, rfl, .refl _⟩
  | predicate predicateName arguments =>
      -- A variable at some position has the signature declared there, and is led to the
      -- argument of the fact there.
      obtain ⟨declared, known, matching⟩ := typed
      obtain ⟨fact, listed, rfl, assigned⟩ := holds
      obtain ⟨sameLength, within⟩ := List.forall₂_iff_get.mp
        (respects fact listed List.mem_cons_self declared known)
      obtain ⟨_, given⟩ := List.forall₂_iff_get.mp matching
      have count : arguments.length = fact.arguments.length := by
        simpa using congrArg List.length assigned
      obtain ⟨position, inside, rfl⟩ := List.getElem_of_mem member
      have inFact : position < fact.arguments.length := count ▸ inside
      have inDeclared : position < declared.signatures.length := sameLength ▸ inFact
      have found : substitution.find? arguments[position] = some fact.arguments[position] := by
        have there := List.getElem_of_eq assigned (by simpa [variableNames] using inside)
        rw [List.getElem_map, List.getElem_map] at there
        exact there
      exact ⟨_, _, found, given position inside inDeclared, within position inFact inDeclared⟩

theorem Rule.respectsTypes {rule : Rule} {env : TypeEnv} (checked : rule.check schema = .ok env)
    (respects : ∀ fact ∈ world.facts, fact.predicate ∈ rule.predicateNames →
      fact.RespectsSignatures schema world)
    {substitutions : List Substitution}
    (found : substitutionsOf schema world rule.selectors = .ok substitutions)
    {substitution : Substitution} (member : substitution ∈ substitutions) :
    substitution.RespectsTypes schema world env rule.variableNames := by
  intro name isVariable
  obtain ⟨selector, inChain, occurs⟩ := List.mem_flatMap.mp isVariable
  have typed := (Rule.check_eq_ok_iff.mp checked).2.1 selector inChain
  have holds := ((mem_substitutionsOf_iff found).mp member).2 selector inChain
  refine Selector.respectsTypes (fun fact listed named => ?_) typed holds name occurs
  exact respects fact listed (List.mem_flatMap.mpr ⟨selector, inChain, named⟩)

theorem Rule.exists_atom (valid : world.Valid schema) {rule : Rule}
    {substitutions : List Substitution}
    (found : substitutionsOf schema world rule.selectors = .ok substitutions)
    {substitution : Substitution} (member : substitution ∈ substitutions) {name : String}
    (isVariable : name ∈ rule.variableNames) :
    ∃ atom ∈ world.atoms, substitution.find? name = some atom.name := by
  obtain ⟨selector, inChain, occurs⟩ := List.mem_flatMap.mp isVariable
  have holds := ((mem_substitutionsOf_iff found).mp member).2 selector inChain
  exact holds.exists_atom valid occurs

/-! ### Rules that read one fact -/

def argumentVariable (position : Nat) : String := String.ofList (List.replicate position '_')

theorem argumentVariable_injective : Function.Injective argumentVariable := by
  intro position other same
  simpa [argumentVariable] using congrArg String.length same

def argumentVariables (count : Nat) : List String := (List.range count).map argumentVariable

@[simp] theorem length_argumentVariables (count : Nat) :
    (argumentVariables count).length = count := by simp [argumentVariables]

theorem nodup_argumentVariables (count : Nat) : (argumentVariables count).Nodup :=
  List.nodup_range.map argumentVariable_injective

def argumentMap (values : List String) : SortedMap String String :=
  .ofList ((argumentVariables values.length).zip values)

theorem map_fst_zip_argumentVariables (values : List String) :
    ((argumentVariables values.length).zip values).map Prod.fst =
      argumentVariables values.length :=
  List.map_fst_zip (by simp)

theorem nodup_zip_argumentVariables (values : List String) :
    (((argumentVariables values.length).zip values).map Prod.fst).Nodup := by
  rw [map_fst_zip_argumentVariables]
  exact nodup_argumentVariables values.length

theorem find?_argumentMap (values : List String) {position : Nat}
    (inside : position < values.length) :
    (argumentMap values).find? (argumentVariable position) = some values[position] := by
  rw [argumentMap, SortedMap.find?_ofList (nodup_zip_argumentVariables values),
    List.mem_iff_getElem]
  exact ⟨position, by simpa using inside, by simp [argumentVariables]⟩

theorem mem_keys_argumentMap (values : List String) (name : String) :
    name ∈ (argumentMap values).keys ↔ name ∈ argumentVariables values.length := by
  rw [argumentMap, SortedMap.mem_keys_ofList (nodup_zip_argumentVariables values),
    map_fst_zip_argumentVariables]

def Rule.overPredicate (name : String) (arity : Nat) : Rule :=
  { chain := { first := .predicate name (argumentVariables arity), rest := [] }
    terminal := .unary .leftOfCenter .unspecified (argumentVariable 0) }

theorem Rule.check_overPredicate {declared : Predicate} {name : String}
    (known : schema.predicate? name = some declared) (positive : 0 < declared.arity) :
    (Rule.overPredicate name declared.arity).check schema =
      .ok (argumentMap declared.signatures) := by
  rw [Rule.check_eq_ok_iff]
  refine ⟨?_, ?_, rfl, ?_⟩
  · intro variableName
    rw [mem_keys_argumentMap]
    simp [overPredicate, selectors, Chain.toList, Selector.variableNames, Predicate.arity]
  · intro selector member
    rcases List.mem_singleton.mp member with rfl
    refine ⟨declared, known, List.forall₂_iff_get.mpr ⟨length_argumentVariables _, ?_⟩⟩
    intro position _ inside
    simpa [argumentVariables] using find?_argumentMap declared.signatures inside
  · intro operand member
    rcases List.mem_singleton.mp member with rfl
    exact SortedMap.mem_keys_iff.mpr ⟨_, find?_argumentMap declared.signatures positive⟩

theorem Rule.mem_substitutionsOf_overPredicate {fact : Fact} (listed : fact ∈ world.facts)
    {substitutions : List Substitution}
    (found : substitutionsOf schema world
      (Rule.overPredicate fact.predicate fact.arguments.length).selectors = .ok substitutions) :
    argumentMap fact.arguments ∈ substitutions := by
  rw [mem_substitutionsOf_iff found]
  refine ⟨?_, ?_⟩
  · intro variableName
    rw [mem_keys_argumentMap]
    simp [overPredicate, selectors, Chain.toList, Selector.variableNames]
  · intro selector member
    rcases List.mem_singleton.mp member with rfl
    refine ⟨fact, listed, rfl, List.ext_getElem (by simp) ?_⟩
    intro position _ inside
    have inFact : position < fact.arguments.length := by simpa using inside
    simpa [argumentVariables] using find?_argumentMap fact.arguments inFact

/-- The rule that asks for the predicate of a fact has the declared signatures in its environment
and the arguments of the fact in one of its substitutions, at the same variables. -/
theorem Fact.respectsSignatures_of_overPredicate (valid : world.Valid schema) {fact : Fact}
    (listed : fact ∈ world.facts)
    (sound : ∀ (arity : Nat) (env : TypeEnv) (substitutions : List Substitution),
      (Rule.overPredicate fact.predicate arity).check schema = .ok env →
      substitutionsOf schema world (Rule.overPredicate fact.predicate arity).selectors =
        .ok substitutions →
      ∀ substitution ∈ substitutions, substitution.RespectsTypes schema world env
        (Rule.overPredicate fact.predicate arity).variableNames) :
    fact.RespectsSignatures schema world := by
  intro declared known
  obtain ⟨predicate, knownToo, arity, _⟩ := valid.factsTyped fact listed
  cases known.symm.trans knownToo
  refine List.forall₂_iff_get.mpr ⟨arity.symm, fun position inFact inDeclared => ?_⟩
  have checked := Rule.check_overPredicate known (Nat.zero_lt_of_lt inDeclared)
  obtain ⟨substitutions, found⟩ :=
    exists_substitutionsOf valid (Rule.check_eq_ok_iff.mp checked).2.1
  have member : argumentMap fact.arguments ∈ substitutions := by
    rw [arity] at found
    exact Rule.mem_substitutionsOf_overPredicate listed found
  have isVariable : argumentVariable position ∈
      (Rule.overPredicate fact.predicate declared.arity).variableNames := by
    simpa [Rule.variableNames, Rule.overPredicate, Rule.selectors, Chain.toList,
      Selector.variableNames, Predicate.arity, argumentVariables,
      argumentVariable_injective.eq_iff] using inDeclared
  obtain ⟨atom, signature, leads, types, below⟩ :=
    sound _ _ _ checked found _ member _ isVariable
  rw [find?_argumentMap fact.arguments inFact] at leads
  rw [find?_argumentMap declared.signatures inDeclared] at types
  cases leads
  cases types
  exact below

/-! ### Type soundness -/

/-- Over a valid instance, all variables of all checked rules are led to atoms of their signatures
exactly if the facts stay within the signatures that their predicates are declared with. Those of
one rule are if the facts of its predicates stay within them. All are led to declared atoms. -/
theorem respectsTypes_iff_respectsSignatures (validated : world.validate schema = .ok ()) :
    ((∀ (rule : Rule) (env : TypeEnv) (substitutions : List Substitution),
      rule.check schema = .ok env →
      substitutionsOf schema world rule.selectors = .ok substitutions →
      ∀ substitution ∈ substitutions,
        substitution.RespectsTypes schema world env rule.variableNames) ↔
      world.RespectsSignatures schema) ∧
    ∀ (rule : Rule) (env : TypeEnv) (substitutions : List Substitution),
      rule.check schema = .ok env →
      substitutionsOf schema world rule.selectors = .ok substitutions →
      ((∀ fact ∈ world.facts, fact.predicate ∈ rule.predicateNames →
          fact.RespectsSignatures schema world) →
        ∀ substitution ∈ substitutions,
          substitution.RespectsTypes schema world env rule.variableNames) ∧
      ∀ substitution ∈ substitutions, ∀ name ∈ rule.variableNames,
        ∃ atom ∈ world.atoms, substitution.find? name = some atom.name := by
  have valid := Instance.validate_eq_ok_iff.mp validated
  refine ⟨⟨?_, ?_⟩, fun rule env substitutions checked found => ⟨?_, ?_⟩⟩
  · intro sound fact listed
    exact Fact.respectsSignatures_of_overPredicate valid listed
      (fun arity => sound (Rule.overPredicate fact.predicate arity))
  · intro respects rule env substitutions checked found substitution member
    exact Rule.respectsTypes checked (fun fact listed _ => respects fact listed) found member
  · exact fun respects substitution member => Rule.respectsTypes checked respects found member
  · exact fun substitution member name => Rule.exists_atom valid found member

/-- A fact about an apple and a fruit, where apples are fruits. -/
theorem respectsTypes_iff_respectsSignatures_fruits :
    let schema : Schema :=
      { signatures := ["Apple", "Fruit"]
        predicates := [{ name := "redder", signatures := ["Fruit", "Fruit"] }]
        hierarchy := [("Apple", "Fruit")] }
    let world : Instance :=
      { atoms := [{ name := "a", signature := "Apple" }, { name := "f", signature := "Fruit" }]
        facts := [{ predicate := "redder", arguments := ["a", "f"] }] }
    world.validate schema = .ok () ∧ world.RespectsSignatures schema ∧
      ∀ (rule : Rule) (env : TypeEnv) (substitutions : List Substitution),
        rule.check schema = .ok env →
        substitutionsOf schema world rule.selectors = .ok substitutions →
        ∀ substitution ∈ substitutions,
          substitution.RespectsTypes schema world env rule.variableNames := by
  intro schema world
  have validated : world.validate schema = .ok () := by decide
  have respects : world.RespectsSignatures schema := by
    intro fact listed declared known
    rcases List.mem_singleton.mp listed with rfl
    cases known
    have apple : world.HasAtomBelow schema "a" "Fruit" :=
      ⟨_, List.mem_cons_self, rfl, .step List.mem_cons_self (.refl _)⟩
    have fruit : world.HasAtomBelow schema "f" "Fruit" :=
      ⟨_, List.mem_cons_of_mem _ List.mem_cons_self, rfl, .refl _⟩
    exact .cons apple (.cons fruit .nil)
  exact ⟨validated, respects, (respectsTypes_iff_respectsSignatures validated).1.mpr respects⟩

/-- A valid instance may state a fact about a banana where an apple is declared, and then the
variable of a checked rule is led to a banana although its signature is that of apples. -/
theorem not_respectsTypes_banana :
    let schema : Schema :=
      { signatures := ["Apple", "Banana"]
        predicates := [{ name := "ripe", signatures := ["Apple"] }]
        hierarchy := [] }
    let world : Instance :=
      { atoms := [{ name := "b", signature := "Banana" }]
        facts := [{ predicate := "ripe", arguments := ["b"] }] }
    let rule : Rule :=
      { chain := { first := .predicate "ripe" ["v"], rest := [] }
        terminal := .unary .leftOfCenter .unspecified "v" }
    let env : TypeEnv := .ofList [("v", "Apple")]
    let substitution : Substitution := .ofList [("v", "b")]
    world.validate schema = .ok () ∧ rule.check schema = .ok env ∧
      substitutionsOf schema world rule.selectors = .ok [substitution] ∧
      ¬ substitution.RespectsTypes schema world env rule.variableNames := by
  intro schema world rule env substitution
  refine ⟨by decide, by decide +kernel, by decide +kernel, ?_⟩
  intro respects
  obtain ⟨atom, signature, leads, types, declared, listed, rfl, below⟩ :=
    respects "v" List.mem_cons_self
  cases types
  rcases List.mem_singleton.mp listed with rfl
  rcases below.eq_or_direct with same | ⟨_, direct⟩
  · revert same
    decide
  · cases direct

end RelationalLayout
