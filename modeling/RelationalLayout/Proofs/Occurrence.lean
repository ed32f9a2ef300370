/-
Well-typed rules, whatever the order of their selectors.

A selector gives its variables signatures at its places. A rule is well-typed when what its
selectors name is declared, no two places give one variable different signatures, and its terminal
can be placed over the variables of the chain. Checking finds out just that, though it gives
signatures selector by selector, and the environment that it returns is what the places give.
-/

import RelationalLayout.Proofs.Assignment
import RelationalLayout.Proofs.Typing

namespace RelationalLayout

/-! ### Places of variables -/

namespace Selector

/-- One of the places of a selector gives a variable a signature: the place of a signature
selector the one it names, a place of a predicate the one that its first declaration has there. -/
inductive Gives (schema : Schema) : Selector → String → String → Prop where
  | signature (variableName signatureName : String) :
      Gives schema (.signature variableName signatureName) variableName signatureName
  | predicate {predicateName : String} {arguments : List String} {declared : Predicate}
      {variableName signatureName : String}
      (found : schema.predicate? predicateName = some declared)
      (place : (variableName, signatureName) ∈ arguments.zip declared.signatures) :
      Gives schema (.predicate predicateName arguments) variableName signatureName

inductive IsDeclared (schema : Schema) : Selector → Prop where
  | signature (variableName : String) {signatureName : String}
      (declared : signatureName ∈ schema.signatures) :
      IsDeclared schema (.signature variableName signatureName)
  | predicate {predicateName : String} {arguments : List String} {declared : Predicate}
      (found : schema.predicate? predicateName = some declared)
      (arity : declared.arity = arguments.length) :
      IsDeclared schema (.predicate predicateName arguments)

variable {schema : Schema} {selector : Selector} {variableName signatureName : String}

theorem isDeclared_iff :
    selector.IsDeclared schema ↔ ∃ pairs, selector.assignments schema = .ok pairs := by
  constructor
  · intro declared
    cases declared with
    | signature _ declared => exact ⟨_, if_pos (List.contains_iff_mem.mpr declared)⟩
    | @predicate _ arguments declared found arity =>
        refine ⟨arguments.zip declared.signatures, ?_⟩
        rw [assignments, found]
        exact if_pos arity
  · rintro ⟨pairs, assigned⟩
    cases selector with
    | signature variableName signatureName =>
        simp only [assignments] at assigned
        split at assigned
        · rename_i declared
          exact .signature _ (List.contains_iff_mem.mp declared)
        · cases assigned
    | predicate predicateName arguments =>
        simp only [assignments] at assigned
        split at assigned
        · cases assigned
        · rename_i declared found
          split at assigned
          · rename_i arity
            exact .predicate found arity
          · cases assigned

theorem gives_iff {pairs : List (String × String)}
    (assigned : selector.assignments schema = .ok pairs) :
    selector.Gives schema variableName signatureName ↔ (variableName, signatureName) ∈ pairs := by
  cases selector with
  | signature name signature =>
      simp only [assignments] at assigned
      split at assigned
      · cases assigned
        rw [List.mem_singleton, Prod.mk.injEq]
        constructor
        · rintro ⟨⟩
          exact ⟨rfl, rfl⟩
        · rintro ⟨rfl, rfl⟩
          exact .signature _ _
      · cases assigned
  | predicate predicateName arguments =>
      simp only [assignments] at assigned
      split at assigned
      · cases assigned
      · rename_i declared found
        split at assigned
        · cases assigned
          constructor
          · rintro ⟨⟩
            rename_i foundToo place
            cases found.symm.trans foundToo
            exact place
          · exact .predicate found
        · cases assigned

theorem typedBy_iff_gives {env : TypeEnv} :
    selector.TypedBy schema env ↔
      selector.IsDeclared schema ∧ ∀ variableName signatureName,
        selector.Gives schema variableName signatureName →
          env.find? variableName = some signatureName := by
  rw [typedBy_iff, isDeclared_iff]
  constructor
  · rintro ⟨pairs, assigned, given⟩
    refine ⟨⟨pairs, assigned⟩, fun variableName signatureName gives => ?_⟩
    exact given _ ((gives_iff assigned).mp gives)
  · rintro ⟨⟨pairs, assigned⟩, given⟩
    exact ⟨pairs, assigned, fun pair member => given _ _ ((gives_iff assigned).mpr member)⟩

theorem IsDeclared.mem_variableNames_iff (declared : selector.IsDeclared schema) :
    variableName ∈ selector.variableNames ↔
      ∃ signatureName, selector.Gives schema variableName signatureName := by
  obtain ⟨pairs, assigned⟩ := isDeclared_iff.mp declared
  simp only [← map_fst_assignments assigned, gives_iff assigned, List.mem_map, Prod.exists,
    exists_and_right, exists_eq_right]

end Selector

/-! ### Well-typed rules -/

inductive Template.IsUnsupported : Template → Prop where
  | grouping (operand : String) (group : Unit) : IsUnsupported (.grouping operand group)
  | contains (separation : Separation) (first second : String) :
      IsUnsupported (.binary .contains separation first second)
  | insideRingOf (separation : Separation) (first second : String) :
      IsUnsupported (.binary .insideRingOf separation first second)
  | outsideRingOf (separation : Separation) (first second : String) :
      IsUnsupported (.binary .outsideRingOf separation first second)

theorem Template.isStageable_iff {terminal : Template} :
    terminal.isStageable = true ↔ ¬terminal.IsUnsupported := by
  constructor
  · intro stageable unsupported
    cases unsupported <;> cases stageable
  · intro supported
    cases terminal with
    | unary | cyclic => rfl
    | grouping operand group => exact absurd (.grouping operand group) supported
    | binary option separation first second =>
        cases option with
        | contains => exact absurd (.contains separation first second) supported
        | insideRingOf => exact absurd (.insideRingOf separation first second) supported
        | outsideRingOf => exact absurd (.outsideRingOf separation first second) supported
        | _ => rfl

/-- What has to be true of a rule, in no order. -/
structure Rule.IsWellTyped (schema : Schema) (rule : Rule) : Prop where
  declared : ∀ selector ∈ rule.selectors, selector.IsDeclared schema
  agree : ∀ selector ∈ rule.selectors, ∀ other ∈ rule.selectors, ∀ variableName first second,
    selector.Gives schema variableName first → other.Gives schema variableName second →
      first = second
  supported : ¬rule.terminal.IsUnsupported
  bound : ∀ operand ∈ rule.terminal.operands,
    ∃ selector ∈ rule.selectors, operand ∈ selector.variableNames

/-- An environment of just the variables of some selectors, with the signatures given to them. -/
structure TypeEnv.Records (schema : Schema) (selectors : List Selector) (env : TypeEnv) : Prop where
  keys : ∀ variableName, variableName ∈ env.keys ↔
    ∃ selector ∈ selectors, variableName ∈ selector.variableNames
  signatures : ∀ variableName signatureName, env.find? variableName = some signatureName ↔
    ∃ selector ∈ selectors, selector.Gives schema variableName signatureName

namespace Rule

variable {schema : Schema} {rule other : Rule} {env : TypeEnv}

theorem check_eq_ok_iff_records :
    rule.check schema = .ok env ↔
      rule.IsWellTyped schema ∧ env.Records schema rule.selectors := by
  simp only [check_eq_ok_iff, Selector.typedBy_iff_gives, Template.isStageable_iff]
  constructor
  · rintro ⟨keys, typed, supported, operands⟩
    have given selector (member : selector ∈ rule.selectors) := (typed selector member).2
    have declared selector (member : selector ∈ rule.selectors) := (typed selector member).1
    refine ⟨⟨declared, ?_, supported, ?_⟩, keys, ?_⟩
    · intro selector member other otherMember variableName first second gives givesToo
      have found := given selector member variableName first gives
      rw [given other otherMember variableName second givesToo] at found
      exact (Option.some.inj found).symm
    · exact fun operand isOperand => (keys operand).mp (operands operand isOperand)
    · intro variableName signatureName
      refine ⟨fun found => ?_, fun ⟨selector, member, gives⟩ => given selector member _ _ gives⟩
      obtain ⟨selector, member, occurs⟩ :=
        (keys variableName).mp (SortedMap.mem_keys_iff.mpr ⟨_, found⟩)
      obtain ⟨signature, gives⟩ := (declared selector member).mem_variableNames_iff.mp occurs
      cases found.symm.trans (given selector member _ _ gives)
      exact ⟨selector, member, gives⟩
  · rintro ⟨wellTyped, records⟩
    refine ⟨records.keys, fun selector member => ⟨wellTyped.declared selector member, ?_⟩,
      wellTyped.supported, ?_⟩
    · exact fun variableName signatureName gives =>
        (records.signatures variableName signatureName).mpr ⟨selector, member, gives⟩
    · exact fun operand isOperand =>
        (records.keys operand).mpr (wellTyped.bound operand isOperand)

theorem IsWellTyped.exists_records (wellTyped : rule.IsWellTyped schema) :
    ∃ env : TypeEnv, env.Records schema rule.selectors := by
  have agreed (variableName : String) : ∃ signatureName, ∀ selector ∈ rule.selectors, ∀ given,
      selector.Gives schema variableName given → given = signatureName := by
    by_cases occurs : ∃ selector ∈ rule.selectors, ∃ given, selector.Gives schema variableName given
    · obtain ⟨other, otherMember, signatureName, givesToo⟩ := occurs
      exact ⟨signatureName, fun selector member given gives =>
        wellTyped.agree selector member other otherMember _ _ _ gives givesToo⟩
    · exact ⟨"", fun selector member given gives => absurd ⟨selector, member, given, gives⟩ occurs⟩
  choose signatureOf given using agreed
  refine ⟨Substitution.cutTo (variablesIn rule.selectors) signatureOf,
    fun _ => Substitution.mem_keys_cutTo.trans mem_variablesIn, fun variableName signatureName => ?_⟩
  rw [Substitution.find?_cutTo_eq_some, mem_variablesIn]
  constructor
  · rintro ⟨⟨selector, member, occurs⟩, rfl⟩
    obtain ⟨signature, gives⟩ := (wellTyped.declared selector member).mem_variableNames_iff.mp occurs
    exact ⟨selector, member, given variableName selector member signature gives ▸ gives⟩
  · rintro ⟨selector, member, gives⟩
    have declared := wellTyped.declared selector member
    exact ⟨⟨selector, member, declared.mem_variableNames_iff.mpr ⟨_, gives⟩⟩,
      given variableName selector member signatureName gives⟩

/-- Neither the order of the selectors nor their number matters. -/
theorem check_eq_ok_congr (terminal : other.terminal = rule.terminal)
    (same : ∀ selector, selector ∈ other.selectors ↔ selector ∈ rule.selectors) :
    other.check schema = .ok env ↔ rule.check schema = .ok env := by
  have wellTyped : other.IsWellTyped schema ↔ rule.IsWellTyped schema := by
    constructor
    · rintro ⟨declared, agree, supported, bound⟩
      simp only [terminal, same] at declared agree supported bound
      exact ⟨declared, agree, supported, bound⟩
    · rintro ⟨declared, agree, supported, bound⟩
      simp only [← terminal, ← same] at declared agree supported bound
      exact ⟨declared, agree, supported, bound⟩
  have records : env.Records schema other.selectors ↔ env.Records schema rule.selectors := by
    constructor
    · rintro ⟨keys, signatures⟩
      simp only [same] at keys signatures
      exact ⟨keys, signatures⟩
    · rintro ⟨keys, signatures⟩
      simp only [← same] at keys signatures
      exact ⟨keys, signatures⟩
  rw [check_eq_ok_iff_records, check_eq_ok_iff_records, wellTyped, records]

/-- A rule passes the check exactly when it is well-typed, and the environment is what its
selectors give to its variables. So rules with the same terminal and the same selectors, in
whatever order and number, pass or fail together and with the same environment. -/
theorem check_exact (schema : Schema) (rule : Rule) :
    ((∃ env, rule.check schema = .ok env) ↔ rule.IsWellTyped schema) ∧
      (∀ env, rule.check schema = .ok env ↔
        rule.IsWellTyped schema ∧ env.Records schema rule.selectors) ∧
      ∀ other : Rule, other.terminal = rule.terminal →
        (∀ selector, selector ∈ other.selectors ↔ selector ∈ rule.selectors) →
          ∀ env, other.check schema = .ok env ↔ rule.check schema = .ok env := by
  refine ⟨?_, fun _ => check_eq_ok_iff_records, fun _ terminal same _ =>
    check_eq_ok_congr terminal same⟩
  simp only [check_eq_ok_iff_records, exists_and_left]
  exact ⟨And.left, fun wellTyped => ⟨wellTyped, wellTyped.exists_records⟩⟩

end Rule

end RelationalLayout
