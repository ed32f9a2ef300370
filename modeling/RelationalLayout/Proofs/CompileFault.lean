/-
When compiling fails, and with which error.

Three searches decide it, each for the first item at fault: the first rule, in it the
first selector with a wrong number of arguments, and only if there is none, and the
chain holds for some atoms, the first operand that no selector binds.
-/

import RelationalLayout.Proofs.Compilation
import RelationalLayout.Proofs.FirstFault

namespace RelationalLayout

/-! ### Numbers of arguments -/

def Fact.Differs (name : String) (expected : Nat) (fact : Fact) (found : Nat) : Prop :=
  fact.predicate = name ∧ fact.arguments.length ≠ expected ∧ found = fact.arguments.length

namespace Selector

variable {schema : Schema} {world : Instance}

/-- A predicate selector has another number of arguments than the declaration of its predicate
or, if that agrees, than the first fact that it differs from. -/
inductive Mismatch (schema : Schema) (world : Instance) : Selector → ArityFault → Prop
  | declaration {name : String} {arguments : List String} {predicate : Predicate}
      (declared : schema.predicate? name = some predicate)
      (differs : predicate.arity ≠ arguments.length) :
      Mismatch schema world (.predicate name arguments)
        { predicate := name, expected := arguments.length, found := predicate.arity }
  | fact {name : String} {arguments : List String} {found : Nat}
      (agrees : ∀ predicate, schema.predicate? name = some predicate →
        predicate.arity = arguments.length)
      (first : FirstFault (Fact.Differs name arguments.length) world.facts found) :
      Mismatch schema world (.predicate name arguments)
        { predicate := name, expected := arguments.length, found := found }

def HasMismatch (schema : Schema) (world : Instance) : Selector → Prop
  | .signature _ _ => False
  | .predicate name arguments =>
      (∃ predicate, schema.predicate? name = some predicate ∧
          predicate.arity ≠ arguments.length) ∨
        ∃ fact ∈ world.facts, fact.predicate = name ∧ fact.arguments.length ≠ arguments.length

theorem exists_mismatch_iff {selector : Selector} :
    (∃ fault, selector.Mismatch schema world fault) ↔ selector.HasMismatch schema world := by
  cases selector with
  | signature variableName signatureName =>
      constructor
      · rintro ⟨fault, impossible⟩
        cases impossible
      · exact False.elim
  | predicate name arguments =>
      constructor
      · rintro ⟨fault, mismatch⟩
        cases mismatch with
        | declaration declared differs => exact Or.inl ⟨_, declared, differs⟩
        | fact agrees first =>
            obtain ⟨fact, listed, found, named, differs, _⟩ := FirstFault.exists_iff.mp ⟨_, first⟩
            exact Or.inr ⟨fact, listed, named, differs⟩
      · intro mismatch
        by_cases declaration : ∃ predicate, schema.predicate? name = some predicate ∧
          predicate.arity ≠ arguments.length
        · obtain ⟨predicate, declared, differs⟩ := declaration
          exact ⟨_, .declaration declared differs⟩
        · obtain ⟨fact, listed, named, differs⟩ := mismatch.resolve_left declaration
          have isDifferent : fact.Differs name arguments.length fact.arguments.length :=
            ⟨named, differs, rfl⟩
          obtain ⟨found, first⟩ := FirstFault.exists_iff.mpr ⟨fact, listed, _, isDifferent⟩
          refine ⟨_, .fact ?_ first⟩
          intro predicate declared
          by_contra differs
          exact declaration ⟨predicate, declared, differs⟩

theorem not_firstFault_of_valid (valid : world.Valid schema) {name : String} {expected found : Nat}
    (agrees : ∀ predicate, schema.predicate? name = some predicate → predicate.arity = expected) :
    ¬FirstFault (Fact.Differs name expected) world.facts found := by
  intro first
  obtain ⟨fact, listed, _, named, differs, _⟩ := FirstFault.exists_iff.mp ⟨_, first⟩
  obtain ⟨predicate, declared, arity, _⟩ := valid.factsTyped fact listed
  rw [named] at declared
  exact differs (arity.symm.trans (agrees predicate declared))

/-- So what is wrong with a selector does not depend on the instance, as long as it is valid. -/
theorem Mismatch.over_of_valid (valid : world.Valid schema) {selector : Selector} {fault : ArityFault}
    (mismatch : selector.Mismatch schema world fault) (other : Instance) :
    selector.Mismatch schema other fault := by
  cases mismatch with
  | declaration declared differs => exact .declaration declared differs
  | fact agrees first => exact absurd first (not_firstFault_of_valid valid agrees)

theorem find?_length_eq_some_iff {facts : List Fact} {name : String} {expected found : Nat} :
    (((facts.filter (fun fact => fact.predicate == name)).map Fact.arguments).map
        List.length).find? (fun count => count ≠ expected) = some found ↔
      FirstFault (Fact.Differs name expected) facts found := by
  induction facts with
  | nil =>
      apply iff_of_false ?_ FirstFault.not_nil
      intro impossible
      cases impossible
  | cons fact facts ih =>
      rw [FirstFault.cons_iff, ← ih, List.filter_cons]
      by_cases named : fact.predicate = name
      · by_cases agrees : fact.arguments.length = expected
        · have fits (other : Nat) : ¬fact.Differs name expected other := fun given => given.2.1 agrees
          rw [if_pos (beq_iff_eq.mpr named), List.map_cons, List.map_cons,
            List.find?_cons_of_neg (by simpa using agrees)]
          simp only [fits, false_or, not_false_eq_true, implies_true, true_and]
        · have differs : fact.Differs name expected fact.arguments.length := ⟨named, agrees, rfl⟩
          rw [if_pos (beq_iff_eq.mpr named), List.map_cons, List.map_cons,
            List.find?_cons_of_pos (by simpa using agrees), Option.some.injEq]
          constructor
          · rintro rfl
            exact Or.inl differs
          · rintro (⟨_, _, same⟩ | ⟨impossible, _⟩)
            · exact same.symm
            · exact absurd differs (impossible _)
      · have fits (other : Nat) : ¬fact.Differs name expected other := fun given => named given.1
        rw [if_neg (mt beq_iff_eq.mp named)]
        simp only [fits, false_or, not_false_eq_true, implies_true, true_and]

theorem candidates_predicate_eq_error_iff {name : String} {arguments : List String}
    {fault : ArityFault} :
    (predicate name arguments).candidates schema world = .error fault ↔
      ∃ found, (((schema.predicate? name).map Predicate.arity).toList ++
          (world.tuplesOf name).map List.length).find? (fun count => count ≠ arguments.length) =
            some found ∧
        fault = { predicate := name, expected := arguments.length, found := found } := by
  unfold candidates
  dsimp only
  split
  · rename_i found first
    simp only [first, Option.some.injEq, exists_eq_left', Except.error.injEq, eq_comm]
  · rename_i none
    simp only [none, reduceCtorEq, false_and, exists_false]

theorem mismatch_iff_of_agrees {name : String} {arguments : List String} {fault : ArityFault}
    (agrees : ∀ predicate, schema.predicate? name = some predicate →
      predicate.arity = arguments.length) :
    (predicate name arguments).Mismatch schema world fault ↔
      ∃ found, ((world.tuplesOf name).map List.length).find?
          (fun count => count ≠ arguments.length) = some found ∧
        fault = { predicate := name, expected := arguments.length, found := found } := by
  constructor
  · intro mismatch
    cases mismatch with
    | declaration declared differs => exact absurd (agrees _ declared) differs
    | fact _ first => exact ⟨_, find?_length_eq_some_iff.mpr first, rfl⟩
  · rintro ⟨found, first, rfl⟩
    exact .fact agrees (find?_length_eq_some_iff.mp first)

theorem candidates_eq_error_iff {selector : Selector} {fault : ArityFault} :
    selector.candidates schema world = .error fault ↔ selector.Mismatch schema world fault := by
  cases selector with
  | signature variableName signatureName =>
      constructor
      · intro impossible
        cases impossible
      · intro impossible
        cases impossible
  | predicate name arguments =>
      rw [candidates_predicate_eq_error_iff]
      cases declared : schema.predicate? name with
      | none =>
          symm
          apply mismatch_iff_of_agrees
          intro other impossible
          cases declared.symm.trans impossible
      | some known =>
          rw [Option.map_some, Option.toList_some, List.singleton_append]
          by_cases agrees : known.arity = arguments.length
          · rw [List.find?_cons_of_neg (by simpa using agrees)]
            symm
            apply mismatch_iff_of_agrees
            intro other same
            cases declared.symm.trans same
            exact agrees
          · rw [List.find?_cons_of_pos (by simpa using agrees)]
            constructor
            · rintro ⟨found, first, rfl⟩
              cases first
              exact .declaration declared agrees
            · intro mismatch
              cases mismatch with
              | declaration present differs =>
                  cases declared.symm.trans present
                  exact ⟨_, rfl, rfl⟩
              | fact agree => exact absurd (agree known declared) agrees

end Selector

/-! ### Chains -/

section Chains

variable {schema : Schema} {world : Instance} {selectors : List Selector}

theorem Query.ofSelectors_eq_error_iff {query : Query} {fault : ArityFault} :
    ofSelectors schema world query selectors = .error fault ↔
      FirstFault (Selector.Mismatch schema world) selectors fault := by
  induction selectors generalizing query with
  | nil =>
      apply iff_of_false ?_ FirstFault.not_nil
      intro impossible
      cases impossible
  | cons selector selectors ih =>
      rw [ofSelectors, Selector.addTo, FirstFault.cons_iff]
      cases found : selector.candidates schema world with
      | error other =>
          have mismatch := Selector.candidates_eq_error_iff.mp found
          constructor
          · intro same
            cases same
            exact Or.inl mismatch
          · rintro (same | ⟨impossible, _⟩)
            · cases found.symm.trans (Selector.candidates_eq_error_iff.mpr same)
              rfl
            · exact absurd mismatch (impossible other)
      | ok tuples =>
          have fits (other : ArityFault) : ¬selector.Mismatch schema world other := by
            rw [← Selector.candidates_eq_error_iff, found]
            intro impossible
            cases impossible
          simp only [ih, fits, false_or, not_false_eq_true, implies_true, true_and]

theorem substitutionsOf_eq_error_iff {fault : ArityFault} :
    substitutionsOf schema world selectors = .error fault ↔
      FirstFault (Selector.Mismatch schema world) selectors fault := by
  rw [← Query.ofSelectors_eq_error_iff, substitutionsOf]
  cases Query.ofSelectors schema world [] selectors with
  | error other => simp only [Except.map, Except.error.injEq]
  | ok query =>
      constructor
      · intro impossible
        cases impossible
      · intro impossible
        cases impossible

theorem exists_substitutionsOf_iff :
    (∃ substitutions, substitutionsOf schema world selectors = .ok substitutions) ↔
      ∀ selector ∈ selectors, ¬selector.HasMismatch schema world := by
  simp only [exists_eq_ok_iff, ← not_exists, substitutionsOf_eq_error_iff, FirstFault.exists_iff,
    Selector.exists_mismatch_iff]
  simp only [not_exists, not_and]

theorem substitutionsOf_ne_nil_iff {substitutions : List Substitution}
    (found : substitutionsOf schema world selectors = .ok substitutions) :
    substitutions ≠ [] ↔ ∃ atomOf, HoldUnder world selectors atomOf := by
  constructor
  · intro some
    obtain ⟨substitution, member⟩ := List.exists_mem_of_ne_nil _ some
    obtain ⟨atomOf, hold, _⟩ := (mem_substitutionsOf_iff_cutTo found).mp member
    exact ⟨atomOf, hold⟩
  · rintro ⟨atomOf, hold⟩ none
    have member := (mem_substitutionsOf_iff_cutTo found).mpr ⟨atomOf, hold, rfl⟩
    rw [none] at member
    cases member

end Chains

/-! ### Terminals -/

namespace Template

variable {terminal : Template} {substitution : Substitution} {id : String} {error : CompileError}

def Unbound (terminal : Template) (names : List String) (operand : String) (error : CompileError) :
    Prop :=
  operand ∉ names ∧ error = .unboundVariable operand terminal

theorem resolve_eq_error_iff {operand : String} :
    terminal.resolve substitution operand = .error error ↔
      terminal.Unbound substitution.keys operand error := by
  unfold resolve Unbound
  rw [SortedMap.mem_keys_iff]
  cases substitution.find? operand with
  | none => simp [eq_comm]
  | some atom => simp

theorem bound_iff {names : List String} {operand : String} :
    (∀ error, ¬terminal.Unbound names operand error) ↔ operand ∈ names := by
  constructor
  · intro bound
    by_contra unbound
    exact bound _ ⟨unbound, rfl⟩
  · intro member error unbound
    exact unbound.1 member

theorem exists_resolve_iff {operand : String} :
    (∃ atom, terminal.resolve substitution operand = .ok atom) ↔ operand ∈ substitution.keys := by
  simp only [resolve_eq_ok_iff, SortedMap.mem_keys_iff]

/-- Of two operands that no selector binds the first one is reported. -/
theorem instantiate_eq_error_iff :
    terminal.instantiate substitution id = .error error ↔
      FirstFault (terminal.Unbound substitution.keys) terminal.operands error := by
  cases terminal with
  | unary option separation operand =>
      simp only [instantiate, Layout.operands, bind_eq_error_iff, reduceCtorEq, and_false,
        exists_false, or_false, resolve_eq_error_iff, FirstFault.singleton_iff]
  | grouping operand group =>
      simp only [instantiate, Layout.operands, bind_eq_error_iff, reduceCtorEq, and_false,
        exists_false, or_false, resolve_eq_error_iff, FirstFault.singleton_iff]
  | binary option separation first second =>
      simp only [instantiate, Layout.operands, bind_eq_error_iff, reduceCtorEq, and_false,
        exists_false, or_false, exists_and_right, exists_resolve_iff, resolve_eq_error_iff,
        FirstFault.cons_iff, FirstFault.not_nil, bound_iff]
  | cyclic option first second cycle =>
      simp only [instantiate, Layout.operands, bind_eq_error_iff, reduceCtorEq, and_false,
        exists_false, or_false, exists_and_right, exists_resolve_iff, resolve_eq_error_iff,
        FirstFault.cons_iff, FirstFault.not_nil, bound_iff]

/-- All substitutions of a chain bind the same variables, so the first of them already fails. -/
theorem instantiateAll_eq_error_iff {names : List String} {substitutions : List Substitution}
    (keys : ∀ substitution ∈ substitutions, ∀ name, name ∈ substitution.keys ↔ name ∈ names) :
    terminal.instantiateAll id substitutions = .error error ↔
      substitutions ≠ [] ∧ FirstFault (terminal.Unbound names) terminal.operands error := by
  induction substitutions with
  | nil =>
      apply iff_of_false
      · intro impossible
        cases impossible
      · rintro ⟨some, _⟩
        exact some rfl
  | cons substitution rest ih =>
      obtain ⟨here, later⟩ := List.forall_mem_cons.mp keys
      have sameUnbound : terminal.Unbound substitution.keys = terminal.Unbound names := by
        funext operand other
        rw [Unbound, Unbound, here]
      rw [instantiateAll, bind_eq_error_iff, instantiate_eq_error_iff, sameUnbound]
      constructor
      · rintro (fails | ⟨layout, _, fails⟩)
        · exact ⟨List.cons_ne_nil _ _, fails⟩
        · rcases bind_eq_error_iff.mp fails with restFails | ⟨_, _, impossible⟩
          · exact ⟨List.cons_ne_nil _ _, ((ih later).mp restFails).2⟩
          · cases impossible
      · rintro ⟨_, fails⟩
        exact Or.inl fails

end Template

/-! ### Rules -/

namespace Rule

variable {schema : Schema} {world : Instance} {rule : Rule} {number : Nat} {error : CompileError}

/-- What is wrong with a rule: the first selector with a wrong number of arguments, or else,
if the chain holds for some atoms, the first operand that no selector binds. -/
inductive Fails (schema : Schema) (world : Instance) (rule : Rule) : CompileError → Prop
  | arity {fault : ArityFault}
      (first : FirstFault (Selector.Mismatch schema world) rule.selectors fault) :
      Fails schema world rule (.arityMismatch fault)
  | unbound {error : CompileError}
      (fit : ∀ selector ∈ rule.selectors, ¬selector.HasMismatch schema world)
      (holds : ∃ atomOf, HoldUnder world rule.selectors atomOf)
      (first : FirstFault (Template.Unbound rule.terminal (variablesIn rule.selectors))
        rule.terminal.operands error) :
      Fails schema world rule error

/-- A selector has a wrong number of arguments, or the chain holds for some atoms and an operand
of the terminal occurs in no selector. -/
def IsBad (schema : Schema) (world : Instance) (rule : Rule) : Prop :=
  (∃ selector ∈ rule.selectors, selector.HasMismatch schema world) ∨
    (∃ atomOf, HoldUnder world rule.selectors atomOf) ∧
      ∃ operand ∈ rule.terminal.operands, operand ∉ variablesIn rule.selectors

theorem compile_eq_error_iff :
    rule.compile schema world number = .error error ↔ rule.Fails schema world error := by
  unfold compile
  cases found : substitutionsOf schema world rule.selectors with
  | error fault =>
      have first := substitutionsOf_eq_error_iff.mp found
      constructor
      · intro same
        cases same
        exact .arity first
      · intro fails
        cases fails with
        | arity other =>
            cases found.symm.trans (substitutionsOf_eq_error_iff.mpr other)
            rfl
        | unbound fit =>
            obtain ⟨substitutions, impossible⟩ := exists_substitutionsOf_iff.mpr fit
            cases found.symm.trans impossible
  | ok substitutions =>
      have keys : ∀ substitution ∈ substitutions, ∀ name,
          name ∈ substitution.keys ↔ name ∈ variablesIn rule.selectors := by
        intro substitution member name
        rw [((mem_substitutionsOf_iff found).mp member).1, mem_variablesIn]
      change Template.instantiateAll rule.terminal (Nat.repr number) substitutions = .error error ↔ _
      rw [Template.instantiateAll_eq_error_iff keys, substitutionsOf_ne_nil_iff found]
      constructor
      · rintro ⟨holds, first⟩
        exact .unbound (exists_substitutionsOf_iff.mp ⟨_, found⟩) holds first
      · intro fails
        cases fails with
        | arity first => cases found.symm.trans (substitutionsOf_eq_error_iff.mpr first)
        | unbound _ holds first => exact ⟨holds, first⟩

theorem exists_fails_iff : (∃ error, rule.Fails schema world error) ↔ rule.IsBad schema world := by
  constructor
  · rintro ⟨error, fails⟩
    cases fails with
    | arity first =>
        obtain ⟨selector, member, mismatch⟩ := FirstFault.exists_iff.mp ⟨_, first⟩
        exact Or.inl ⟨selector, member, Selector.exists_mismatch_iff.mp mismatch⟩
    | unbound _ holds first =>
        obtain ⟨operand, member, _, unbound, _⟩ := FirstFault.exists_iff.mp ⟨_, first⟩
        exact Or.inr ⟨holds, operand, member, unbound⟩
  · intro bad
    by_cases mismatch : ∃ selector ∈ rule.selectors, selector.HasMismatch schema world
    · obtain ⟨selector, member, differs⟩ := mismatch
      have fault := Selector.exists_mismatch_iff.mpr differs
      obtain ⟨first, isFirst⟩ := FirstFault.exists_iff.mpr ⟨selector, member, fault⟩
      exact ⟨_, .arity isFirst⟩
    · obtain ⟨holds, operand, member, unbound⟩ := bad.resolve_left mismatch
      have isUnbound : Template.Unbound rule.terminal (variablesIn rule.selectors) operand _ :=
        ⟨unbound, rfl⟩
      obtain ⟨first, isFirst⟩ := FirstFault.exists_iff.mpr ⟨operand, member, _, isUnbound⟩
      refine ⟨first, .unbound ?_ holds isFirst⟩
      intro selector inChain differs
      exact mismatch ⟨selector, inChain, differs⟩

theorem compile_eq_ok_nil_iff :
    rule.compile schema world number = .ok [] ↔
      (∀ selector ∈ rule.selectors, ¬selector.HasMismatch schema world) ∧
        ¬∃ atomOf, HoldUnder world rule.selectors atomOf := by
  rw [compile_eq_ok_iff, ← exists_substitutionsOf_iff]
  constructor
  · rintro ⟨substitutions, found, instantiated⟩
    refine ⟨⟨substitutions, found⟩, ?_⟩
    rw [← substitutionsOf_ne_nil_iff found, not_not]
    exact List.forall₂_nil_right_iff.mp (Template.instantiateAll_eq_ok_iff.mp instantiated)
  · rintro ⟨⟨substitutions, found⟩, unsatisfied⟩
    rw [← substitutionsOf_ne_nil_iff found, not_not] at unsatisfied
    subst unsatisfied
    exact ⟨[], found, rfl⟩

end Rule

/-! ### Programs -/

namespace Program

variable {schema : Schema} {world : Instance}

theorem compileFrom_eq_error_iff {program : Program} {number : Nat} {error : CompileError} :
    compileFrom schema world number program = .error error ↔
      FirstFault (Rule.Fails schema world) program error := by
  induction program generalizing number with
  | nil =>
      apply iff_of_false ?_ FirstFault.not_nil
      intro impossible
      cases impossible
  | cons rule rest ih =>
      rw [compileFrom, FirstFault.cons_iff, bind_eq_error_iff, Rule.compile_eq_error_iff]
      simp only [bind_eq_error_iff, ih, reduceCtorEq, and_false, exists_false, or_false,
        exists_and_right, exists_eq_ok_iff, Rule.compile_eq_error_iff]

end Program

/-- Compiling a program fails exactly when one of its rules is bad, with the error of the first
bad rule; and a rule whose chain holds for no atoms compiles to nothing. -/
theorem Program.compile_error_exact (schema : Schema) (world : Instance) (program : Program) :
    ((∃ error, program.compile schema world = .error error) ↔
        ∃ rule ∈ program, rule.IsBad schema world) ∧
      (∀ error, program.compile schema world = .error error ↔
        FirstFault (Rule.Fails schema world) program error) ∧
      ∀ (rule : Rule) (number : Nat), rule.compile schema world number = .ok [] ↔
        (∀ selector ∈ rule.selectors, ¬selector.HasMismatch schema world) ∧
          ¬∃ atomOf, HoldUnder world rule.selectors atomOf := by
  have fails (error : CompileError) : program.compile schema world = .error error ↔
      FirstFault (Rule.Fails schema world) program error := compileFrom_eq_error_iff
  refine ⟨?_, fails, fun rule number => Rule.compile_eq_ok_nil_iff⟩
  simp only [fails, FirstFault.exists_iff, Rule.exists_fails_iff]

end RelationalLayout
