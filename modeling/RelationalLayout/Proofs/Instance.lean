/-
Validation finds exactly the valid instances, and the first fault of any other.

Whether an atom is at fault depends on the atoms before it, and whether a fact is depends on
all atoms. Facts are looked at only where no atom is at fault.
-/

import RelationalLayout.Instance
import RelationalLayout.Proofs.FirstFault

namespace RelationalLayout.Instance

variable {schema : Schema} {world : Instance}

theorem eq_of_validateAtoms {declared names : List String} {atoms : List Atom}
    (checked : validateAtoms schema declared atoms = .ok names) :
    names = (atoms.map Atom.name).reverse ++ declared := by
  induction atoms generalizing declared with
  | nil =>
      cases checked
      rfl
  | cons atom atoms ih =>
      rw [validateAtoms] at checked
      split at checked
      · cases checked
      · split at checked
        · rw [ih checked, List.map_cons, List.reverse_cons, List.append_assoc,
            List.singleton_append]
        · cases checked

theorem mem_iff_of_validateAtoms {names : List String}
    (checked : validateAtoms schema [] world.atoms = .ok names) (name : String) :
    name ∈ names ↔ name ∈ world.atomNames := by
  rw [eq_of_validateAtoms checked, List.append_nil, List.mem_reverse, atomNames]

theorem exists_validateAtoms_iff {declared : List String} {atoms : List Atom} :
    (∃ names, validateAtoms schema declared atoms = .ok names) ↔
      (atoms.map Atom.name).Nodup ∧
        ∀ atom ∈ atoms, atom.name ∉ declared ∧ atom.signature ∈ schema.signatures := by
  induction atoms generalizing declared with
  | nil => simp only [validateAtoms, Except.ok.injEq, exists_eq', List.map_nil, List.nodup_nil,
      List.not_mem_nil, false_implies, implies_true, and_self]
  | cons atom atoms ih =>
      rw [validateAtoms]
      by_cases repeated : declared.contains atom.name = true
      · rw [if_pos repeated]
        refine iff_of_false (fun ⟨_, impossible⟩ => by cases impossible) ?_
        intro given
        obtain ⟨_, all⟩ := given
        exact (all atom List.mem_cons_self).1 (List.contains_iff_mem.mp repeated)
      · rw [if_neg repeated]
        have fresh : atom.name ∉ declared := fun member =>
          repeated (List.contains_iff_mem.mpr member)
        by_cases known : schema.hasSignature atom.signature = true
        · rw [if_pos known, ih, List.map_cons, List.nodup_cons, List.forall_mem_cons]
          have typed : atom.signature ∈ schema.signatures := List.contains_iff_mem.mp known
          constructor
          · intro given
            obtain ⟨distinct, all⟩ := given
            refine ⟨⟨?_, distinct⟩, ⟨fresh, typed⟩, ?_⟩
            · intro later
              obtain ⟨other, member, same⟩ := List.mem_map.mp later
              refine (all other member).1 ?_
              rw [same]
              exact List.mem_cons_self
            · intro other member
              exact ⟨fun inDeclared => (all other member).1 (List.mem_cons_of_mem _ inDeclared),
                (all other member).2⟩
          · intro given
            obtain ⟨⟨notLater, distinct⟩, _, all⟩ := given
            refine ⟨distinct, fun other member => ⟨?_, (all other member).2⟩⟩
            intro inDeclared
            rcases List.mem_cons.mp inDeclared with same | earlier
            · exact notLater (List.mem_map.mpr ⟨other, member, same⟩)
            · exact (all other member).1 earlier
        · rw [if_neg known]
          refine iff_of_false (fun ⟨_, impossible⟩ => by cases impossible) ?_
          intro given
          obtain ⟨_, all⟩ := given
          exact known (List.contains_iff_mem.mpr (all atom List.mem_cons_self).2)

section Facts

variable {declared : List String} (known : ∀ name, name ∈ declared ↔ name ∈ world.atomNames)

include known

theorem validateFact_eq_ok_iff {fact : Fact} :
    validateFact schema declared fact = .ok () ↔
      ∃ predicate, schema.predicate? fact.predicate = some predicate ∧
        predicate.arity = fact.arguments.length ∧
        ∀ argument ∈ fact.arguments, argument ∈ world.atomNames := by
  rw [validateFact]
  cases schema.predicate? fact.predicate with
  | none => simp only [reduceCtorEq, false_and, exists_false]
  | some predicate =>
      simp only [Option.some.injEq, exists_eq_left', ← known]
      by_cases arity : predicate.arity = fact.arguments.length
      · rw [if_neg (not_not_intro arity)]
        cases missing : fact.arguments.find? (fun argument => !declared.contains argument) with
        | none =>
            rw [List.find?_eq_none] at missing
            simp only [Bool.not_eq_true', Bool.not_eq_false, List.contains_iff_mem] at missing
            exact iff_of_true rfl ⟨arity, missing⟩
        | some argument =>
            have member := List.mem_of_find?_eq_some missing
            have absent := List.find?_some missing
            simp only [Bool.not_eq_true', ← Bool.not_eq_true, List.contains_iff_mem] at absent
            refine iff_of_false (fun impossible => by cases impossible) ?_
            intro given
            obtain ⟨_, all⟩ := given
            exact absent (all argument member)
      · rw [if_pos arity]
        refine iff_of_false (fun impossible => by cases impossible) ?_
        intro given
        obtain ⟨same, _⟩ := given
        exact arity same

omit known in
theorem validateFacts_eq_ok_iff {facts : List Fact} :
    validateFacts schema declared facts = .ok () ↔
      ∀ fact ∈ facts, validateFact schema declared fact = .ok () := by
  induction facts with
  | nil => simp only [validateFacts, List.not_mem_nil, false_implies, implies_true]
  | cons fact facts ih =>
      rw [validateFacts, List.forall_mem_cons, ← ih]
      cases validateFact schema declared fact with
      | error fault => simp only [reduceCtorEq, false_and]
      | ok _ => simp only [true_and]

end Facts

theorem validate_eq_ok_iff : validate schema world = .ok () ↔ Valid schema world := by
  have atoms : (∃ names, validateAtoms schema [] world.atoms = .ok names) ↔ _ :=
    exists_validateAtoms_iff
  simp only [List.not_mem_nil, not_false_eq_true, true_and] at atoms
  rw [validate]
  cases checked : validateAtoms schema [] world.atoms with
  | error fault =>
      refine iff_of_false (fun impossible => by cases impossible) ?_
      intro valid
      obtain ⟨_, accepted⟩ := atoms.mpr ⟨valid.atomsDistinct, valid.atomsTyped⟩
      cases checked.symm.trans accepted
  | ok names =>
      obtain ⟨distinct, typed⟩ := atoms.mp ⟨names, checked⟩
      simp only [validateFacts_eq_ok_iff,
        validateFact_eq_ok_iff (mem_iff_of_validateAtoms checked)]
      constructor
      · exact fun facts => ⟨distinct, typed, facts⟩
      · exact fun valid => valid.factsTyped

/-! ### The first fault -/

variable {fault : ValidationError}

/-- An atom has the name of an earlier one or else, with a name of its own, a signature that is
not declared. -/
inductive AtomFault (schema : Schema) (before : List Atom) (atom : Atom) : ValidationError → Prop
  | duplicate (repeated : atom.name ∈ before.map Atom.name) :
      AtomFault schema before atom (.duplicateAtom atom.name)
  | signature (fresh : atom.name ∉ before.map Atom.name)
      (undeclared : atom.signature ∉ schema.signatures) :
      AtomFault schema before atom (.unknownSignature atom.name atom.signature)

def IsMissing (world : Instance) (argument missing : String) : Prop :=
  argument ∉ world.atomNames ∧ missing = argument

/-- The predicate of a fact is not declared, or else is declared with another number of arguments,
or else the first argument that is no atom is at fault. -/
inductive FactFault (schema : Schema) (world : Instance) (fact : Fact) : ValidationError → Prop
  | predicate (undeclared : ∀ predicate ∈ schema.predicates, predicate.name ≠ fact.predicate) :
      FactFault schema world fact (.unknownPredicate fact.predicate)
  | arity {predicate : Predicate} (counts : schema.predicate? fact.predicate = some predicate)
      (differs : predicate.arity ≠ fact.arguments.length) :
      FactFault schema world fact
        (.arityMismatch fact.predicate predicate.arity fact.arguments.length)
  | argument {predicate : Predicate} {missing : String}
      (counts : schema.predicate? fact.predicate = some predicate)
      (agrees : predicate.arity = fact.arguments.length)
      (first : FirstFault (IsMissing world) fact.arguments missing) :
      FactFault schema world fact (.unknownAtom fact.predicate missing)

/-- The names that are known on the way are those of the atoms before. -/
theorem validateAtoms_eq_error_iff {declared : List String} {before atoms : List Atom}
    (known : ∀ name, name ∈ declared ↔ name ∈ before.map Atom.name) :
    validateAtoms schema declared atoms = .error fault ↔
      FirstFaultAfter (fun between => AtomFault schema (before ++ between)) atoms fault := by
  induction atoms generalizing declared before with
  | nil =>
      apply iff_of_false ?_ FirstFaultAfter.not_nil
      intro impossible
      cases impossible
  | cons atom atoms ih =>
      rw [validateAtoms, FirstFaultAfter.cons_iff, List.append_nil]
      by_cases repeated : atom.name ∈ declared
      · have isRepeated := (known atom.name).mp repeated
        rw [if_pos (List.contains_iff_mem.mpr repeated)]
        constructor
        · intro same
          cases same
          exact Or.inl (.duplicate isRepeated)
        · rintro (fails | ⟨fits, _⟩)
          · cases fails with
            | duplicate => rfl
            | signature fresh => exact absurd isRepeated fresh
          · exact absurd (.duplicate isRepeated) (fits _)
      · have fresh : atom.name ∉ before.map Atom.name := mt (known atom.name).mpr repeated
        rw [if_neg (mt List.contains_iff_mem.mp repeated)]
        by_cases isDeclared : atom.signature ∈ schema.signatures
        · have fits (error : ValidationError) : ¬AtomFault schema before atom error := by
            intro fails
            cases fails with
            | duplicate isRepeated => exact fresh isRepeated
            | signature _ undeclared => exact undeclared isDeclared
          have knownNext (name : String) :
              name ∈ atom.name :: declared ↔ name ∈ (before ++ [atom]).map Atom.name := by
            rw [List.mem_cons, List.map_append, List.mem_append, known, or_comm,
              List.map_singleton, List.mem_singleton]
          rw [Schema.hasSignature, if_pos (List.contains_iff_mem.mpr isDeclared), ih knownNext]
          simp only [fits, false_or, not_false_eq_true, implies_true, true_and, List.append_assoc,
            List.singleton_append]
        · have fails : AtomFault schema before atom
              (.unknownSignature atom.name atom.signature) := .signature fresh isDeclared
          rw [Schema.hasSignature, if_neg (mt List.contains_iff_mem.mp isDeclared)]
          constructor
          · intro same
            cases same
            exact Or.inl fails
          · rintro (other | ⟨fits, _⟩)
            · cases other with
              | duplicate isRepeated => exact absurd isRepeated fresh
              | signature => rfl
            · exact absurd fails (fits _)

section Facts

variable {declared : List String} (known : ∀ name, name ∈ declared ↔ name ∈ world.atomNames)

include known

theorem find?_missing_eq_some_iff {arguments : List String} {missing : String} :
    arguments.find? (fun argument => !declared.contains argument) = some missing ↔
      FirstFault (IsMissing world) arguments missing := by
  induction arguments with
  | nil =>
      apply iff_of_false ?_ FirstFault.not_nil
      intro impossible
      cases impossible
  | cons argument arguments ih =>
      rw [FirstFault.cons_iff, ← ih]
      by_cases isAtom : argument ∈ world.atomNames
      · have fits (other : String) : ¬IsMissing world argument other := fun given => given.1 isAtom
        rw [List.find?_cons_of_neg (by simpa [known] using isAtom)]
        simp only [fits, false_or, not_false_eq_true, implies_true, true_and]
      · have isMissing : IsMissing world argument argument := ⟨isAtom, rfl⟩
        rw [List.find?_cons_of_pos (by simpa [known] using isAtom), Option.some.injEq]
        constructor
        · rintro rfl
          exact Or.inl isMissing
        · rintro (⟨_, same⟩ | ⟨impossible, _⟩)
          · exact same.symm
          · exact absurd isMissing (impossible argument)

theorem validateFact_eq_error_iff {fact : Fact} :
    validateFact schema declared fact = .error fault ↔ FactFault schema world fact fault := by
  rw [validateFact]
  cases counts : schema.predicate? fact.predicate with
  | none =>
      have undeclared : ∀ predicate ∈ schema.predicates, predicate.name ≠ fact.predicate := by
        intro predicate member same
        exact List.find?_eq_none.mp counts predicate member (beq_iff_eq.mpr same)
      constructor
      · intro same
        cases same
        exact .predicate undeclared
      · intro fails
        cases fails with
        | predicate => rfl
        | arity other | argument other => cases counts.symm.trans other
  | some predicate =>
      obtain ⟨isDeclared, named⟩ := Schema.mem_of_predicate? counts
      by_cases agrees : predicate.arity = fact.arguments.length
      · simp only [if_neg (not_not_intro agrees)]
        cases found : fact.arguments.find? (fun argument => !declared.contains argument) with
        | none =>
            refine iff_of_false (fun impossible => by cases impossible) ?_
            intro fails
            cases fails with
            | predicate undeclared => exact undeclared predicate isDeclared named
            | arity counted differs =>
                cases counts.symm.trans counted
                exact differs agrees
            | argument _ _ first => cases found.symm.trans ((find?_missing_eq_some_iff known).mpr first)
        | some missing =>
            constructor
            · intro same
              cases same
              exact .argument counts agrees ((find?_missing_eq_some_iff known).mp found)
            · intro fails
              cases fails with
              | predicate undeclared => exact absurd named (undeclared predicate isDeclared)
              | arity counted differs =>
                  cases counts.symm.trans counted
                  exact absurd agrees differs
              | argument _ _ first =>
                  cases found.symm.trans ((find?_missing_eq_some_iff known).mpr first)
                  rfl
      · simp only [if_pos agrees]
        constructor
        · intro same
          cases same
          exact .arity counts agrees
        · intro fails
          cases fails with
          | predicate undeclared => exact absurd named (undeclared predicate isDeclared)
          | arity counted =>
              cases counts.symm.trans counted
              rfl
          | argument counted agree =>
              cases counts.symm.trans counted
              exact absurd agree agrees

theorem validateFacts_eq_error_iff {facts : List Fact} :
    validateFacts schema declared facts = .error fault ↔
      FirstFault (FactFault schema world) facts fault := by
  induction facts with
  | nil =>
      apply iff_of_false ?_ FirstFault.not_nil
      intro impossible
      cases impossible
  | cons fact facts ih =>
      rw [validateFacts, FirstFault.cons_iff, ← ih]
      simp only [← validateFact_eq_error_iff known]
      cases validateFact schema declared fact with
      | error other =>
          constructor
          · exact Or.inl
          · rintro (same | ⟨impossible, _⟩)
            · exact same
            · exact absurd rfl (impossible other)
      | ok _ => simp only [reduceCtorEq, false_or, not_false_eq_true, implies_true, true_and]

end Facts

/-- Validation accepts exactly the valid instances. Any other instance is refused for its first
atom at fault, where a repeated name counts before an undeclared signature, and if no atom is at
fault for its first fact at fault. -/
theorem validate_exact (schema : Schema) (world : Instance) :
    (validate schema world = .ok () ↔
      world.atomNames.Nodup ∧
        (∀ atom ∈ world.atoms, atom.signature ∈ schema.signatures) ∧
        ∀ fact ∈ world.facts, ∃ predicate,
          schema.predicate? fact.predicate = some predicate ∧
          predicate.arity = fact.arguments.length ∧
          ∀ argument ∈ fact.arguments, argument ∈ world.atomNames) ∧
    ∀ fault, validate schema world = .error fault ↔
      FirstFaultAfter (AtomFault schema) world.atoms fault ∨
        (∀ other, ¬FirstFaultAfter (AtomFault schema) world.atoms other) ∧
          FirstFault (FactFault schema world) world.facts fault := by
  constructor
  · rw [validate_eq_ok_iff]
    constructor
    · exact fun valid => ⟨valid.atomsDistinct, valid.atomsTyped, valid.factsTyped⟩
    · exact fun given => ⟨given.1, given.2.1, given.2.2⟩
  · intro fault
    have noneKnown (name : String) : name ∈ [] ↔ name ∈ ([] : List Atom).map Atom.name := Iff.rfl
    have atoms (error : ValidationError) : validateAtoms schema [] world.atoms = .error error ↔
        FirstFaultAfter (AtomFault schema) world.atoms error :=
      validateAtoms_eq_error_iff noneKnown
    rw [validate]
    simp only [← atoms]
    cases checked : validateAtoms schema [] world.atoms with
    | error other =>
        constructor
        · exact fun same => Or.inl (congrArg _ (Except.error.inj same))
        · rintro (same | ⟨impossible, _⟩)
          · exact congrArg _ (Except.error.inj same)
          · exact absurd rfl (impossible other)
    | ok names =>
        rw [← validateFacts_eq_error_iff (mem_iff_of_validateAtoms checked)]
        simp only [reduceCtorEq, false_or, not_false_eq_true, implies_true, true_and]

/-- An atom that repeats a name with an undeclared signature is refused as a duplicate, before the
later atoms and the facts are looked at. -/
example :
    validate { signatures := ["A"], predicates := [], hierarchy := [] }
        { atoms := [⟨"a", "A"⟩, ⟨"a", "B"⟩, ⟨"b", "B"⟩], facts := [⟨"p", ["c"]⟩] } =
      .error (.duplicateAtom "a") := by
  decide

end RelationalLayout.Instance
