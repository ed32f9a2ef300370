/-
When a search fails.

The terminals of a search stand over the variables of their chain, and over a valid instance the
facts of a predicate have as many arguments as its first declaration. So a search fails only at
a selector that it made from another declaration of the predicate, with another number of
arguments. It makes such a selector whenever its chains get long enough for the variables that
the selector needs.
-/

import RelationalLayout.Pipeline
import RelationalLayout.Proofs.CompileFault
import RelationalLayout.Proofs.IdleVariable
import RelationalLayout.Proofs.Instance

namespace RelationalLayout

variable {schema : Schema} {world : Instance} {first second : Predicate} {bound : Nat}

/-! ### Predicates declared again -/

namespace Schema

/-- A predicate is declared with two numbers of arguments, of which that of its first declaration
counts. -/
structure Redeclares (schema : Schema) (first second : Predicate) : Prop where
  declared : first ∈ schema.predicates
  again : second ∈ schema.predicates
  sameName : first.name = second.name
  counts : schema.predicate? second.name = some first
  differs : first.arity ≠ second.arity

/-- A predicate selector with one variable for each signature of the declaration is part of some
chain of up to this many selectors. -/
structure Reaches (schema : Schema) (bound : Nat) (predicate : Predicate) : Prop where
  some : schema.signatures ≠ []
  declared : predicate.signatures ⊆ schema.signatures
  short : max 1 predicate.signatures.eraseDups.length < bound

end Schema

def Predicate.faultAgainst (second first : Predicate) : ArityFault :=
  { predicate := second.name, expected := second.arity, found := first.arity }

/-! ### What can be wrong with a chain -/

theorem Selector.Mismatch.exists_redeclares (valid : world.Valid schema)
    {types : List TypedVariable} {selector : Selector} (fits : selector.Fits schema types)
    {fault : ArityFault} (mismatch : selector.Mismatch schema world fault) :
    ∃ first second, schema.Redeclares first second ∧ fault = second.faultAgainst first ∧
      second.signatures ⊆ types.map Prod.snd := by
  obtain ⟨second, again, arguments, typed, rfl⟩ := fits
  have arity : arguments.length = second.arity := typed.length_eq
  cases mismatch with
  | @declaration _ _ first counts differs =>
      obtain ⟨declared, sameName⟩ := Schema.mem_of_predicate? counts
      rw [arity] at differs ⊢
      refine ⟨first, second, ⟨declared, again, sameName, counts, differs⟩, rfl, ?_⟩
      intro signature isAsked
      obtain ⟨argument, _, entry⟩ := exists_left_of_forall₂ typed isAsked
      exact List.mem_map_of_mem entry
  | fact agrees wrong => exact absurd wrong (not_firstFault_of_valid valid agrees)

namespace Evidence

variable {α : Type} [Scalar α] {evidence : Evidence α} {error : CompileError}

theorem exists_of_rulesOf_eq_error {types : List TypedVariable} {predicates : List Selector}
    (distinct : (types.map Prod.fst).Nodup)
    (failed : evidence.rulesOf (.ofParts types predicates) = .error error) :
    ∃ selector ∈ types.map Selector.ofEntry ++ predicates, ∃ fault,
      selector.Mismatch evidence.schema evidence.world fault ∧ error = .arityMismatch fault := by
  cases found : substitutionsOf evidence.schema evidence.world
      (types.map Selector.ofEntry ++ predicates) with
  | ok substitutions =>
      obtain ⟨own, succeeds⟩ := exists_rulesOf distinct found
      cases failed.symm.trans succeeds
  | error fault =>
      obtain ⟨_, selector, _, split, _, mismatch⟩ := substitutionsOf_eq_error_iff.mp found
      refine ⟨selector, split ▸ List.mem_append_right _ List.mem_cons_self, fault, mismatch, ?_⟩
      rw [rulesOf, TypedChain.ofParts, found] at failed
      cases whole : Chain.ofList? (types.map Selector.ofEntry ++ predicates) with
      | none =>
          rw [whole] at failed
          cases failed
      | some chain =>
          rw [whole] at failed
          cases failed
          rfl

theorem exists_of_recordChains_eq_error {found : InferredRules α} {chains : List TypedChain}
    (failed : evidence.recordChains found chains = .error error) :
    ∃ chain ∈ chains, evidence.rulesOf chain = .error error := by
  induction chains generalizing found with
  | nil => cases failed
  | cons chain chains ih =>
      rw [recordChains] at failed
      rcases bind_eq_error_iff.mp failed with here | ⟨own, _, failed⟩
      · exact ⟨chain, List.mem_cons_self, here⟩
      · obtain ⟨other, member, there⟩ := ih failed
        exact ⟨other, List.mem_cons_of_mem _ member, there⟩

theorem exists_redeclares_of_infer (valid : evidence.world.Valid evidence.schema)
    (failed : evidence.infer bound = .error error) :
    ∃ first second, evidence.schema.Redeclares first second ∧
      evidence.schema.Reaches bound second ∧
        error = .arityMismatch (second.faultAgainst first) := by
  have recorded : evidence.recordChains .empty (chainsUpTo evidence.schema bound) =
      .error error := by
    rw [infer, recordLengths_eq, ← chainsUpTo] at failed
    cases result : evidence.recordChains .empty (chainsUpTo evidence.schema bound) with
    | ok found =>
        rw [result] at failed
        cases failed
    | error other =>
        rw [result] at failed
        cases failed
        rfl
  obtain ⟨chain, searched, fails⟩ := exists_of_recordChains_eq_error recorded
  obtain ⟨types, predicates, some, within, typed, rfl⟩ := mem_chainsUpTo_iff.mp searched
  obtain ⟨selector, member, fault, mismatch, rfl⟩ := exists_of_rulesOf_eq_error typed.distinct fails
  rcases List.mem_append.mp member with isType | isPredicate
  · obtain ⟨entry, _, rfl⟩ := List.mem_map.mp isType
    cases mismatch
  obtain ⟨first, second, redeclares, rfl, asked⟩ :=
    mismatch.exists_redeclares valid (typed.fits selector isPredicate)
  refine ⟨first, second, redeclares, ⟨?_, ?_, ?_⟩, rfl⟩
  · obtain ⟨entry, isEntry⟩ := List.exists_mem_of_ne_nil types some
    exact List.ne_nil_of_mem (typed.declared entry isEntry).2
  · intro signature isAsked
    obtain ⟨entry, isEntry, rfl⟩ := List.mem_map.mp (asked isAsked)
    exact (typed.declared entry isEntry).2
  · have enough : second.signatures.eraseDups.length ≤ types.length := by
      have asked : second.signatures.eraseDups ⊆ types.map Prod.snd :=
        fun _ isAsked => asked (List.mem_eraseDups.mp isAsked)
      have fewer := (List.subperm_of_subset (nodup_eraseDups _) asked).length_le
      rwa [List.length_map] at fewer
    have someTypes := List.length_pos_of_ne_nil some
    have somePredicates := List.length_pos_of_mem isPredicate
    omega

end Evidence

/-! ### Chains that fail -/

theorem Schema.Reaches.exists_isTyped (reaches : schema.Reaches bound second)
    (declared : second ∈ schema.predicates) :
    ∃ types arguments, types ≠ [] ∧ types.length + 1 ≤ bound ∧ arguments.length = second.arity ∧
      IsTyped schema (TypedChain.variablePool (types.length + 1)) types
        [.predicate second.name arguments] := by
  obtain ⟨kinds, some, length, distinct, isDeclared, asked⟩ : ∃ kinds : List String, kinds ≠ [] ∧
      kinds.length < bound ∧ kinds.Nodup ∧ kinds ⊆ schema.signatures ∧
        second.signatures ⊆ kinds := by
    have short := reaches.short
    by_cases none : second.signatures = []
    · obtain ⟨kind, isKind⟩ := List.exists_mem_of_ne_nil _ reaches.some
      refine ⟨[kind], List.cons_ne_nil _ _, ?_, List.nodup_singleton kind, ?_, ?_⟩
      · exact (Nat.le_max_left _ _).trans_lt short
      · exact List.cons_subset.mpr ⟨isKind, List.nil_subset _⟩
      · rw [none]
        exact List.nil_subset _
    · refine ⟨second.signatures.eraseDups, ?_, (Nat.le_max_right _ _).trans_lt short,
        nodup_eraseDups _, ?_, ?_⟩
      · obtain ⟨signature, isAsked⟩ := List.exists_mem_of_ne_nil _ none
        exact List.ne_nil_of_mem (List.mem_eraseDups.mpr isAsked)
      · exact fun _ isAsked => reaches.declared (List.mem_eraseDups.mp isAsked)
      · exact fun _ isAsked => List.mem_eraseDups.mpr isAsked
  refine ⟨kinds.map (fun kind => (numberedBy kinds kind, kind)),
    second.signatures.map (numberedBy kinds), ?_, ?_, List.length_map _, ?_⟩
  · exact fun none => some (List.map_eq_nil_iff.mp none)
  · rwa [List.length_map]
  rw [List.length_map]
  constructor
  · rw [List.map_map]
    exact distinct.map_on (injOn_numberedBy kinds)
  · intro entry member
    obtain ⟨kind, isKind, rfl⟩ := List.mem_map.mp member
    exact ⟨numberedBy_mem_variablePool isKind (Nat.le_succ _), isDeclared isKind⟩
  · exact List.nodup_singleton _
  · intro selector member
    refine ⟨second, declared, _, ?_, List.mem_singleton.mp member⟩
    rw [List.forall₂_map_left_iff, List.forall₂_same]
    exact fun signature isAsked => List.mem_map_of_mem (asked isAsked)

theorem Evidence.infer_ne_ok {α : Type} [Scalar α] {evidence : Evidence α}
    (redeclares : evidence.schema.Redeclares first second)
    (reaches : evidence.schema.Reaches bound second) (rules : List (InferredRule α)) :
    evidence.infer bound ≠ .ok rules := by
  intro inferred
  obtain ⟨_, searched, _⟩ := infer_eq_ok_iff_candidates.mp inferred
  obtain ⟨types, arguments, some, within, arity, typed⟩ := reaches.exists_isTyped redeclares.again
  have inChains : TypedChain.ofParts types [.predicate second.name arguments] ∈
      chainsUpTo evidence.schema bound :=
    mem_chainsUpTo_iff.mpr
      ⟨types, [.predicate second.name arguments], some, within, typed, rfl⟩
  obtain ⟨own, found⟩ := exists_rulesOf_of_candidatesOf searched inChains
  obtain ⟨substitutions, found⟩ := exists_substitutionsOf_of_rulesOf found
    (List.append_ne_nil_of_right_ne_nil _ (List.cons_ne_nil _ _))
  have agrees := exists_substitutionsOf_iff.mp ⟨substitutions, found⟩ _
    (List.mem_append_right _ List.mem_cons_self)
  exact agrees (Or.inl ⟨first, redeclares.counts, arity ▸ redeclares.differs⟩)

/-- Inference from a valid instance fails exactly if chains within the bound reach a declaration
of a predicate with another number of arguments than its first one, and the error says so. -/
theorem Pipeline.infer_fails_exact (valid : world.validate schema = .ok ())
    (diagram : Diagram Float) (settings : InferenceSettings) :
    (∀ error, infer schema world diagram settings = .error error →
      ∃ first second, schema.Redeclares first second ∧
        error = .compile (.arityMismatch (second.faultAgainst first))) ∧
      ((∃ error, infer schema world diagram settings = .error error) ↔
        ∃ first second, schema.Redeclares first second ∧
          schema.Reaches settings.bound second) := by
  let evidence : Evidence Float :=
    { schema := schema, world := world, diagram := diagram, threshold := settings.threshold }
  have isValid : evidence.world.Valid evidence.schema := Instance.validate_eq_ok_iff.mp valid
  have searches : infer schema world diagram settings =
      (evidence.infer settings.bound).mapError .compile := by
    rw [infer, validate, valid]
    rfl
  have fault error (failed : infer schema world diagram settings = .error error) :
      ∃ first second, schema.Redeclares first second ∧ schema.Reaches settings.bound second ∧
        error = .compile (.arityMismatch (second.faultAgainst first)) := by
    rw [searches] at failed
    obtain ⟨cause, fails, rfl⟩ := exists_eq_error_of_mapError_eq_error failed
    obtain ⟨first, second, redeclares, reaches, rfl⟩ :=
      Evidence.exists_redeclares_of_infer isValid fails
    exact ⟨first, second, redeclares, reaches, rfl⟩
  refine ⟨fun error failed => ?_, ?_, ?_⟩
  · obtain ⟨first, second, redeclares, _, isFault⟩ := fault error failed
    exact ⟨first, second, redeclares, isFault⟩
  · rintro ⟨error, failed⟩
    obtain ⟨first, second, redeclares, reaches, _⟩ := fault error failed
    exact ⟨first, second, redeclares, reaches⟩
  · rintro ⟨first, second, redeclares, reaches⟩
    cases result : infer schema world diagram settings with
    | error error => exact ⟨error, rfl⟩
    | ok rules =>
        rw [searches] at result
        exact absurd (eq_ok_of_mapError_eq_ok result)
          (Evidence.infer_ne_ok redeclares reaches rules)

def twiceDeclared : Schema :=
  { signatures := ["A"]
    predicates := [{ name := "p", signatures := ["A"] }, { name := "p", signatures := ["A", "A"] }]
    hierarchy := [] }

/-- A variable and a selector for the second declaration are within the default bound. -/
theorem Pipeline.infer_fails_exact_twice :
    Instance.empty.validate twiceDeclared = .ok () ∧
      infer twiceDeclared .empty .empty .default =
        .error (.compile (.arityMismatch { predicate := "p", expected := 2, found := 1 })) := by
  have valid : Instance.empty.validate twiceDeclared = .ok () := by decide +kernel
  obtain ⟨faults, fails⟩ := infer_fails_exact valid .empty .default
  have redeclares : twiceDeclared.Redeclares { name := "p", signatures := ["A"] }
      { name := "p", signatures := ["A", "A"] } := by
    constructor <;> decide +kernel
  have reaches : twiceDeclared.Reaches InferenceSettings.default.bound
      { name := "p", signatures := ["A", "A"] } := by
    constructor <;> decide +kernel
  obtain ⟨error, failed⟩ := fails.mpr ⟨_, _, redeclares, reaches⟩
  obtain ⟨first, second, also, rfl⟩ := faults error failed
  refine ⟨valid, failed.trans ?_⟩
  have declared := also.declared
  have again := also.again
  have counts := also.counts
  simp only [twiceDeclared, List.mem_cons, List.not_mem_nil, or_false] at declared again
  rcases declared with rfl | rfl <;> rcases again with rfl | rfl
  · exact absurd rfl also.differs
  · rfl
  · cases counts
  · exact absurd rfl also.differs

end RelationalLayout
