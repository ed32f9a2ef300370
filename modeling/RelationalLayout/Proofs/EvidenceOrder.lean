/-
The order of the evidence plays no part.

A query has the same substitutions over instances with the same atoms and facts, but lists them
in another order. So does a search with the instances of a rule and their scores, of which it
takes the mean and the set of footprints; and for its chains and terminals it looks at the
schema only.
-/

import RelationalLayout.Proofs.Candidate
import RelationalLayout.Proofs.InferenceFault

namespace RelationalLayout

/-! ### Instances -/

/-- The same atoms and the same facts, in any order and any number of times. -/
structure Instance.SameContent (world other : Instance) : Prop where
  atoms (atom : Atom) : atom ∈ world.atoms ↔ atom ∈ other.atoms
  facts (fact : Fact) : fact ∈ world.facts ↔ fact ∈ other.facts

namespace Instance.SameContent

variable {schema : Schema} {world other : Instance} {selectors : List Selector}

theorem symm (same : world.SameContent other) : other.SameContent world where
  atoms atom := (same.atoms atom).symm
  facts fact := (same.facts fact).symm

theorem holds_iff (same : world.SameContent other) {assignment : String → Option String}
    {selector : Selector} : selector.Holds world assignment ↔ selector.Holds other assignment := by
  cases selector with
  | signature variableName signatureName => simp only [Selector.Holds, same.atoms]
  | predicate predicateName arguments => simp only [Selector.Holds, same.facts]

theorem perm_substitutionsOf (same : world.SameContent other)
    {substitutions others : List Substitution}
    (found : substitutionsOf schema world selectors = .ok substitutions)
    (foundToo : substitutionsOf schema other selectors = .ok others) :
    substitutions.Perm others := by
  apply (List.perm_ext_iff_of_nodup (nodup_substitutionsOf found)
    (nodup_substitutionsOf foundToo)).mpr
  intro substitution
  rw [mem_substitutionsOf_iff found, mem_substitutionsOf_iff foundToo]
  simp only [same.holds_iff]

theorem endsAlike_substitutionsOf (same : world.SameContent other) (valid : world.Valid schema)
    (validToo : other.Valid schema) (selectors : List Selector) :
    EndsAlike List.Perm (substitutionsOf schema world selectors)
      (substitutionsOf schema other selectors) := by
  have mismatches : Selector.Mismatch schema world = Selector.Mismatch schema other := by
    funext selector fault
    apply propext
    constructor
    · exact fun mismatch => mismatch.over_of_valid valid other
    · exact fun mismatch => mismatch.over_of_valid validToo world
  have faults (fault : ArityFault) : substitutionsOf schema world selectors = .error fault ↔
      substitutionsOf schema other selectors = .error fault := by
    rw [substitutionsOf_eq_error_iff, substitutionsOf_eq_error_iff, mismatches]
  cases found : substitutionsOf schema world selectors with
  | error fault =>
      rw [(faults fault).mp found]
      exact .error fault
  | ok substitutions =>
      cases foundToo : substitutionsOf schema other selectors with
      | error fault => cases found.symm.trans ((faults fault).mpr foundToo)
      | ok others => exact .ok (same.perm_substitutionsOf found foundToo)

theorem exists_compile (same : world.SameContent other) (valid : world.Valid schema)
    (validToo : other.Valid schema) {rule : Rule} {number : Nat} {layouts : List GroundLayout}
    (compiled : rule.compile schema world number = .ok layouts) :
    ∃ others, rule.compile schema other number = .ok others ∧ others.Perm layouts := by
  obtain ⟨substitutions, found, instantiated⟩ := Rule.compile_eq_ok_iff.mp compiled
  obtain ⟨others, foundToo, permuted⟩ :=
    (same.endsAlike_substitutionsOf valid validToo rule.selectors).exists_eq_ok found
  rw [Template.instantiateAll_eq_ok_iff] at instantiated
  obtain ⟨layoutsToo, instantiatedToo, reordered⟩ :=
    List.perm_comp_forall₂ permuted.symm instantiated
  have compiledToo := Template.instantiateAll_eq_ok_iff.mpr instantiatedToo
  exact ⟨layoutsToo, Rule.compile_eq_ok_iff.mpr ⟨others, foundToo, compiledToo⟩, reordered⟩

end Instance.SameContent

/-! ### Accepted rules -/

variable {α : Type}

/-- Rules found that differ in the list of their footprints at most. -/
structure InferredRule.Matches (found other : InferredRule α) : Prop where
  rule : found.rule = other.rule
  confidence : found.confidence = other.confidence
  complexity : found.complexity = other.complexity
  key : found.key = other.key

theorem FootprintKey.ofFootprints_perm {footprints others : List GroundLayout}
    (permuted : footprints.Perm others) : ofFootprints footprints = ofFootprints others := by
  apply ofFootprints_congr
  intro text
  simp only [permuted.mem_iff]

namespace Evidence

variable [Scalar α]

def withWorld (evidence : Evidence α) (other : Instance) : Evidence α :=
  { evidence with world := other }

section Acceptance

variable {evidence : Evidence α} {other : Instance}
  (orderFree : ∀ scores others : List α, scores.Perm others →
    geometricMean scores = geometricMean others)
  (same : evidence.world.SameContent other) (valid : evidence.world.Valid evidence.schema)
  (validToo : other.Valid evidence.schema)

include orderFree same valid validToo

theorem Accepts.exists_matches {inferred : InferredRule α} {layouts : List GroundLayout}
    (accepts : evidence.Accepts inferred layouts) :
    ∃ found others, (evidence.withWorld other).Accepts found others ∧ inferred.Matches found := by
  obtain ⟨others, compiled, permuted⟩ := same.exists_compile valid validToo accepts.compiled
  let found : InferredRule α :=
    { inferred with footprints := GroundLayout.canonicalize others }
  have accepted : (evidence.withWorld other).Accepts found others := by
    constructor
    · exact compiled
    · intro none
      rw [none] at permuted
      exact accepts.matched permuted.symm.eq_nil
    · exact fun layout member => accepts.scored layout (permuted.mem_iff.mp member)
    · exact accepts.confidence.trans
        (orderFree _ _ (permuted.symm.map (Layout.scoreOrZero evidence.diagram)))
    · exact accepts.exceeds
    · rfl
  refine ⟨found, others, accepted, rfl, rfl, rfl, ?_⟩
  rw [InferredRule.key, InferredRule.key, accepts.footprints]
  exact FootprintKey.ofFootprints_perm (permuted.symm.flatMap_right GroundLayout.footprints)

section Chain

variable {substitutions others : List Substitution} {chain : Chain}
  (substituted : substitutionsOf evidence.schema evidence.world chain.toList = .ok substitutions)
  (substitutedToo : substitutionsOf evidence.schema other chain.toList = .ok others)
  (matched : substitutions ≠ []) (matchedToo : others ≠ [])

include substituted substitutedToo matched matchedToo

theorem exists_accept?_eq_some {terminal : Template} {inferred : InferredRule α}
    (accepted : evidence.accept? chain substitutions terminal = .ok (some inferred)) :
    ∃ found, (evidence.withWorld other).accept? chain others terminal = .ok (some found) ∧
      inferred.Matches found := by
  obtain ⟨sameRule, layouts, accepts⟩ := (accept?_eq_some_iff substituted matched).mp accepted
  obtain ⟨found, layoutsToo, acceptsToo, agrees⟩ :=
    accepts.exists_matches orderFree same valid validToo
  have ruleToo := agrees.rule.symm.trans sameRule
  exact ⟨found, (accept?_eq_some_iff substitutedToo matchedToo).mpr ⟨ruleToo, layoutsToo, acceptsToo⟩,
    agrees⟩

variable {names : List String}
  (bound : ∀ substitution ∈ substitutions, ∀ name ∈ names,
    ∃ atom, substitution.find? name = some atom)
  (boundToo : ∀ substitution ∈ others, ∀ name ∈ names,
    ∃ atom, substitution.find? name = some atom)

include bound boundToo

theorem endsAlike_accept? {terminal : Template} (inScope : Template.Over names terminal) :
    EndsAlike (Option.Rel InferredRule.Matches) (evidence.accept? chain substitutions terminal)
      ((evidence.withWorld other).accept? chain others terminal) := by
  obtain ⟨result, accepted⟩ : ∃ result,
      evidence.accept? chain substitutions terminal = .ok result :=
    exists_accept? chain inScope bound
  obtain ⟨resultToo, acceptedToo⟩ : ∃ result,
      (evidence.withWorld other).accept? chain others terminal = .ok result :=
    exists_accept? chain inScope boundToo
  rw [accepted, acceptedToo]
  cases result with
  | some inferred =>
      obtain ⟨found, isFound, agrees⟩ := exists_accept?_eq_some orderFree same valid validToo
        substituted substitutedToo matched matchedToo accepted
      cases acceptedToo.symm.trans isFound
      exact .ok (.some agrees)
  | none =>
      cases resultToo with
      | none => exact .ok .none
      | some found =>
          have back : (evidence.withWorld other).world.SameContent evidence.world := same.symm
          obtain ⟨_, isFound, _⟩ := exists_accept?_eq_some orderFree back validToo valid
            substitutedToo substituted matchedToo matched acceptedToo
          cases accepted.symm.trans isFound

theorem endsAlike_acceptAll {terminals : List Template}
    (inScope : ∀ terminal ∈ terminals, Template.Over names terminal) :
    EndsAlike (List.Forall₂ InferredRule.Matches) (evidence.acceptAll chain substitutions terminals)
      ((evidence.withWorld other).acceptAll chain others terminals) := by
  induction terminals with
  | nil => exact .ok .nil
  | cons terminal terminals ih =>
      rw [List.forall_mem_cons] at inScope
      rw [acceptAll, acceptAll]
      apply (endsAlike_accept? orderFree same valid validToo substituted substitutedToo matched
        matchedToo bound boundToo inScope.1).bind
      intro result resultToo here
      apply (ih inScope.2).bind
      intro later laterToo agree
      apply EndsAlike.ok
      cases here with
      | none => exact agree
      | some agrees => exact .cons agrees agree

end Chain

theorem endsAlike_rulesOf {types : List TypedVariable} {predicates : List Selector}
    (distinct : (types.map Prod.fst).Nodup) :
    EndsAlike (List.Forall₂ InferredRule.Matches)
      (evidence.rulesOf (.ofParts types predicates))
      ((evidence.withWorld other).rulesOf (.ofParts types predicates)) := by
  have alike : EndsAlike List.Perm
      (substitutionsOf evidence.schema evidence.world (TypedChain.ofParts types predicates).selectors)
      (substitutionsOf (evidence.withWorld other).schema (evidence.withWorld other).world
        (TypedChain.ofParts types predicates).selectors) :=
    same.endsAlike_substitutionsOf valid validToo _
  rw [rulesOf, rulesOf]
  cases whole : Chain.ofList? (TypedChain.ofParts types predicates).selectors with
  | none => exact .ok .nil
  | some chain =>
      have selectors := Chain.ofList?_eq_some_iff.mp whole
      cases found : substitutionsOf evidence.schema evidence.world
          (TypedChain.ofParts types predicates).selectors with
      | error fault =>
          rw [alike.eq_error found]
          exact .error _
      | ok substitutions =>
          obtain ⟨others, foundToo, permuted⟩ := alike.exists_eq_ok found
          have bound := exists_atom_of_substitutionsOf distinct found
          have boundToo := exists_atom_of_substitutionsOf distinct foundToo
          rw [foundToo]
          rw [← selectors] at found foundToo
          cases substitutions with
          | nil =>
              cases permuted.nil_eq
              exact .ok .nil
          | cons first rest =>
              cases others with
              | nil => cases permuted.eq_nil
              | cons firstToo restToo =>
                  exact endsAlike_acceptAll orderFree same valid validToo found foundToo
                    (List.cons_ne_nil _ _) (List.cons_ne_nil _ _) bound boundToo
                    (fun _ => over_of_mem_templatesOver)

theorem endsAlike_candidatesOf {chains : List TypedChain}
    (searched : ∀ chain ∈ chains, ∃ types predicates, (types.map Prod.fst).Nodup ∧
      chain = .ofParts types predicates) :
    EndsAlike (List.Forall₂ InferredRule.Matches) (evidence.candidatesOf chains)
      ((evidence.withWorld other).candidatesOf chains) := by
  induction chains with
  | nil => exact .ok .nil
  | cons chain chains ih =>
      rw [List.forall_mem_cons] at searched
      obtain ⟨⟨types, predicates, distinct, rfl⟩, later⟩ := searched
      rw [candidatesOf, candidatesOf]
      apply (endsAlike_rulesOf orderFree same valid validToo distinct).bind
      intro own ownToo here
      apply (ih later).bind
      intro rest restToo agree
      exact .ok (List.rel_append here agree)

end Acceptance

end Evidence

/-! ### Results -/

namespace InferredRules

variable {found others : InferredRules α}

/-- Of matching rules both are kept or none is: they have the same key and are equally complex. -/
theorem related_record (related : SortedMap.Related InferredRule.Matches found others)
    {candidate other : InferredRule α} (agrees : candidate.Matches other) :
    SortedMap.Related InferredRule.Matches (found.record candidate) (others.record other) := by
  have kept := related.find? candidate.key
  rw [record, record, ← agrees.key, ← agrees.complexity]
  generalize found.find? candidate.key = held, others.find? candidate.key = heldToo at kept ⊢
  cases kept with
  | none => exact related.insert _ agrees
  | some earlier =>
      simp only [earlier.complexity]
      split
      · exact related.insert _ agrees
      · exact related

theorem related_foldl_record (related : SortedMap.Related InferredRule.Matches found others)
    {candidates candidatesToo : List (InferredRule α)}
    (agree : List.Forall₂ InferredRule.Matches candidates candidatesToo) :
    SortedMap.Related InferredRule.Matches (candidates.foldl record found)
      (candidatesToo.foldl record others) := by
  induction agree generalizing found others with
  | nil => exact related
  | cons agrees _ ih => exact ih (related_record related agrees)

end InferredRules

/-- Searches over valid instances with the same atoms and the same facts find rules that agree one
by one in everything but the order of their footprints, or else fail with the same error. The mean
must not depend on the order of the scores. -/
theorem Evidence.infer_withWorld [Scalar α] {evidence : Evidence α} {other : Instance}
    (orderFree : ∀ scores others : List α, scores.Perm others →
      geometricMean scores = geometricMean others)
    (valid : evidence.world.validate evidence.schema = .ok ())
    (validToo : other.validate evidence.schema = .ok ())
    (same : evidence.world.SameContent other) (bound : Nat) :
    EndsAlike (List.Forall₂ InferredRule.Matches) (evidence.infer bound)
      ((evidence.withWorld other).infer bound) := by
  rw [Instance.validate_eq_ok_iff] at valid validToo
  rw [infer_eq, infer_eq]
  have searched : ∀ chain ∈ chainsUpTo evidence.schema bound, ∃ types predicates,
      (types.map Prod.fst).Nodup ∧ chain = .ofParts types predicates := by
    intro chain member
    obtain ⟨types, predicates, _, _, typed, isParts⟩ := mem_chainsUpTo_iff.mp member
    exact ⟨types, predicates, typed.distinct, isParts⟩
  apply (endsAlike_candidatesOf orderFree same valid validToo searched).map
  intro candidates candidatesToo agree
  exact (InferredRules.related_foldl_record .empty agree).values

/-- The two apples in the other order, with the fact about them stated twice. -/
theorem Evidence.infer_withWorld_apples :
    let other : Instance :=
      { atoms := [{ name := "b", signature := "Apple" }, { name := "a", signature := "Apple" }]
        facts := List.replicate 2 { predicate := "redder", arguments := ["a", "b"] } }
    (∀ scores others : List RealScore, scores.Perm others →
        geometricMean scores = geometricMean others) ∧
      appleEvidence.world.validate appleEvidence.schema = .ok () ∧
      other.validate appleEvidence.schema = .ok () ∧ appleEvidence.world.SameContent other ∧
      ∃ rules others, appleEvidence.infer 3 = .ok rules ∧
        (appleEvidence.withWorld other).infer 3 = .ok others ∧ rules ≠ [] ∧
        List.Forall₂ InferredRule.Matches rules others := by
  intro other
  have orderFree (scores others : List RealScore) (permuted : scores.Perm others) :
      geometricMean scores = geometricMean others := by
    apply ExactScoring.geometricMean_repeated one_pos
    rwa [List.replicate_one, List.flatten_singleton]
  have valid : appleEvidence.world.validate appleEvidence.schema = .ok () := by
    decide +kernel
  have validToo : other.validate appleEvidence.schema = .ok () := by
    decide +kernel
  have same : appleEvidence.world.SameContent other := by
    constructor
    · intro atom
      exact (List.mem_pair.trans or_comm).trans List.mem_pair.symm
    · intro fact
      simp only [appleEvidence, other, List.mem_singleton, List.mem_replicate, ne_eq,
        OfNat.ofNat_ne_zero, not_false_eq_true, true_and]
  obtain ⟨rules, inferred⟩ := Evidence.exists_infer appleEvidence_agrees
  obtain ⟨others, inferredToo, agree⟩ :=
    (infer_withWorld orderFree valid validToo same 3).exists_eq_ok inferred
  exact ⟨orderFree, valid, validToo, same, rules, others, inferred, inferredToo,
    appleEvidence_finds inferred, agree⟩

end RelationalLayout
