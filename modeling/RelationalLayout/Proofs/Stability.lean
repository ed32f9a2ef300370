/-
Searching further, and more strictly.

A search with a higher bound goes on where one with a lower bound ends, and nothing
that was recorded for shorter chains is replaced. A search with a lower threshold
accepts all that one with a higher threshold does.
-/

import RelationalLayout.Proofs.Candidate
import RelationalLayout.Proofs.Float.Order

namespace RelationalLayout

/-- Thresholds are ordered so that what exceeds one exceeds all below it. -/
class OrderedScores (α : Type) [Scalar α] [LE α] : Prop where
  exceeds_of_le {score lower higher : α} (below : lower ≤ higher)
    (exceeds : Scalar.exceeds score higher = true) : Scalar.exceeds score lower = true

theorem orderedScores_of_linearOrder {α : Type} [Scalar α] [LinearOrder α]
    (exceeds_iff : ∀ score threshold : α, Scalar.exceeds score threshold = true ↔ threshold < score) :
    OrderedScores α where
  exceeds_of_le := by
    intro score lower higher below exceeds
    rw [exceeds_iff] at exceeds ⊢
    exact lt_of_le_of_lt below exceeds

noncomputable instance : OrderedScores RealScore :=
  orderedScores_of_linearOrder RealScore.exceeds_iff

/-- Floating-point scores are ordered as well, though not in a total order. -/
instance : OrderedScores Float where
  exceeds_of_le below exceeds :=
    decide_eq_true (float_lt_of_le_of_lt below (of_decide_eq_true exceeds))

variable {α : Type} [Scalar α]

/-! ### Longer chains -/

namespace Evidence

def withThreshold (evidence : Evidence α) (threshold : α) : Evidence α :=
  { evidence with threshold := threshold }

variable {evidence : Evidence α} {bound : Nat}

theorem length_selectors_of_mem_ofLength {schema : Schema} {length : Nat} (some : length ≠ 0)
    {chain : TypedChain} (member : chain ∈ TypedChain.ofLength schema length) :
    chain.selectors.length = length := by
  obtain ⟨types, predicates, _, same, _, rfl⟩ := (TypedChain.mem_ofLength_iff some).mp member
  rw [TypedChain.ofParts, List.length_append, List.length_map, same]

theorem chainsUpTo_add (schema : Schema) (bound more : Nat) :
    chainsUpTo schema (bound + more) =
      chainsUpTo schema bound ++
        (List.range' (1 + bound) more).flatMap (TypedChain.ofLength schema) := by
  rw [chainsUpTo, chainsUpTo, ← List.range'_append_1, List.flatMap_append]

theorem pairwise_length_chainsUpTo (schema : Schema) (bound : Nat) :
    (chainsUpTo schema bound).Pairwise
      (fun earlier later => earlier.selectors.length ≤ later.selectors.length) := by
  rw [chainsUpTo, List.pairwise_flatMap]
  constructor
  · intro length member
    have some : length ≠ 0 := Nat.ne_of_gt (List.mem_range'_1.mp member).1
    apply List.pairwise_of_forall_mem_list
    intro earlier isEarlier later isLater
    rw [length_selectors_of_mem_ofLength some isEarlier,
      length_selectors_of_mem_ofLength some isLater]
  · apply List.Pairwise.imp_of_mem _ List.pairwise_lt_range'
    intro length longer member longerMember below earlier isEarlier later isLater
    have some : length ≠ 0 := Nat.ne_of_gt (List.mem_range'_1.mp member).1
    have longerSome : longer ≠ 0 := Nat.ne_of_gt (List.mem_range'_1.mp longerMember).1
    rw [length_selectors_of_mem_ofLength some isEarlier,
      length_selectors_of_mem_ofLength longerSome isLater]
    exact Nat.le_of_lt below

theorem pairwise_complexity_candidatesOf {chains : List TypedChain}
    (ordered : chains.Pairwise
      (fun earlier later => earlier.selectors.length ≤ later.selectors.length))
    {candidates : List (InferredRule α)} (found : evidence.candidatesOf chains = .ok candidates) :
    candidates.Pairwise (fun earlier later => earlier.complexity ≤ later.complexity) := by
  induction chains generalizing candidates with
  | nil =>
      cases found
      exact List.Pairwise.nil
  | cons chain chains ih =>
      obtain ⟨shortest, restOrdered⟩ := List.pairwise_cons.mp ordered
      obtain ⟨own, here, found⟩ := bind_eq_ok_iff.mp found
      obtain ⟨later, remaining, found⟩ := bind_eq_ok_iff.mp found
      cases found
      rw [List.pairwise_append]
      refine ⟨?_, ih restOrdered remaining, ?_⟩
      · apply List.pairwise_of_forall_mem_list
        intro first isFirst second isSecond
        rw [complexity_of_mem_rulesOf here isFirst, complexity_of_mem_rulesOf here isSecond]
      · intro first isFirst second isSecond
        obtain ⟨other, inRest, rules, there, inRules⟩ :=
          (mem_candidatesOf_iff remaining).mp isSecond
        rw [complexity_of_mem_rulesOf here isFirst, complexity_of_mem_rulesOf there inRules]
        exact shortest other inRest

theorem pairwise_complexity_candidates {candidates : List (InferredRule α)}
    (found : evidence.candidates bound = .ok candidates) :
    candidates.Pairwise (fun earlier later => earlier.complexity ≤ later.complexity) :=
  pairwise_complexity_candidatesOf (pairwise_length_chainsUpTo evidence.schema bound) found

/-- What is recorded once is never replaced. -/
theorem find?_foldl_candidates {candidates earlier later : List (InferredRule α)}
    (found : evidence.candidates bound = .ok candidates) (split : candidates = earlier ++ later)
    {key : FootprintKey} {kept : InferredRule α}
    (held : (earlier.foldl InferredRules.record .empty).find? key = some kept) :
    (candidates.foldl InferredRules.record .empty).find? key = some kept := by
  have ordered := pairwise_complexity_candidates found
  rw [split] at ordered ⊢
  rw [List.foldl_append]
  apply InferredRules.find?_foldl_record_of_le held
  intro candidate isLater
  have isEarlier := ((InferredRules.keeps_candidates earlier).sound key kept held).2
  exact (List.pairwise_append.mp ordered).2.2 kept isEarlier candidate isLater

theorem exists_candidates_of_le {more : Nat} (below : bound ≤ more)
    {candidates : List (InferredRule α)} (found : evidence.candidates more = .ok candidates) :
    ∃ earlier later, evidence.candidates bound = .ok earlier ∧ candidates = earlier ++ later ∧
      ∀ candidate ∈ later, bound < candidate.complexity := by
  obtain ⟨further, rfl⟩ := Nat.exists_eq_add_of_le below
  rw [Evidence.candidates, chainsUpTo_add, candidatesOf_append_eq_ok_iff] at found
  obtain ⟨earlier, later, first, second, split⟩ := found
  refine ⟨earlier, later, first, split, ?_⟩
  intro candidate member
  obtain ⟨chain, searched, own, here, inOwn⟩ := (mem_candidatesOf_iff second).mp member
  obtain ⟨length, within, ofLength⟩ := List.mem_flatMap.mp searched
  have longer := (List.mem_range'_1.mp within).1
  have some : length ≠ 0 := by omega
  rw [complexity_of_mem_rulesOf here inOwn, length_selectors_of_mem_ofLength some ofLength]
  omega

theorem infer_mono_bound {more : Nat} (below : bound ≤ more) {rules further : List (InferredRule α)}
    (inferred : evidence.infer bound = .ok rules) (inferredMore : evidence.infer more = .ok further) :
    (∀ found ∈ rules, found ∈ further) ∧
      ∀ found ∈ further, found ∉ rules → bound < found.complexity := by
  obtain ⟨candidates, searched, rfl⟩ := infer_eq_ok_iff_candidates.mp inferredMore
  obtain ⟨earlier, later, searchedEarlier, split, complex⟩ := exists_candidates_of_le below searched
  obtain ⟨_, searchedToo, rfl⟩ := infer_eq_ok_iff_candidates.mp inferred
  cases searchedEarlier.symm.trans searchedToo
  have stays {key : FootprintKey} {kept : InferredRule α}
      (held : (earlier.foldl InferredRules.record .empty).find? key = some kept) :
      (candidates.foldl InferredRules.record .empty).find? key = some kept :=
    find?_foldl_candidates searched split held
  constructor
  · intro found member
    have held := (InferredRules.keeps_candidates earlier).mem_values_iff.mp member
    exact (InferredRules.keeps_candidates candidates).mem_values_iff.mpr (stays held)
  · intro found member isNew
    have held := (InferredRules.keeps_candidates candidates).mem_values_iff.mp member
    have isCandidate := ((InferredRules.keeps_candidates candidates).sound _ _ held).2
    rw [split] at isCandidate
    rcases List.mem_append.mp isCandidate with isEarlier | isLater
    · obtain ⟨kept, keptEarlier, _⟩ := (InferredRules.keeps_candidates earlier).minimal found isEarlier
      cases held.symm.trans (stays keptEarlier)
      exact absurd ((InferredRules.keeps_candidates earlier).mem_values_iff.mpr keptEarlier) isNew
    · exact complex found isLater

/-! ### Lower thresholds -/

section Thresholds

variable [LE α] [OrderedScores α] {lower higher : α}

theorem Accepts.of_le (below : lower ≤ higher) {inferred : InferredRule α}
    {layouts : List GroundLayout}
    (accepts : (evidence.withThreshold higher).Accepts inferred layouts) :
    (evidence.withThreshold lower).Accepts inferred layouts where
  compiled := accepts.compiled
  matched := accepts.matched
  scored := accepts.scored
  confidence := accepts.confidence
  exceeds := OrderedScores.exceeds_of_le below accepts.exceeds
  footprints := accepts.footprints

/-- With a lower threshold all sets of footprints are found again, under rules no more complex. -/
theorem infer_anti_threshold (below : lower ≤ higher) {rules fewer : List (InferredRule α)}
    (inferred : (evidence.withThreshold lower).infer bound = .ok rules)
    (inferredFewer : (evidence.withThreshold higher).infer bound = .ok fewer) :
    ∀ found ∈ fewer, ∃ kept ∈ rules, kept.key = found.key ∧
      kept.complexity ≤ found.complexity := by
  intro found member
  obtain ⟨candidates, searched, _⟩ := infer_eq_ok_iff_candidates.mp inferred
  obtain ⟨strict, searchedFewer, isStrict⟩ := exists_candidate inferredFewer member
  obtain ⟨chain, inChains, own, here, inOwn⟩ := (mem_candidatesOf_iff searchedFewer).mp isStrict
  obtain ⟨selectors, tried, layouts, accepts⟩ := (mem_rulesOf_iff here).mp inOwn
  obtain ⟨others, there⟩ := exists_rulesOf_of_candidatesOf searched inChains
  have inOthers := (mem_rulesOf_iff there).mpr ⟨selectors, tried, layouts, accepts.of_le below⟩
  have isCandidate := (mem_candidatesOf_iff searched).mpr ⟨chain, inChains, others, there, inOthers⟩
  exact exists_found isCandidate searched inferred

end Thresholds

end Evidence

/-- A higher bound changes nothing that a lower one finds and adds only rules with more selectors,
no rule is ever replaced during a search, and a lower threshold finds all that a higher one does
with rules that are no more complex. -/
theorem infer_stable {α : Type} [Scalar α] [LE α] [OrderedScores α] (evidence : Evidence α) :
    (∀ (bound more : Nat) (rules further : List (InferredRule α)), bound ≤ more →
      evidence.infer bound = .ok rules → evidence.infer more = .ok further →
      (∀ found ∈ rules, found ∈ further) ∧
        ∀ found ∈ further, found ∉ rules → bound < found.complexity) ∧
    (∀ bound : Nat,
      evidence.infer bound = (evidence.candidates bound).map
        (fun candidates => (candidates.foldl InferredRules.record .empty).values) ∧
      ∀ candidates earlier later : List (InferredRule α),
        evidence.candidates bound = .ok candidates → candidates = earlier ++ later →
        ∀ key kept, (earlier.foldl InferredRules.record .empty).find? key = some kept →
          (candidates.foldl InferredRules.record .empty).find? key = some kept) ∧
    ∀ (bound : Nat) (lower higher : α) (rules fewer : List (InferredRule α)), lower ≤ higher →
      (evidence.withThreshold lower).infer bound = .ok rules →
      (evidence.withThreshold higher).infer bound = .ok fewer →
      ∀ found ∈ fewer, ∃ kept ∈ rules, kept.key = found.key ∧
        kept.complexity ≤ found.complexity := by
  refine ⟨?_, ?_, ?_⟩
  · intro bound more rules further below inferred inferredMore
    exact Evidence.infer_mono_bound below inferred inferredMore
  · intro bound
    refine ⟨Evidence.infer_eq bound, ?_⟩
    intro candidates earlier later searched split key kept held
    exact Evidence.find?_foldl_candidates searched split held
  · intro bound lower higher rules fewer below inferred inferredFewer
    exact Evidence.infer_anti_threshold below inferred inferredFewer

/-- Two apples, up to two and up to three selectors, at one quarter and at one half. -/
theorem infer_stable_apples :
    ∃ rules further more : List (InferredRule RealScore),
      appleEvidence.infer 2 = .ok rules ∧ appleEvidence.infer 3 = .ok further ∧
      (appleEvidence.withThreshold (.real (1 / 4))).infer 3 = .ok more ∧ further ≠ [] ∧
      (∀ found ∈ rules, found ∈ further) ∧
      (∀ found ∈ further, found ∉ rules → 2 < found.complexity) ∧
      (∀ candidates earlier later : List (InferredRule RealScore),
        appleEvidence.candidates 3 = .ok candidates → candidates = earlier ++ later →
        ∀ key kept, (earlier.foldl InferredRules.record .empty).find? key = some kept →
          (candidates.foldl InferredRules.record .empty).find? key = some kept) ∧
      ∀ found ∈ further, ∃ kept ∈ more, kept.key = found.key ∧
        kept.complexity ≤ found.complexity := by
  have agreesBelow : ∀ chain ∈ Evidence.chainsUpTo appleEvidence.schema 2,
      ∃ substitutions, substitutionsOf appleEvidence.schema appleEvidence.world chain.selectors =
        .ok substitutions := by
    intro chain member
    apply appleEvidence_agrees
    rw [Evidence.chainsUpTo_add _ 2 1]
    exact List.mem_append_left _ member
  obtain ⟨rules, inferred⟩ := Evidence.exists_infer agreesBelow
  obtain ⟨further, inferredFurther⟩ := Evidence.exists_infer appleEvidence_agrees
  obtain ⟨more, inferredMore⟩ :
      ∃ more, (appleEvidence.withThreshold (.real (1 / 4))).infer 3 = .ok more :=
    Evidence.exists_infer appleEvidence_agrees
  have below : (.real (1 / 4) : RealScore) ≤ appleEvidence.threshold := by
    apply WithBot.coe_le_coe.mpr
    norm_num
  obtain ⟨bounds, replaced, thresholds⟩ := infer_stable appleEvidence
  obtain ⟨kept, added⟩ := bounds 2 3 rules further (by decide) inferred inferredFurther
  exact ⟨rules, further, more, inferred, inferredFurther, inferredMore,
    appleEvidence_finds inferredFurther, kept, added, (replaced 3).2,
    thresholds 3 _ _ more further below inferredMore inferredFurther⟩

end RelationalLayout
