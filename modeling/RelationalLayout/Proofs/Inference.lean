/-
What a search finds.

Every rule found is one of the rules of the search space, with its score and its
footprints, and no two have the same footprints. Every rule of the space that
scores above the threshold has its footprints among the results, under a rule that
is no more complex.
-/

import RelationalLayout.Proofs.RealScore
import RelationalLayout.Proofs.Search
import RelationalLayout.Proofs.Worklist

namespace RelationalLayout

variable {α : Type}

/-! ### Recording -/

/-- The map holds rules of the list under their keys, and for each rule of the list one with the
same key that is no more complex. -/
structure InferredRules.Keeps (found : InferredRules α) (rules : List (InferredRule α)) : Prop where
  sound : ∀ key inferred, found.find? key = some inferred → inferred.key = key ∧ inferred ∈ rules
  minimal : ∀ inferred ∈ rules, ∃ kept, found.find? inferred.key = some kept ∧
    kept.complexity ≤ inferred.complexity

namespace InferredRules

theorem keeps_empty : Keeps (.empty : InferredRules α) [] where
  sound := fun _ _ impossible => by cases impossible
  minimal := fun _ member => absurd member List.not_mem_nil

theorem keeps_insert {found : InferredRules α} {rules : List (InferredRule α)}
    (keeps : found.Keeps rules) (candidate : InferredRule α)
    (simplest : ∀ earlier, found.find? candidate.key = some earlier →
      candidate.complexity ≤ earlier.complexity) :
    Keeps (found.insert candidate.key candidate) (rules ++ [candidate]) where
  sound := by
    intro key inferred held
    rw [SortedMap.find?_insert] at held
    split at held
    · rename_i same
      cases held
      exact ⟨same.symm, List.mem_append_right rules List.mem_cons_self⟩
    · obtain ⟨sameKey, member⟩ := keeps.sound key inferred held
      exact ⟨sameKey, List.mem_append_left _ member⟩
  minimal := by
    intro inferred member
    rw [SortedMap.find?_insert]
    rcases List.mem_append.mp member with earlier | isNew
    · obtain ⟨kept, held, simpler⟩ := keeps.minimal inferred earlier
      split
      · rename_i same
        rw [same] at held
        exact ⟨candidate, rfl, Nat.le_trans (simplest kept held) simpler⟩
      · exact ⟨kept, held, simpler⟩
    · rw [List.mem_singleton.mp isNew, if_pos rfl]
      exact ⟨candidate, rfl, Nat.le_refl _⟩

theorem keeps_record {found : InferredRules α} {rules : List (InferredRule α)}
    (keeps : found.Keeps rules) (candidate : InferredRule α) :
    (found.record candidate).Keeps (rules ++ [candidate]) := by
  unfold record
  split
  · rename_i absent
    refine keeps_insert keeps candidate (fun earlier held => ?_)
    rw [absent] at held
    cases held
  · rename_i earlier held
    split
    · rename_i simpler
      refine keeps_insert keeps candidate (fun other heldToo => ?_)
      rw [held] at heldToo
      cases heldToo
      exact Nat.le_of_lt simpler
    · rename_i notSimpler
      constructor
      · intro key inferred heldThere
        obtain ⟨sameKey, member⟩ := keeps.sound key inferred heldThere
        exact ⟨sameKey, List.mem_append_left _ member⟩
      · intro inferred member
        rcases List.mem_append.mp member with isEarlier | isNew
        · exact keeps.minimal inferred isEarlier
        · rw [List.mem_singleton.mp isNew]
          exact ⟨earlier, held, Nat.le_of_not_lt notSimpler⟩

theorem keeps_foldl_record {found : InferredRules α} {earlier : List (InferredRule α)}
    (keeps : found.Keeps earlier) (rules : List (InferredRule α)) :
    (rules.foldl record found).Keeps (earlier ++ rules) := by
  induction rules generalizing found earlier with
  | nil =>
      rw [List.append_nil]
      exact keeps
  | cons rule rules ih =>
      rw [List.foldl_cons, List.append_cons]
      exact ih (keeps_record keeps rule)

theorem Keeps.map_key_values {found : InferredRules α} {rules : List (InferredRule α)}
    (keeps : found.Keeps rules) : found.values.map InferredRule.key = found.keys := by
  rw [SortedMap.values, SortedMap.keys, List.map_map]
  refine List.map_congr_left (fun entry member => ?_)
  exact (keeps.sound entry.1 entry.2 (SortedMap.mem_entries_iff.mp member)).1

theorem Keeps.mem_values_iff {found : InferredRules α} {rules : List (InferredRule α)}
    (keeps : found.Keeps rules) {inferred : InferredRule α} :
    inferred ∈ found.values ↔ found.find? inferred.key = some inferred := by
  rw [SortedMap.values, List.mem_map]
  constructor
  · intro given
    obtain ⟨⟨key, value⟩, member, rfl⟩ := given
    have held := SortedMap.mem_entries_iff.mp member
    rw [(keeps.sound key value held).1]
    exact held
  · intro held
    exact ⟨(inferred.key, inferred), SortedMap.mem_entries_iff.mpr held, rfl⟩

end InferredRules

/-! ### All chains -/

namespace Evidence

variable [Scalar α] {evidence : Evidence α}

def recordChains (evidence : Evidence α) (found : InferredRules α) :
    List TypedChain → Except CompileError (InferredRules α)
  | [] => .ok found
  | chain :: rest => do
      let rules ← evidence.rulesOf chain
      recordChains evidence (rules.foldl InferredRules.record found) rest

theorem recordChains_eq_foldlM (found : InferredRules α) (chains : List TypedChain) :
    evidence.recordChains found chains = chains.foldlM evidence.recordChain found := by
  induction chains generalizing found with
  | nil => rfl
  | cons chain chains ih =>
      rw [recordChains, List.foldlM_cons, recordChain]
      cases evidence.rulesOf chain with
      | error fault => rfl
      | ok own => exact ih (own.foldl InferredRules.record found)

theorem recordLength_eq (found : InferredRules α) (length : Nat) :
    evidence.recordLength found length =
      evidence.recordChains found (TypedChain.ofLength evidence.schema length) := by
  rw [recordLength, SearchState.explore_root, recordChains_eq_foldlM]

theorem recordChains_eq_ok {found next : InferredRules α} {chains : List TypedChain}
    (recorded : evidence.recordChains found chains = .ok next) :
    ∃ rules : List (InferredRule α), next = rules.foldl InferredRules.record found ∧
      (∀ inferred ∈ rules, ∃ chain ∈ chains, ∃ own,
        evidence.rulesOf chain = .ok own ∧ inferred ∈ own) ∧
      ∀ chain ∈ chains, ∃ own, evidence.rulesOf chain = .ok own ∧
        ∀ inferred ∈ own, inferred ∈ rules := by
  induction chains generalizing found with
  | nil =>
      cases recorded
      refine ⟨[], rfl, ?_, ?_⟩
      · intro inferred member
        cases member
      · intro chain member
        cases member
  | cons chain chains ih =>
      obtain ⟨own, here, recorded⟩ := bind_eq_ok_iff.mp recorded
      obtain ⟨later, folded, fromLater, ofLater⟩ := ih recorded
      refine ⟨own ++ later, ?_, ?_, ?_⟩
      · rw [List.foldl_append]
        exact folded
      · intro inferred member
        rcases List.mem_append.mp member with isOwn | isLater
        · exact ⟨chain, List.mem_cons_self, own, here, isOwn⟩
        · obtain ⟨other, inChains, rules, found, inRules⟩ := fromLater inferred isLater
          exact ⟨other, List.mem_cons_of_mem _ inChains, rules, found, inRules⟩
      · intro other member
        rcases List.mem_cons.mp member with rfl | inChains
        · exact ⟨own, here, fun inferred => List.mem_append_left later⟩
        · obtain ⟨rules, found, kept⟩ := ofLater other inChains
          exact ⟨rules, found, fun inferred inRules =>
            List.mem_append_right own (kept inferred inRules)⟩

theorem recordChains_append (found : InferredRules α) (chains later : List TypedChain) :
    evidence.recordChains found (chains ++ later) =
      (evidence.recordChains found chains).bind (fun next => evidence.recordChains next later) := by
  induction chains generalizing found with
  | nil => rfl
  | cons chain chains ih =>
      rw [List.cons_append, recordChains, recordChains]
      cases evidence.rulesOf chain with
      | error fault => rfl
      | ok own => exact ih (own.foldl InferredRules.record found)

theorem recordLengths_eq (found : InferredRules α) (length more : Nat) :
    evidence.recordLengths found length more =
      evidence.recordChains found
        ((List.range' length more).flatMap (TypedChain.ofLength evidence.schema)) := by
  induction more generalizing found length with
  | zero => rfl
  | succ more ih =>
      rw [recordLengths, recordLength_eq, List.range'_succ, List.flatMap_cons, recordChains_append]
      cases evidence.recordChains found (TypedChain.ofLength evidence.schema length) with
      | error fault => rfl
      | ok next => exact ih next (length + 1)

end Evidence

/-! ### The search space -/

/-- The rules of up to a number of selectors: variables of the pool with declared signatures,
well-typed predicate selectors over them, and a terminal over them that gives no separation. -/
def Rule.InSearchSpace (schema : Schema) (bound : Nat) (rule : Rule) : Prop :=
  ∃ types predicates, types ≠ [] ∧ rule.selectors = types.map Selector.ofEntry ++ predicates ∧
    rule.selectors.length ≤ bound ∧
    IsTyped schema (TypedChain.variablePool rule.selectors.length) types predicates ∧
    Template.Over (types.map Prod.fst) rule.terminal

section Names

variable {schema : Schema} {pool : List String} {types : List TypedVariable}
  {predicates : List Selector} {selector : Selector}

theorem Selector.mem_names_of_fits (fits : selector.Fits schema types) {name : String}
    (occurs : name ∈ selector.variableNames) : name ∈ types.map Prod.fst := by
  obtain ⟨_, _, arguments, typed, rfl⟩ := fits
  obtain ⟨signature, _, entry⟩ := exists_right_of_forall₂ typed occurs
  exact List.mem_map_of_mem entry

theorem TypedChain.mem_variableNames_iff (typed : IsTyped schema pool types predicates)
    {name : String} :
    name ∈ types.map Prod.fst ↔
      ∃ selector ∈ types.map Selector.ofEntry ++ predicates, name ∈ selector.variableNames := by
  constructor
  · intro member
    obtain ⟨entry, inTypes, rfl⟩ := List.mem_map.mp member
    exact ⟨.ofEntry entry, List.mem_append_left _ (List.mem_map_of_mem inTypes),
      List.mem_cons_self⟩
  · intro given
    obtain ⟨selector, member, occurs⟩ := given
    rcases List.mem_append.mp member with isType | isPredicate
    · obtain ⟨entry, inTypes, rfl⟩ := List.mem_map.mp isType
      rw [List.mem_singleton.mp occurs]
      exact List.mem_map_of_mem inTypes
    · exact Selector.mem_names_of_fits (typed.fits selector isPredicate) occurs

theorem Template.Over.operands_subset {names : List String} {terminal : Template}
    (inScope : Template.Over names terminal) : ∀ operand ∈ terminal.operands, operand ∈ names := by
  cases inScope with
  | unary option known => exact List.forall_mem_singleton.mpr known
  | binary option knownFirst knownSecond different =>
      exact List.forall_mem_cons.mpr ⟨knownFirst, List.forall_mem_singleton.mpr knownSecond⟩

end Names

namespace Evidence

variable [Scalar α] {evidence : Evidence α} {bound : Nat}

def chainsUpTo (schema : Schema) (bound : Nat) : List TypedChain :=
  (List.range' 1 bound).flatMap (TypedChain.ofLength schema)

theorem mem_chainsUpTo_iff {schema : Schema} {chain : TypedChain} :
    chain ∈ chainsUpTo schema bound ↔
      ∃ types predicates, types ≠ [] ∧ types.length + predicates.length ≤ bound ∧
        IsTyped schema (TypedChain.variablePool (types.length + predicates.length)) types
          predicates ∧
        chain = .ofParts types predicates := by
  simp only [chainsUpTo, List.mem_flatMap, List.mem_range'_1]
  constructor
  · intro given
    obtain ⟨length, ⟨positive, below⟩, member⟩ := given
    obtain ⟨types, predicates, some, same, typed, rfl⟩ :=
      (TypedChain.mem_ofLength_iff (Nat.ne_of_gt positive)).mp member
    refine ⟨types, predicates, some, ?_, same ▸ typed, rfl⟩
    omega
  · intro given
    obtain ⟨types, predicates, some, below, typed, rfl⟩ := given
    have positive := List.length_pos_of_ne_nil some
    refine ⟨types.length + predicates.length, ?_, ?_⟩
    · omega
    · exact (TypedChain.mem_ofLength_iff (by omega)).mpr
        ⟨types, predicates, some, rfl, typed, rfl⟩

theorem infer_eq_ok_iff {rules : List (InferredRule α)} :
    evidence.infer bound = .ok rules ↔ ∃ final,
      evidence.recordChains .empty (chainsUpTo evidence.schema bound) = .ok final ∧
        final.values = rules := by
  rw [infer, recordLengths_eq, chainsUpTo]
  cases evidence.recordChains .empty _ with
  | error fault => simp only [Except.map, reduceCtorEq, false_and, exists_false]
  | ok final => simp only [Except.map, Except.ok.injEq, exists_eq_left']

theorem mem_keys_ofParts {types : List TypedVariable} (predicates : List Selector)
    (distinct : (types.map Prod.fst).Nodup) {name : String} :
    name ∈ (TypedChain.ofParts types predicates).env.keys ↔ name ∈ types.map Prod.fst :=
  SortedMap.mem_keys_ofList distinct

theorem exists_recordChains {chains : List TypedChain} (found : InferredRules α)
    (searched : ∀ chain ∈ chains, ∃ own, evidence.rulesOf chain = .ok own) :
    ∃ final, evidence.recordChains found chains = .ok final := by
  induction chains generalizing found with
  | nil => exact ⟨found, rfl⟩
  | cons chain chains ih =>
      obtain ⟨own, here⟩ := searched chain List.mem_cons_self
      rw [recordChains, here]
      exact ih (own.foldl InferredRules.record found)
        (fun other member => searched other (List.mem_cons_of_mem _ member))

theorem exists_infer
    (agree : ∀ chain ∈ chainsUpTo evidence.schema bound,
      ∃ substitutions, substitutionsOf evidence.schema evidence.world chain.selectors =
        .ok substitutions) :
    ∃ rules, evidence.infer bound = .ok rules := by
  have searched : ∀ chain ∈ chainsUpTo evidence.schema bound,
      ∃ own, evidence.rulesOf chain = .ok own := by
    intro chain member
    obtain ⟨substitutions, found⟩ := agree chain member
    obtain ⟨types, predicates, _, _, typed, rfl⟩ := mem_chainsUpTo_iff.mp member
    exact exists_rulesOf typed.distinct found
  obtain ⟨final, recorded⟩ := exists_recordChains .empty searched
  exact ⟨final.values, infer_eq_ok_iff.mpr ⟨final, recorded, rfl⟩⟩

theorem inSearchSpace_of_mem_rulesOf {chain : TypedChain} {own : List (InferredRule α)}
    {inferred : InferredRule α} (searched : chain ∈ chainsUpTo evidence.schema bound)
    (found : evidence.rulesOf chain = .ok own) (member : inferred ∈ own) :
    inferred.rule.InSearchSpace evidence.schema bound ∧ evidence.Supports inferred := by
  obtain ⟨types, predicates, some, below, typed, rfl⟩ := mem_chainsUpTo_iff.mp searched
  obtain ⟨selectors, tried, supports⟩ := rulesOf_sound found member
  have length : inferred.rule.selectors.length = types.length + predicates.length := by
    rw [selectors, TypedChain.ofParts, List.length_append, List.length_map]
  refine ⟨⟨types, predicates, some, selectors, length ▸ below, length ▸ typed, ?_⟩, supports⟩
  exact (over_of_mem_templatesOver tried).mono
    (fun _ known => (mem_keys_ofParts _ typed.distinct).mp known)

theorem exists_mem_rulesOf [ScoringLaws α] {candidate : InferredRule α}
    (nonnegative : Scalar.isNegative evidence.threshold = false)
    (searched : ∀ chain ∈ chainsUpTo evidence.schema bound, ∃ own, evidence.rulesOf chain = .ok own)
    (inSpace : candidate.rule.InSearchSpace evidence.schema bound)
    (supports : evidence.Supports candidate) :
    ∃ chain ∈ chainsUpTo evidence.schema bound, ∃ own, evidence.rulesOf chain = .ok own ∧
      ∃ inferred ∈ own, inferred.key = candidate.key ∧
        inferred.complexity = candidate.complexity := by
  obtain ⟨types, predicates, some, selectors, below, typed, inScope⟩ := inSpace
  have length : candidate.rule.selectors.length = types.length + predicates.length := by
    rw [selectors, List.length_append, List.length_map]
  rw [length] at below typed
  have member : TypedChain.ofParts types predicates ∈ chainsUpTo evidence.schema bound :=
    mem_chainsUpTo_iff.mpr ⟨types, predicates, some, below, typed, rfl⟩
  obtain ⟨own, found⟩ := searched _ member
  have overKeys := inScope.mono (fun _ known =>
    (mem_keys_ofParts predicates typed.distinct).mpr known)
  obtain ⟨tried, sameChain, isTried, triedSupports, sameKey⟩ := exists_tried overKeys supports
  have triedSelectors : tried.rule.selectors = (TypedChain.ofParts types predicates).selectors := by
    rw [Rule.selectors, sameChain]
    exact selectors
  obtain ⟨inferred, inOwn, sameRule⟩ := rulesOf_complete nonnegative found triedSelectors isTried
    (over_of_mem_templatesOver isTried) triedSupports
  have inferredSupports := (rulesOf_sound found inOwn).2.2
  refine ⟨_, member, own, found, inferred, inOwn, ?_, ?_⟩
  · rw [inferredSupports.key_eq triedSupports sameRule, sameKey]
  · rw [InferredRule.complexity, InferredRule.complexity, Rule.complexity, Rule.complexity,
      Rule.depth, Rule.depth, sameRule, sameChain]

end Evidence

/-- Inference is sound, lists each set of footprints once and in order, and has the footprints of
every rule of the search space that scores above the threshold, under a rule that is no more
complex. -/
theorem infer_exact {α : Type} [Scalar α] [ScoringLaws α] {evidence : Evidence α} {bound : Nat}
    {rules : List (InferredRule α)}
    (nonnegative : Scalar.isNegative evidence.threshold = false)
    (inferred : evidence.infer bound = .ok rules) :
    (∀ found ∈ rules,
        found.rule.InSearchSpace evidence.schema bound ∧ evidence.Supports found) ∧
      rules.Pairwise (fun earlier later => earlier.key < later.key) ∧
      ∀ candidate : InferredRule α, candidate.rule.InSearchSpace evidence.schema bound →
        evidence.Supports candidate →
        ∃ found ∈ rules, found.key = candidate.key ∧ found.complexity ≤ candidate.complexity := by
  obtain ⟨final, recorded, rfl⟩ := Evidence.infer_eq_ok_iff.mp inferred
  obtain ⟨all, folded, fromChains, ofChains⟩ := Evidence.recordChains_eq_ok recorded
  have keeps : final.Keeps all := folded ▸ InferredRules.keeps_foldl_record
    InferredRules.keeps_empty all
  refine ⟨?_, ?_, ?_⟩
  · intro found member
    have held := (keeps.mem_values_iff).mp member
    obtain ⟨chain, searched, own, rulesFound, inOwn⟩ :=
      fromChains found (keeps.sound _ _ held).2
    exact Evidence.inSearchSpace_of_mem_rulesOf searched rulesFound inOwn
  · have increasing : final.keys.Pairwise (fun earlier later => earlier < later) :=
      List.pairwise_map.mpr final.increasing
    rw [← keeps.map_key_values] at increasing
    exact List.pairwise_map.mp increasing
  · intro candidate inSpace supports
    have searched : ∀ chain ∈ Evidence.chainsUpTo evidence.schema bound,
        ∃ own, evidence.rulesOf chain = .ok own := fun chain member =>
      have ⟨own, found, _⟩ := ofChains chain member
      ⟨own, found⟩
    obtain ⟨chain, member, own, found, simplest, inOwn, sameKey, sameComplexity⟩ :=
      Evidence.exists_mem_rulesOf nonnegative searched inSpace supports
    obtain ⟨ownAgain, foundAgain, kept⟩ := ofChains chain member
    cases found.symm.trans foundAgain
    obtain ⟨result, held, simpler⟩ := keeps.minimal simplest (kept simplest inOwn)
    have resultKey := (keeps.sound _ _ held).1
    refine ⟨result, keeps.mem_values_iff.mpr (resultKey ▸ held), resultKey.trans sameKey, ?_⟩
    rw [← sameComplexity]
    exact simpler

/-! ### Two apples -/

/-- One apple is redder than another and is drawn above it. -/
noncomputable def appleEvidence : Evidence RealScore :=
  { schema :=
      { signatures := ["Apple"]
        predicates := [{ name := "redder", signatures := ["Apple", "Apple"] }]
        hierarchy := [] }
    world :=
      { atoms := [{ name := "a", signature := "Apple" }, { name := "b", signature := "Apple" }]
        facts := [{ predicate := "redder", arguments := ["a", "b"] }] }
    diagram := .ofList
      [("a", { x := .real 0, y := .real 100 }), ("b", { x := .real 0, y := .real 0 })]
    threshold := .real (1 / 2) }

def redderAbove : Rule :=
  { chain :=
      { first := .signature "v0" "Apple"
        rest := [.signature "v1" "Apple", .predicate "redder" ["v0", "v1"]] }
    terminal := .binary .above .unspecified "v0" "v1" }

theorem redderAbove_inSearchSpace : redderAbove.InSearchSpace appleEvidence.schema 3 := by
  refine ⟨[("v0", "Apple"), ("v1", "Apple")], [.predicate "redder" ["v0", "v1"]],
    List.cons_ne_nil _ _, rfl, by decide, ?_, ?_⟩
  · refine ⟨by decide, by decide +kernel, by decide, ?_⟩
    intro selector member
    refine ⟨{ name := "redder", signatures := ["Apple", "Apple"] }, List.mem_cons_self, ["v0", "v1"],
      ?_, List.mem_singleton.mp member⟩
    exact .cons (by decide) (.cons (by decide) .nil)
  · exact .binary .above (by decide) (by decide) (by decide)

noncomputable def redderAboveScore : ℝ := 1 / (1 + Real.exp (-(1 / 10 * (100 - 0 - 25))))

theorem redderAbove_supported : ∃ footprints, appleEvidence.Supports
    { rule := redderAbove, confidence := .real redderAboveScore, footprints := footprints } := by
  have compiled : redderAbove.compile appleEvidence.schema appleEvidence.world 0 =
      .ok [.binary .above .unspecified "a" "b"] := by
    decide +kernel
  have positive : 0 < redderAboveScore := by
    unfold redderAboveScore
    positivity
  refine ⟨_, ?_, ?_, _, compiled, rfl⟩
  · have score : Layout.scoreOrZero appleEvidence.diagram
        (.binary .above .unspecified "a" "b" : GroundLayout) = .real redderAboveScore := by
      have curve : Layout.scoreOrZero appleEvidence.diagram
          (.binary .above .unspecified "a" "b" : GroundLayout) = .real ((1 : ℕ) / ((1 : ℕ) +
            Real.exp (-((1 : ℕ) / (10 : ℕ) * (100 - 0 - (25 : ℕ)))))) := by
        rfl
      rw [curve, redderAboveScore]
      norm_num
    refine Rule.confidence_eq_ok_iff.mpr ⟨_, compiled, ?_⟩
    rw [List.map_singleton, score]
    exact RealScore.geometricMean_singleton positive
  · have below : Real.exp (-(1 / 10 * (100 - 0 - 25))) < 1 := by
      rw [Real.exp_lt_one_iff]
      norm_num
    have half : 1 / 2 < redderAboveScore := by
      unfold redderAboveScore
      rw [div_lt_div_iff_of_pos_left] <;> linarith [Real.exp_pos (-(1 / 10 * (100 - 0 - 25)))]
    exact decide_eq_true half

theorem appleEvidence_agrees : ∀ chain ∈ Evidence.chainsUpTo appleEvidence.schema 3,
    ∃ substitutions, substitutionsOf appleEvidence.schema appleEvidence.world chain.selectors =
      .ok substitutions := by
  have agrees : ((Evidence.chainsUpTo appleEvidence.schema 3).all (fun chain =>
      (substitutionsOf appleEvidence.schema appleEvidence.world chain.selectors).toBool)) = true := by
    decide +kernel
  intro chain member
  have found := List.all_eq_true.mp agrees chain member
  cases substituted : substitutionsOf appleEvidence.schema appleEvidence.world chain.selectors with
  | error fault =>
      rw [substituted] at found
      cases found
  | ok substitutions => exact ⟨substitutions, rfl⟩

theorem infer_exact_apples :
    ∃ rules, appleEvidence.infer 3 = .ok rules ∧ rules ≠ [] ∧
      (∀ found ∈ rules,
        found.rule.InSearchSpace appleEvidence.schema 3 ∧ appleEvidence.Supports found) ∧
      rules.Pairwise (fun earlier later => earlier.key < later.key) ∧
      ∀ candidate : InferredRule RealScore, candidate.rule.InSearchSpace appleEvidence.schema 3 →
        appleEvidence.Supports candidate →
        ∃ found ∈ rules, found.key = candidate.key ∧ found.complexity ≤ candidate.complexity := by
  obtain ⟨rules, inferred⟩ := Evidence.exists_infer appleEvidence_agrees
  have nonnegative : Scalar.isNegative appleEvidence.threshold = false := by
    have notBelow : ¬(1 / 2 : ℝ) < (0 : ℕ) := by norm_num
    exact decide_eq_false notBelow
  have conclusion := infer_exact nonnegative inferred
  obtain ⟨footprints, supported⟩ := redderAbove_supported
  obtain ⟨found, member, _⟩ := conclusion.2.2 _ redderAbove_inSearchSpace supported
  exact ⟨rules, inferred, List.ne_nil_of_mem member, conclusion⟩

end RelationalLayout
