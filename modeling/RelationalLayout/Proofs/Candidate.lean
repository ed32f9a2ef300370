/-
The candidates of a search.

A search accepts a rule when each of its instances has a score and their mean exceeds
the threshold. All accepted rules are recorded in one order, in which the chains never
get shorter, so that what is recorded once stays.
-/

import RelationalLayout.Proofs.Inference

namespace RelationalLayout

variable {α : Type} [Scalar α]

/-! ### Accepted rules -/

namespace Evidence

variable {evidence : Evidence α}

theorem scoreAll_eq_some_iff {terminal : Template} {substitutions : List Substitution}
    {pairs : List (GroundLayout × α)} :
    evidence.scoreAll terminal substitutions = .ok (some pairs) ↔
      List.Forall₂ (fun substitution pair =>
        terminal.instantiate substitution "0" = .ok pair.1 ∧
          evidence.scoreOf? pair.1 = some pair.2) substitutions pairs := by
  induction substitutions generalizing pairs with
  | nil =>
      rw [scoreAll, List.forall₂_nil_left_iff]
      simp only [Except.ok.injEq, Option.some.injEq, eq_comm]
  | cons substitution rest ih =>
      rw [scoreAll, List.forall₂_cons_left_iff]
      simp only [bind_eq_ok_iff]
      constructor
      · intro given
        obtain ⟨layout, instantiated, given⟩ := given
        cases scored : evidence.scoreOf? layout with
        | none =>
            rw [scored] at given
            cases given
        | some confidence =>
            rw [scored] at given
            obtain ⟨later, remaining, given⟩ := bind_eq_ok_iff.mp given
            cases later with
            | none => cases given
            | some later =>
                cases given
                exact ⟨(layout, confidence), later, ⟨instantiated, scored⟩, ih.mp remaining, rfl⟩
      · intro given
        obtain ⟨⟨layout, confidence⟩, later, ⟨instantiated, scored⟩, remaining, rfl⟩ := given
        refine ⟨layout, instantiated, ?_⟩
        rw [scored]
        exact bind_eq_ok_iff.mpr ⟨some later, ih.mpr remaining, rfl⟩

/-- A rule whose chain matches something, with layouts that all have a score, is accepted for
their mean. -/
structure Accepts (evidence : Evidence α) (inferred : InferredRule α)
    (layouts : List GroundLayout) : Prop where
  compiled : inferred.rule.compile evidence.schema evidence.world 0 = .ok layouts
  matched : layouts ≠ []
  scored : ∀ layout ∈ layouts, evidence.scoreOf? layout ≠ none
  confidence : inferred.confidence =
    geometricMean (layouts.map (Layout.scoreOrZero evidence.diagram))
  exceeds : Scalar.exceeds inferred.confidence evidence.threshold = true
  footprints : inferred.footprints = GroundLayout.canonicalize layouts

theorem exists_pairs_iff {terminal : Template} {substitutions : List Substitution}
    {layouts : List GroundLayout} :
    (∃ pairs, evidence.scoreAll terminal substitutions = .ok (some pairs) ∧
        pairs.map Prod.fst = layouts) ↔
      terminal.instantiateAll "0" substitutions = .ok layouts ∧
        ∀ layout ∈ layouts, evidence.scoreOf? layout ≠ none := by
  simp only [scoreAll_eq_some_iff, Template.instantiateAll_eq_ok_iff]
  induction substitutions generalizing layouts with
  | nil =>
      simp only [List.forall₂_nil_left_iff]
      constructor
      · intro given
        obtain ⟨_, rfl, rfl⟩ := given
        exact ⟨rfl, fun layout impossible => by cases impossible⟩
      · intro given
        exact ⟨[], rfl, given.1.symm⟩
  | cons substitution rest ih =>
      simp only [List.forall₂_cons_left_iff]
      constructor
      · intro given
        obtain ⟨_, ⟨⟨layout, confidence⟩, later, ⟨instantiated, scored⟩, remaining, rfl⟩, rfl⟩ :=
          given
        obtain ⟨laterInstantiated, laterScored⟩ := ih.mp ⟨later, remaining, rfl⟩
        refine ⟨⟨layout, later.map Prod.fst, instantiated, laterInstantiated, rfl⟩, ?_⟩
        rw [List.map_cons, List.forall_mem_cons, scored]
        exact ⟨Option.some_ne_none confidence, laterScored⟩
      · intro given
        obtain ⟨⟨layout, later, instantiated, laterInstantiated, rfl⟩, scored⟩ := given
        obtain ⟨here, laterScored⟩ := List.forall_mem_cons.mp scored
        obtain ⟨confidence, found⟩ := Option.ne_none_iff_exists'.mp here
        obtain ⟨pairs, remaining, rfl⟩ := ih.mpr ⟨laterInstantiated, laterScored⟩
        exact ⟨(layout, confidence) :: pairs,
          ⟨_, pairs, ⟨instantiated, found⟩, remaining, rfl⟩, rfl⟩

variable {chain : Chain} {substitutions : List Substitution} {terminal : Template}

theorem accept?_eq_some_iff {inferred : InferredRule α}
    (found : substitutionsOf evidence.schema evidence.world chain.toList = .ok substitutions)
    (matched : substitutions ≠ []) :
    evidence.accept? chain substitutions terminal = .ok (some inferred) ↔
      inferred.rule = { chain := chain, terminal := terminal } ∧
        ∃ layouts, evidence.Accepts inferred layouts := by
  have compile_iff (layouts : List GroundLayout) :
      Rule.compile evidence.schema evidence.world 0 { chain := chain, terminal := terminal } =
        .ok layouts ↔ terminal.instantiateAll "0" substitutions = .ok layouts := by
    rw [Rule.compile_eq_ok_iff]
    constructor
    · intro given
      obtain ⟨_, foundToo, instantiated⟩ := given
      cases found.symm.trans foundToo
      exact instantiated
    · exact fun instantiated => ⟨substitutions, found, instantiated⟩
  constructor
  · intro accepted
    obtain ⟨result, scoredAll, accepted⟩ := bind_eq_ok_iff.mp accepted
    cases result with
    | none => cases accepted
    | some pairs =>
        obtain ⟨instantiated, scored⟩ := exists_pairs_iff.mp ⟨pairs, scoredAll, rfl⟩
        have scores := (scoreAll_eq_ok scoredAll).2
        simp only at accepted
        split at accepted
        · rename_i exceeds
          cases accepted
          refine ⟨rfl, pairs.map Prod.fst, (compile_iff _).mpr instantiated, ?_, scored, ?_,
            exceeds, rfl⟩
          · rw [Template.instantiateAll_eq_ok_iff] at instantiated
            apply List.ne_nil_of_length_pos
            rw [← instantiated.length_eq]
            exact List.length_pos_of_ne_nil matched
          · rw [← scores]
        · cases accepted
  · intro given
    obtain ⟨same, layouts, accepts⟩ := given
    have compiled := accepts.compiled
    rw [same, compile_iff] at compiled
    obtain ⟨pairs, scoredAll, rfl⟩ := exists_pairs_iff.mpr ⟨compiled, accepts.scored⟩
    have scores := (scoreAll_eq_ok scoredAll).2
    have exceeds := accepts.exceeds
    rw [accepts.confidence, ← scores] at exceeds
    rw [accept?, scoredAll]
    simp only [bind, Except.bind, exceeds, if_true, Except.ok.injEq, Option.some.injEq]
    obtain ⟨rule, confidence, footprints⟩ := inferred
    have sameConfidence := accepts.confidence
    have sameFootprints := accepts.footprints
    simp only at same sameConfidence sameFootprints
    rw [same, sameConfidence, sameFootprints, scores]

theorem mem_acceptAll_iff {terminals : List Template} {rules : List (InferredRule α)}
    (accepted : evidence.acceptAll chain substitutions terminals = .ok rules)
    {inferred : InferredRule α} :
    inferred ∈ rules ↔ ∃ terminal ∈ terminals,
      evidence.accept? chain substitutions terminal = .ok (some inferred) := by
  obtain ⟨fromTerminals, ofTerminals⟩ := acceptAll_eq_ok accepted
  constructor
  · exact fromTerminals inferred
  · intro given
    obtain ⟨terminal, member, found⟩ := given
    obtain ⟨result, here, kept⟩ := ofTerminals terminal member
    cases here.symm.trans found
    exact kept inferred rfl

theorem mem_rulesOf_iff {typedChain : TypedChain} {own : List (InferredRule α)}
    (found : evidence.rulesOf typedChain = .ok own) {inferred : InferredRule α} :
    inferred ∈ own ↔
      inferred.rule.selectors = typedChain.selectors ∧
        inferred.rule.terminal ∈ templatesOver typedChain.env.keys ∧
        ∃ layouts, evidence.Accepts inferred layouts := by
  rw [rulesOf] at found
  cases whole : Chain.ofList? typedChain.selectors with
  | none =>
      rw [whole] at found
      cases found
      refine iff_of_false List.not_mem_nil ?_
      intro given
      rw [Chain.ofList?_eq_some_iff.mpr given.1] at whole
      cases whole
  | some chain =>
      rw [whole] at found
      have selectors := Chain.ofList?_eq_some_iff.mp whole
      have sameChain : inferred.rule.selectors = typedChain.selectors ↔
          inferred.rule.chain = chain := by
        rw [Rule.selectors, ← Chain.ofList?_eq_some_iff, whole, Option.some.injEq, eq_comm]
      cases substituted : substitutionsOf evidence.schema evidence.world typedChain.selectors with
      | error fault =>
          rw [substituted] at found
          cases found
      | ok substitutions =>
          rw [substituted] at found
          cases substitutions with
          | nil =>
              cases found
              refine iff_of_false List.not_mem_nil ?_
              intro given
              obtain ⟨same, _, layouts, accepts⟩ := given
              obtain ⟨_, foundToo, instantiated⟩ := Rule.compile_eq_ok_iff.mp accepts.compiled
              rw [same, substituted] at foundToo
              cases foundToo
              cases instantiated
              exact accepts.matched rfl
          | cons first rest =>
              rw [← selectors] at substituted
              rw [mem_acceptAll_iff found]
              simp only [accept?_eq_some_iff substituted (List.cons_ne_nil first rest), sameChain]
              constructor
              · intro given
                obtain ⟨terminal, tried, same, accepts⟩ := given
                rw [same]
                exact ⟨rfl, tried, accepts⟩
              · intro given
                obtain ⟨same, tried, accepts⟩ := given
                exact ⟨inferred.rule.terminal, tried, by rw [← same], accepts⟩

/-- Any accepted rule is tried itself, or its mirror is, which says the same. -/
theorem Accepts.exists_tried [ScoringLaws α] {candidate : InferredRule α}
    {layouts : List GroundLayout} {names : List String}
    (accepts : evidence.Accepts candidate layouts)
    (inScope : Template.Over names candidate.rule.terminal) :
    ∃ tried : InferredRule α, tried.rule.chain = candidate.rule.chain ∧
      tried.rule.terminal ∈ templatesOver names ∧ (∃ others, evidence.Accepts tried others) ∧
      tried.key = candidate.key := by
  obtain ⟨⟨chain, terminal⟩, score, footprints⟩ := candidate
  cases inScope with
  | unary option known =>
      exact ⟨_, rfl, mem_templatesOver_unary option known, ⟨layouts, accepts⟩, rfl⟩
  | @binary option first second knownFirst knownSecond different =>
      rcases mem_templatesOver_or_mirror option knownFirst knownSecond different with
        tried | ⟨mirror, mirrored, tried⟩
      · exact ⟨_, rfl, tried, ⟨layouts, accepts⟩, rfl⟩
      · obtain ⟨substitutions, found, instantiated⟩ := Rule.compile_eq_ok_iff.mp accepts.compiled
        obtain ⟨mirrors, mirrorsInstantiated, sameFootprints, sameScores⟩ :=
          instantiateAll_mirror evidence.diagram mirrored instantiated
        let swapped : Rule :=
          { chain := chain, terminal := .binary mirror .unspecified second first }
        refine ⟨{ rule := swapped, confidence := score, footprints := footprints }, rfl, tried,
          ⟨mirrors, ?_⟩, rfl⟩
        constructor
        · exact Rule.compile_eq_ok_iff.mpr ⟨substitutions, found, mirrorsInstantiated⟩
        · intro none
          rw [none, List.map_nil] at sameScores
          exact accepts.matched (List.map_eq_nil_iff.mp sameScores.symm)
        · intro layout member unscored
          rw [Template.instantiateAll_eq_ok_iff] at mirrorsInstantiated
          obtain ⟨substitution, _, here⟩ := exists_left_of_forall₂ mirrorsInstantiated member
          obtain ⟨_, _, _, same, unsupported⟩ := not_supported_of_scoreOf?_eq_none
            (.binary mirror knownSecond knownFirst different.symm) here unscored
          cases same
          -- Options that cannot be scored have no mirror, and none is the mirror of another one.
          cases option <;> cases mirrored <;> cases unsupported
        · exact accepts.confidence.trans (congrArg geometricMean sameScores.symm)
        · exact accepts.exceeds
        · exact accepts.footprints.trans sameFootprints.symm

theorem exists_substitutionsOf_of_rulesOf {typedChain : TypedChain} {own : List (InferredRule α)}
    (found : evidence.rulesOf typedChain = .ok own) (some : typedChain.selectors ≠ []) :
    ∃ substitutions,
      substitutionsOf evidence.schema evidence.world typedChain.selectors = .ok substitutions := by
  cases substituted : substitutionsOf evidence.schema evidence.world typedChain.selectors with
  | ok substitutions => exact ⟨substitutions, rfl⟩
  | error fault =>
      rw [rulesOf, substituted] at found
      cases selectors : typedChain.selectors with
      | nil => exact absurd selectors some
      | cons first rest =>
          rw [selectors] at found
          cases found

/-! ### The order of candidates -/

def candidatesOf (evidence : Evidence α) :
    List TypedChain → Except CompileError (List (InferredRule α))
  | [] => .ok []
  | chain :: rest => do
      let own ← evidence.rulesOf chain
      .ok (own ++ (← candidatesOf evidence rest))

def candidates (evidence : Evidence α) (bound : Nat) :
    Except CompileError (List (InferredRule α)) :=
  evidence.candidatesOf (chainsUpTo evidence.schema bound)

theorem recordChains_eq (found : InferredRules α) (chains : List TypedChain) :
    evidence.recordChains found chains =
      (evidence.candidatesOf chains).map (List.foldl InferredRules.record found) := by
  induction chains generalizing found with
  | nil => rfl
  | cons chain chains ih =>
      rw [recordChains, candidatesOf]
      cases evidence.rulesOf chain with
      | error fault => rfl
      | ok own =>
          simp only [bind, Except.bind, ih]
          cases evidence.candidatesOf chains with
          | error fault => rfl
          | ok later => simp only [Except.map, List.foldl_append]

/-- The results of a search are its candidates, recorded one after the other. -/
theorem infer_eq (bound : Nat) :
    evidence.infer bound = (evidence.candidates bound).map
      (fun candidates => (candidates.foldl InferredRules.record .empty).values) := by
  rw [infer, recordLengths_eq, recordChains_eq, candidates, chainsUpTo]
  cases evidence.candidatesOf _ <;> rfl

theorem infer_eq_ok_iff_candidates {bound : Nat} {rules : List (InferredRule α)} :
    evidence.infer bound = .ok rules ↔ ∃ candidates, evidence.candidates bound = .ok candidates ∧
      (candidates.foldl InferredRules.record .empty).values = rules := by
  rw [infer_eq]
  cases evidence.candidates bound with
  | error fault => simp only [Except.map, reduceCtorEq, false_and, exists_false]
  | ok candidates => simp only [Except.map, Except.ok.injEq, exists_eq_left']

theorem mem_candidatesOf_iff {chains : List TypedChain} {candidates : List (InferredRule α)}
    (found : evidence.candidatesOf chains = .ok candidates) {inferred : InferredRule α} :
    inferred ∈ candidates ↔
      ∃ chain ∈ chains, ∃ own, evidence.rulesOf chain = .ok own ∧ inferred ∈ own := by
  induction chains generalizing candidates with
  | nil =>
      cases found
      simp only [List.not_mem_nil, false_and, exists_false]
  | cons chain chains ih =>
      obtain ⟨own, here, found⟩ := bind_eq_ok_iff.mp found
      obtain ⟨later, remaining, found⟩ := bind_eq_ok_iff.mp found
      cases found
      simp only [List.mem_append, ih remaining, List.mem_cons, exists_eq_or_imp, here,
        Except.ok.injEq, exists_eq_left']

theorem exists_rulesOf_of_candidatesOf {chains : List TypedChain}
    {candidates : List (InferredRule α)} (found : evidence.candidatesOf chains = .ok candidates)
    {chain : TypedChain} (member : chain ∈ chains) : ∃ own, evidence.rulesOf chain = .ok own := by
  induction chains generalizing candidates with
  | nil => cases member
  | cons first chains ih =>
      obtain ⟨own, here, found⟩ := bind_eq_ok_iff.mp found
      obtain ⟨later, remaining, _⟩ := bind_eq_ok_iff.mp found
      rcases List.mem_cons.mp member with rfl | inRest
      · exact ⟨own, here⟩
      · exact ih remaining inRest

theorem candidatesOf_append_eq_ok_iff {chains more : List TypedChain}
    {candidates : List (InferredRule α)} :
    evidence.candidatesOf (chains ++ more) = .ok candidates ↔
      ∃ earlier later, evidence.candidatesOf chains = .ok earlier ∧
        evidence.candidatesOf more = .ok later ∧ candidates = earlier ++ later := by
  induction chains generalizing candidates with
  | nil =>
      simp only [List.nil_append, candidatesOf, Except.ok.injEq, exists_and_left,
        exists_eq_left', exists_eq_right']
  | cons chain chains ih =>
      rw [List.cons_append, candidatesOf, candidatesOf]
      simp only [bind_eq_ok_iff, ih, Except.ok.injEq]
      constructor
      · intro given
        obtain ⟨own, here, _, ⟨earlier, later, first, second, rfl⟩, rfl⟩ := given
        exact ⟨own ++ earlier, later, ⟨own, here, earlier, first, rfl⟩, second,
          (List.append_assoc own earlier later).symm⟩
      · intro given
        obtain ⟨_, later, ⟨own, here, earlier, first, rfl⟩, second, rfl⟩ := given
        exact ⟨own, here, earlier ++ later, ⟨earlier, later, first, second, rfl⟩,
          (List.append_assoc own earlier later).symm⟩

theorem complexity_of_mem_rulesOf {typedChain : TypedChain} {own : List (InferredRule α)}
    (found : evidence.rulesOf typedChain = .ok own) {inferred : InferredRule α}
    (member : inferred ∈ own) : inferred.complexity = typedChain.selectors.length := by
  rw [← ((mem_rulesOf_iff found).mp member).1]
  rfl

end Evidence

/-! ### What is recorded stays -/

namespace InferredRules

omit [Scalar α] in
theorem keeps_candidates (candidates : List (InferredRule α)) :
    Keeps (candidates.foldl record .empty) candidates :=
  keeps_foldl_record keeps_empty candidates

variable {found : InferredRules α} {key : FootprintKey} {kept : InferredRule α}

omit [Scalar α] in
/-- Only a simpler rule takes the place of another one. -/
theorem find?_record_of_le (held : found.find? key = some kept) {candidate : InferredRule α}
    (notSimpler : kept.complexity ≤ candidate.complexity) :
    (found.record candidate).find? key = some kept := by
  unfold record
  by_cases same : key = candidate.key
  · rw [same] at held
    simp only [held, if_neg (Nat.not_lt.mpr notSimpler)]
    rw [same]
    exact held
  · have elsewhere : (found.insert candidate.key candidate).find? key = some kept := by
      rw [SortedMap.find?_insert, if_neg same]
      exact held
    split
    · exact elsewhere
    · split
      · exact elsewhere
      · exact held

omit [Scalar α] in
theorem find?_foldl_record_of_le (held : found.find? key = some kept)
    {candidates : List (InferredRule α)}
    (notSimpler : ∀ candidate ∈ candidates, kept.complexity ≤ candidate.complexity) :
    (candidates.foldl record found).find? key = some kept := by
  induction candidates generalizing found with
  | nil => exact held
  | cons candidate candidates ih =>
      obtain ⟨here, later⟩ := List.forall_mem_cons.mp notSimpler
      exact ih (find?_record_of_le held here) later

end InferredRules

/-- The footprints of every candidate are found, under a rule that is no more complex. -/
theorem Evidence.exists_found {evidence : Evidence α} {bound : Nat}
    {candidates : List (InferredRule α)} {candidate : InferredRule α} (member : candidate ∈ candidates)
    (searched : evidence.candidates bound = .ok candidates) {rules : List (InferredRule α)}
    (inferred : evidence.infer bound = .ok rules) :
    ∃ found ∈ rules, found.key = candidate.key ∧ found.complexity ≤ candidate.complexity := by
  obtain ⟨_, searchedToo, rfl⟩ := infer_eq_ok_iff_candidates.mp inferred
  cases searched.symm.trans searchedToo
  have keeps := InferredRules.keeps_candidates candidates
  obtain ⟨kept, held, simpler⟩ := keeps.minimal candidate member
  have sameKey := (keeps.sound _ _ held).1
  refine ⟨kept, keeps.mem_values_iff.mpr ?_, sameKey, simpler⟩
  rw [sameKey]
  exact held

theorem Evidence.exists_candidate {evidence : Evidence α} {bound : Nat}
    {rules : List (InferredRule α)} (inferred : evidence.infer bound = .ok rules)
    {found : InferredRule α} (member : found ∈ rules) :
    ∃ candidates, evidence.candidates bound = .ok candidates ∧ found ∈ candidates := by
  obtain ⟨candidates, searched, rfl⟩ := infer_eq_ok_iff_candidates.mp inferred
  have keeps := InferredRules.keeps_candidates candidates
  exact ⟨candidates, searched, (keeps.sound _ _ (keeps.mem_values_iff.mp member)).2⟩

theorem Evidence.accepts_of_mem_infer {evidence : Evidence α} {bound : Nat}
    {rules : List (InferredRule α)} (inferred : evidence.infer bound = .ok rules)
    {found : InferredRule α} (member : found ∈ rules) :
    found.rule.InSearchSpace evidence.schema bound ∧
      ∃ layouts, evidence.Accepts found layouts := by
  obtain ⟨candidates, searched, isCandidate⟩ := exists_candidate inferred member
  obtain ⟨chain, inChains, own, here, inOwn⟩ := (mem_candidatesOf_iff searched).mp isCandidate
  exact ⟨(inSearchSpace_of_mem_rulesOf inChains here inOwn).1, ((mem_rulesOf_iff here).mp inOwn).2.2⟩

/-- No two rules found have the same footprints. -/
theorem Evidence.eq_of_key_eq {evidence : Evidence α} {bound : Nat} {rules : List (InferredRule α)}
    (inferred : evidence.infer bound = .ok rules) {first second : InferredRule α}
    (isFirst : first ∈ rules) (isSecond : second ∈ rules) (same : first.key = second.key) :
    first = second := by
  obtain ⟨candidates, _, rfl⟩ := infer_eq_ok_iff_candidates.mp inferred
  have keeps := InferredRules.keeps_candidates candidates
  have heldFirst := keeps.mem_values_iff.mp isFirst
  rw [same, keeps.mem_values_iff.mp isSecond] at heldFirst
  exact (Option.some.inj heldFirst).symm

theorem Rule.InSearchSpace.exists_chain {schema : Schema} {bound : Nat} {rule : Rule}
    (inSpace : rule.InSearchSpace schema bound) :
    ∃ chain ∈ Evidence.chainsUpTo schema bound, chain.selectors = rule.selectors ∧
      Template.Over chain.env.keys rule.terminal := by
  obtain ⟨types, predicates, some, selectors, below, typed, inScope⟩ := inSpace
  have length : rule.selectors.length = types.length + predicates.length := by
    rw [selectors, List.length_append, List.length_map]
  rw [length] at below typed
  refine ⟨.ofParts types predicates,
    Evidence.mem_chainsUpTo_iff.mpr ⟨types, predicates, some, below, typed, rfl⟩, selectors.symm, ?_⟩
  exact inScope.mono fun _ known => (Evidence.mem_keys_ofParts predicates typed.distinct).mpr known

theorem Evidence.exists_substitutionsOf {evidence : Evidence α} {bound : Nat}
    {rules : List (InferredRule α)} (inferred : evidence.infer bound = .ok rules) {rule : Rule}
    (inSpace : rule.InSearchSpace evidence.schema bound) :
    ∃ substitutions,
      substitutionsOf evidence.schema evidence.world rule.selectors = .ok substitutions := by
  obtain ⟨_, searched, _⟩ := infer_eq_ok_iff_candidates.mp inferred
  obtain ⟨chain, inChains, selectors, _⟩ := inSpace.exists_chain
  obtain ⟨own, here⟩ := exists_rulesOf_of_candidatesOf searched inChains
  rw [← selectors]
  apply exists_substitutionsOf_of_rulesOf here
  rw [selectors]
  exact List.cons_ne_nil _ _

/-- The footprints of every accepted rule of the search space are found, under a rule that is no
more complex. -/
theorem Evidence.Accepts.exists_found [ScoringLaws α] {evidence : Evidence α} {bound : Nat}
    {candidate : InferredRule α} {layouts : List GroundLayout}
    (accepts : evidence.Accepts candidate layouts)
    (inSpace : candidate.rule.InSearchSpace evidence.schema bound) {rules : List (InferredRule α)}
    (inferred : evidence.infer bound = .ok rules) :
    ∃ found ∈ rules, found.key = candidate.key ∧ found.complexity ≤ candidate.complexity := by
  obtain ⟨candidates, searched, _⟩ := infer_eq_ok_iff_candidates.mp inferred
  obtain ⟨chain, inChains, selectors, inScope⟩ := inSpace.exists_chain
  obtain ⟨own, here⟩ := exists_rulesOf_of_candidatesOf searched inChains
  obtain ⟨tried, sameChain, isTried, triedAccepts, sameKey⟩ := accepts.exists_tried inScope
  have sameSelectors : tried.rule.selectors = candidate.rule.selectors :=
    congrArg Chain.toList sameChain
  have inOwn : tried ∈ own :=
    (mem_rulesOf_iff here).mpr ⟨sameSelectors.trans selectors.symm, isTried, triedAccepts⟩
  have member := (mem_candidatesOf_iff searched).mpr ⟨_, inChains, own, here, inOwn⟩
  obtain ⟨found, isFound, foundKey, simpler⟩ := Evidence.exists_found member searched inferred
  have sameComplexity : tried.complexity = candidate.complexity :=
    congrArg List.length sameSelectors
  exact ⟨found, isFound, foundKey.trans sameKey, sameComplexity ▸ simpler⟩

theorem appleEvidence_finds {rules : List (InferredRule RealScore)}
    (inferred : appleEvidence.infer 3 = .ok rules) : rules ≠ [] := by
  obtain ⟨footprints, supported⟩ := redderAbove_supported
  obtain ⟨candidates, searched, _⟩ := Evidence.infer_eq_ok_iff_candidates.mp inferred
  have nonnegative : Scalar.isNegative appleEvidence.threshold = false := by
    have notBelow : ¬(1 / 2 : ℝ) < (0 : ℕ) := by norm_num
    exact decide_eq_false notBelow
  obtain ⟨chain, inChains, own, here, candidate, inOwn, _⟩ :=
    Evidence.exists_mem_rulesOf nonnegative
      (fun _ => Evidence.exists_rulesOf_of_candidatesOf searched) redderAbove_inSearchSpace supported
  have member := (Evidence.mem_candidatesOf_iff searched).mpr ⟨chain, inChains, own, here, inOwn⟩
  obtain ⟨found, isFound, _⟩ := Evidence.exists_found member searched inferred
  exact List.ne_nil_of_mem isFound

end RelationalLayout
