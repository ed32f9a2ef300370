/-
The rules that a search accepts for one chain.

An accepted rule carries its own score and its own footprints, and every terminal
that is tried and scores above the threshold is accepted. A relation that is not
tried is the mirror of one that is, with the same score and the same footprints.
-/

import RelationalLayout.Proofs.Chain
import RelationalLayout.Proofs.Compilation
import RelationalLayout.Proofs.Confidence
import RelationalLayout.Proofs.Footprint
import RelationalLayout.Proofs.Query
import RelationalLayout.Proofs.Terminal

namespace RelationalLayout

variable {α : Type} [Scalar α]

/-! ### Mirrored rules -/

/-- Instances of a relation and of its mirror agree in footprints and in scores. -/
theorem instantiateAll_mirror [ScoringLaws α] (diagram : Diagram α) {option mirror : BinaryOption}
    (mirrored : option.mirror = some mirror) {separation : Separation} {first second id : String}
    {substitutions : List Substitution} {layouts : List GroundLayout}
    (instantiated : Template.instantiateAll (.binary option separation first second) id
      substitutions = .ok layouts) :
    ∃ mirrors, Template.instantiateAll (.binary mirror separation second first) id
        substitutions = .ok mirrors ∧
      GroundLayout.canonicalize mirrors = GroundLayout.canonicalize layouts ∧
      mirrors.map (Layout.scoreOrZero diagram) = layouts.map (Layout.scoreOrZero diagram) := by
  simp only [Template.instantiateAll_eq_ok_iff] at instantiated ⊢
  induction instantiated with
  | nil => exact ⟨[], .nil, rfl, rfl⟩
  | cons here _ ih =>
      obtain ⟨left, right, foundFirst, foundSecond, rfl⟩ := Template.instantiate_binary_iff.mp here
      obtain ⟨mirrors, mirrorsInstantiated, footprints, scores⟩ := ih
      refine ⟨.binary mirror separation right left :: mirrors, .cons ?_ mirrorsInstantiated, ?_, ?_⟩
      · exact Template.instantiate_binary_iff.mpr ⟨right, left, foundSecond, foundFirst, rfl⟩
      · simp only [GroundLayout.canonicalize, List.flatMap_cons] at footprints ⊢
        rw [GroundLayout.footprints_mirror mirrored, footprints]
      · rw [List.map_cons, List.map_cons, Layout.scoreOrZero_mirror diagram mirrored, scores]

/-! ### Scored rules -/

namespace Evidence

variable {evidence : Evidence α}

theorem scoreOf?_eq_some {layout : GroundLayout} {confidence : α}
    (scored : evidence.scoreOf? layout = some confidence) :
    confidence = layout.scoreOrZero evidence.diagram := by
  unfold scoreOf? at scored
  unfold Layout.scoreOrZero
  split at scored
  · rename_i found
    rw [found]
    exact (Option.some.inj scored).symm
  · rename_i missing
    rw [missing]
    exact (Option.some.inj scored).symm
  · cases scored

theorem scoreAll_eq_ok {terminal : Template} {substitutions : List Substitution}
    {result : Option (List (GroundLayout × α))}
    (scored : evidence.scoreAll terminal substitutions = .ok result) :
    match result with
    | some pairs => terminal.instantiateAll "0" substitutions = .ok (pairs.map Prod.fst) ∧
        pairs.map Prod.snd = (pairs.map Prod.fst).map (Layout.scoreOrZero evidence.diagram)
    | none => ∃ substitution ∈ substitutions, ∃ layout,
        terminal.instantiate substitution "0" = .ok layout ∧ evidence.scoreOf? layout = none := by
  induction substitutions generalizing result with
  | nil =>
      cases scored
      exact ⟨rfl, rfl⟩
  | cons substitution rest ih =>
      obtain ⟨layout, instantiated, scored⟩ := bind_eq_ok_iff.mp scored
      cases found : evidence.scoreOf? layout with
      | none =>
          rw [found] at scored
          cases scored
          exact ⟨substitution, List.mem_cons_self, layout, instantiated, found⟩
      | some confidence =>
          rw [found] at scored
          obtain ⟨later, remaining, scored⟩ := bind_eq_ok_iff.mp scored
          cases scored
          have restScored := ih remaining
          cases later with
          | none =>
              obtain ⟨other, member, unscored⟩ := restScored
              exact ⟨other, List.mem_cons_of_mem _ member, unscored⟩
          | some pairs =>
              obtain ⟨restInstantiated, scores⟩ := restScored
              constructor
              · rw [Template.instantiateAll, instantiated, restInstantiated]
                rfl
              · simp only [List.map_cons, scores, scoreOf?_eq_some found]

theorem not_supported_of_scoreOf?_eq_none {names : List String} {terminal : Template}
    (inScope : Template.Over names terminal) {substitution : Substitution} {layout : GroundLayout}
    (instantiated : terminal.instantiate substitution "0" = .ok layout)
    (unscored : evidence.scoreOf? layout = none) :
    ∃ option first second, terminal = .binary option .unspecified first second ∧
      option.isSupported = false := by
  cases inScope with
  | unary option known =>
      obtain ⟨atom, _, rfl⟩ := Template.instantiate_unary_iff.mp instantiated
      simp only [scoreOf?, Layout.score, Diagram.locate] at unscored
      cases found : evidence.diagram.find? atom <;> rw [found] at unscored <;> cases unscored
  | binary option knownFirst knownSecond different =>
      obtain ⟨left, right, _, _, rfl⟩ := Template.instantiate_binary_iff.mp instantiated
      refine ⟨option, _, _, rfl, ?_⟩
      simp only [scoreOf?, Layout.score, Diagram.locate] at unscored
      cases foundFirst : evidence.diagram.find? left with
      | none =>
          rw [foundFirst] at unscored
          cases unscored
      | some first =>
          cases foundSecond : evidence.diagram.find? right with
          | none =>
              rw [foundFirst, foundSecond] at unscored
              cases unscored
          | some second =>
              simp only [foundFirst, foundSecond, bind, Except.bind] at unscored
              cases scored : option.confidence? first second with
              | none => exact BinaryOption.confidence?_eq_none_iff.mp scored
              | some confidence =>
                  rw [scored] at unscored
                  cases unscored

/-- The rule has this score, it is above the threshold, and these are its footprints. -/
structure Supports (evidence : Evidence α) (inferred : InferredRule α) : Prop where
  confidence : inferred.rule.confidence evidence.schema evidence.world evidence.diagram =
    .ok inferred.confidence
  exceeds : Scalar.exceeds inferred.confidence evidence.threshold = true
  footprints : ∃ layouts, inferred.rule.compile evidence.schema evidence.world 0 = .ok layouts ∧
    inferred.footprints = GroundLayout.canonicalize layouts

variable {chain : Chain} {substitutions : List Substitution} {terminal : Template}

theorem accept?_sound {inferred : InferredRule α}
    (found : substitutionsOf evidence.schema evidence.world chain.toList = .ok substitutions)
    (accepted : evidence.accept? chain substitutions terminal = .ok (some inferred)) :
    inferred.rule = { chain := chain, terminal := terminal } ∧ evidence.Supports inferred := by
  obtain ⟨result, scored, accepted⟩ := bind_eq_ok_iff.mp accepted
  have instances := scoreAll_eq_ok scored
  cases result with
  | none => cases accepted
  | some pairs =>
      obtain ⟨instantiated, scores⟩ := instances
      simp only at accepted
      split at accepted
      · rename_i exceeds
        cases accepted
        have compiled : Rule.compile evidence.schema evidence.world 0
            { chain := chain, terminal := terminal } = .ok (pairs.map Prod.fst) :=
          Rule.compile_eq_ok_iff.mpr ⟨substitutions, found, instantiated⟩
        refine ⟨rfl, ?_, exceeds, _, compiled, rfl⟩
        exact Rule.confidence_eq_ok_iff.mpr ⟨_, compiled, by rw [scores]⟩
      · cases accepted

/-- A relation that nothing can score has the score zero throughout. -/
theorem exceeds_of_not_supported [ScoringLaws α] (diagram : Diagram α) {option : BinaryOption}
    (unsupported : option.isSupported = false) {separation : Separation} {first second id : String}
    {layouts : List GroundLayout}
    (instantiated : Template.instantiateAll (.binary option separation first second) id
      substitutions = .ok layouts)
    {threshold : α} (nonnegative : Scalar.isNegative threshold = false) :
    Scalar.exceeds (geometricMean (layouts.map (Layout.scoreOrZero diagram))) threshold = false := by
  refine exceeds_geometricMean_of_zeros (fun score member => ?_) nonnegative
  obtain ⟨layout, inLayouts, rfl⟩ := List.mem_map.mp member
  rw [Template.instantiateAll_eq_ok_iff] at instantiated
  obtain ⟨index, bound, rfl⟩ := List.mem_iff_getElem.mp inLayouts
  have sameLength := instantiated.length_eq
  have here := List.Forall₂.get instantiated (sameLength ▸ bound) bound
  obtain ⟨left, right, _, _, same⟩ := Template.instantiate_binary_iff.mp here
  rw [List.get_eq_getElem] at same
  rw [same, Layout.scoreOrZero_of_not_supported diagram unsupported]

theorem accept?_complete [ScoringLaws α] {names : List String} {result : Option (InferredRule α)}
    {score : α} (nonnegative : Scalar.isNegative evidence.threshold = false)
    (found : substitutionsOf evidence.schema evidence.world chain.toList = .ok substitutions)
    (inScope : Template.Over names terminal)
    (accepted : evidence.accept? chain substitutions terminal = .ok result)
    (scores : Rule.confidence evidence.schema evidence.world evidence.diagram
      { chain := chain, terminal := terminal } = .ok score)
    (exceeds : Scalar.exceeds score evidence.threshold = true) :
    ∃ inferred, result = some inferred := by
  obtain ⟨layouts, compiled, rfl⟩ := Rule.confidence_eq_ok_iff.mp scores
  obtain ⟨_, foundAgain, instantiated⟩ := Rule.compile_eq_ok_iff.mp compiled
  cases found.symm.trans foundAgain
  obtain ⟨scored, scoredAll, accepted⟩ := bind_eq_ok_iff.mp accepted
  have instances := scoreAll_eq_ok scoredAll
  cases scored with
  | none =>
      obtain ⟨substitution, _, layout, there, unscored⟩ := instances
      obtain ⟨option, first, second, rfl, unsupported⟩ :=
        not_supported_of_scoreOf?_eq_none inScope there unscored
      exact absurd exceeds (Bool.eq_false_iff.mp
        (exceeds_of_not_supported evidence.diagram unsupported instantiated nonnegative))
  | some pairs =>
      obtain ⟨pairsInstantiated, pairScores⟩ := instances
      cases pairsInstantiated.symm.trans instantiated
      simp only [pairScores, exceeds, if_true] at accepted
      cases accepted
      exact ⟨_, rfl⟩

/-! ### The rules of a chain -/

theorem acceptAll_eq_ok {terminals : List Template} {rules : List (InferredRule α)}
    (accepted : evidence.acceptAll chain substitutions terminals = .ok rules) :
    (∀ inferred ∈ rules, ∃ terminal ∈ terminals,
        evidence.accept? chain substitutions terminal = .ok (some inferred)) ∧
      ∀ terminal ∈ terminals, ∃ result,
        evidence.accept? chain substitutions terminal = .ok result ∧
          ∀ inferred, result = some inferred → inferred ∈ rules := by
  induction terminals generalizing rules with
  | nil =>
      cases accepted
      constructor
      · intro inferred member
        cases member
      · intro terminal member
        cases member
  | cons terminal rest ih =>
      obtain ⟨result, here, accepted⟩ := bind_eq_ok_iff.mp accepted
      obtain ⟨later, remaining, accepted⟩ := bind_eq_ok_iff.mp accepted
      cases accepted
      obtain ⟨fromRest, ofRest⟩ := ih remaining
      constructor
      · intro inferred member
        rcases List.mem_append.mp member with isFirst | isLater
        · have same := Option.mem_toList.mp isFirst
          rw [Option.mem_def.mp same] at here
          exact ⟨terminal, List.mem_cons_self, here⟩
        · obtain ⟨other, inRest, found⟩ := fromRest inferred isLater
          exact ⟨other, List.mem_cons_of_mem _ inRest, found⟩
      · intro other member
        rcases List.mem_cons.mp member with rfl | inRest
        · refine ⟨result, here, fun inferred same => ?_⟩
          exact List.mem_append_left _ (Option.mem_toList.mpr same)
        · obtain ⟨found, otherAccepted, kept⟩ := ofRest other inRest
          exact ⟨found, otherAccepted, fun inferred same =>
            List.mem_append_right _ (kept inferred same)⟩

end Evidence

theorem Chain.ofList?_eq_some_iff {selectors : List Selector} {chain : Chain} :
    Chain.ofList? selectors = some chain ↔ chain.toList = selectors := by
  cases selectors with
  | nil => simp only [ofList?, toList, reduceCtorEq]
  | cons first rest =>
      cases chain
      simp only [ofList?, toList, Option.some.injEq, Chain.mk.injEq, List.cons.injEq, eq_comm]

namespace Evidence

variable {evidence : Evidence α} {rules : List (InferredRule α)} {typedChain : TypedChain}

theorem rulesOf_sound {inferred : InferredRule α}
    (found : evidence.rulesOf typedChain = .ok rules) (member : inferred ∈ rules) :
    inferred.rule.selectors = typedChain.selectors ∧
      inferred.rule.terminal ∈ templatesOver typedChain.env.keys ∧ evidence.Supports inferred := by
  rw [rulesOf] at found
  cases whole : Chain.ofList? typedChain.selectors with
  | none =>
      rw [whole] at found
      cases found
      cases member
  | some chain =>
      rw [whole] at found
      have selectors := Chain.ofList?_eq_some_iff.mp whole
      cases substituted : substitutionsOf evidence.schema evidence.world typedChain.selectors with
      | error fault =>
          rw [substituted] at found
          cases found
      | ok substitutions =>
          rw [substituted] at found
          cases substitutions with
          | nil =>
              cases found
              cases member
          | cons first rest =>
              rw [← selectors] at substituted
              obtain ⟨terminal, tried, accepted⟩ := (acceptAll_eq_ok found).1 inferred member
              obtain ⟨same, supports⟩ := accept?_sound substituted accepted
              refine ⟨?_, ?_, supports⟩
              · rw [same]
                exact selectors
              · rw [same]
                exact tried

theorem rulesOf_complete [ScoringLaws α] {candidate : InferredRule α} {names : List String}
    (nonnegative : Scalar.isNegative evidence.threshold = false)
    (found : evidence.rulesOf typedChain = .ok rules)
    (selectors : candidate.rule.selectors = typedChain.selectors)
    (tried : candidate.rule.terminal ∈ templatesOver typedChain.env.keys)
    (inScope : Template.Over names candidate.rule.terminal) (supports : evidence.Supports candidate) :
    ∃ inferred ∈ rules, inferred.rule = candidate.rule := by
  obtain ⟨layouts, compiled, score⟩ := Rule.confidence_eq_ok_iff.mp supports.confidence
  obtain ⟨substitutions, substituted, instantiated⟩ := Rule.compile_eq_ok_iff.mp compiled
  have whole := Chain.ofList?_eq_some_iff.mpr selectors
  rw [selectors] at substituted
  rw [rulesOf, whole, substituted] at found
  cases substitutions with
  | nil =>
      cases instantiated
      have exceeds := supports.exceeds
      rw [← score] at exceeds
      exact absurd exceeds (Bool.eq_false_iff.mp nonnegative)
  | cons first rest =>
      obtain ⟨result, accepted, kept⟩ := (acceptAll_eq_ok found).2 candidate.rule.terminal tried
      rw [← selectors] at substituted
      obtain ⟨inferred, rfl⟩ := accept?_complete nonnegative substituted inScope accepted
        supports.confidence supports.exceeds
      exact ⟨inferred, kept inferred rfl, (accept?_sound substituted accepted).1⟩

/-! ### Searching never leaves a variable unbound -/

theorem exists_instantiate {names : List String} {terminal : Template}
    (inScope : Template.Over names terminal) {substitution : Substitution}
    (bound : ∀ name ∈ names, ∃ atom, substitution.find? name = some atom) (id : String) :
    ∃ layout, terminal.instantiate substitution id = .ok layout := by
  cases inScope with
  | unary option known =>
      obtain ⟨atom, found⟩ := bound _ known
      exact ⟨_, Template.instantiate_unary_iff.mpr ⟨atom, found, rfl⟩⟩
  | binary option knownFirst knownSecond different =>
      obtain ⟨left, foundLeft⟩ := bound _ knownFirst
      obtain ⟨right, foundRight⟩ := bound _ knownSecond
      exact ⟨_, Template.instantiate_binary_iff.mpr ⟨left, right, foundLeft, foundRight, rfl⟩⟩

variable {substitutions : List Substitution} {names : List String}

theorem exists_scoreAll {terminal : Template} (inScope : Template.Over names terminal)
    (bound : ∀ substitution ∈ substitutions, ∀ name ∈ names,
      ∃ atom, substitution.find? name = some atom) :
    ∃ result, evidence.scoreAll terminal substitutions = .ok result := by
  induction substitutions with
  | nil => exact ⟨_, rfl⟩
  | cons substitution rest ih =>
      obtain ⟨layout, instantiated⟩ :=
        exists_instantiate inScope (bound substitution List.mem_cons_self) "0"
      obtain ⟨later, remaining⟩ := ih (fun other member => bound other (List.mem_cons_of_mem _ member))
      rw [scoreAll, instantiated]
      simp only [bind, Except.bind, remaining]
      cases evidence.scoreOf? layout with
      | none => exact ⟨none, rfl⟩
      | some confidence => exact ⟨_, rfl⟩

theorem exists_accept? {terminal : Template} (chain : Chain) (inScope : Template.Over names terminal)
    (bound : ∀ substitution ∈ substitutions, ∀ name ∈ names,
      ∃ atom, substitution.find? name = some atom) :
    ∃ result, evidence.accept? chain substitutions terminal = .ok result := by
  obtain ⟨scored, scoredAll⟩ : ∃ scored, evidence.scoreAll terminal substitutions = .ok scored :=
    exists_scoreAll inScope bound
  rw [accept?, scoredAll]
  cases scored with
  | none => exact ⟨none, rfl⟩
  | some pairs =>
      simp only [bind, Except.bind]
      split
      · exact ⟨_, rfl⟩
      · exact ⟨none, rfl⟩

theorem exists_acceptAll {terminals : List Template} (chain : Chain)
    (inScope : ∀ terminal ∈ terminals, Template.Over names terminal)
    (bound : ∀ substitution ∈ substitutions, ∀ name ∈ names,
      ∃ atom, substitution.find? name = some atom) :
    ∃ own, evidence.acceptAll chain substitutions terminals = .ok own := by
  induction terminals with
  | nil => exact ⟨[], rfl⟩
  | cons terminal rest ih =>
      obtain ⟨later, remaining⟩ := ih (fun other member => inScope other (List.mem_cons_of_mem _ member))
      obtain ⟨accepted, here⟩ : ∃ accepted, evidence.accept? chain substitutions terminal =
          .ok accepted :=
        exists_accept? chain (inScope terminal List.mem_cons_self) bound
      rw [acceptAll, here, remaining]
      exact ⟨_, rfl⟩

omit [Scalar α] in
theorem exists_atom_of_substitutionsOf {types : List TypedVariable} {predicates : List Selector}
    (distinct : (types.map Prod.fst).Nodup)
    (found : substitutionsOf evidence.schema evidence.world
      (TypedChain.ofParts types predicates).selectors = .ok substitutions) :
    ∀ substitution ∈ substitutions, ∀ name ∈ (TypedChain.ofParts types predicates).env.keys,
      ∃ atom, substitution.find? name = some atom := by
  intro substitution member name known
  refine SortedMap.mem_keys_iff.mp (((mem_substitutionsOf_iff found).mp member).1 name |>.mpr ?_)
  obtain ⟨entry, inTypes, rfl⟩ := List.mem_map.mp ((SortedMap.mem_keys_ofList distinct).mp known)
  exact ⟨.ofEntry entry, List.mem_append_left _ (List.mem_map.mpr ⟨entry, inTypes, rfl⟩),
    List.mem_cons_self⟩

theorem exists_rulesOf {types : List TypedVariable} {predicates : List Selector}
    (distinct : (types.map Prod.fst).Nodup)
    (found : substitutionsOf evidence.schema evidence.world
      (types.map Selector.ofEntry ++ predicates) = .ok substitutions) :
    ∃ own, evidence.rulesOf (.ofParts types predicates) = .ok own := by
  rw [rulesOf, TypedChain.ofParts, found]
  cases Chain.ofList? (types.map Selector.ofEntry ++ predicates) with
  | none => exact ⟨[], rfl⟩
  | some chain =>
      have bound := exists_atom_of_substitutionsOf distinct found
      cases substitutions with
      | nil => exact ⟨[], rfl⟩
      | cons first rest =>
          have accepted : ∃ own, evidence.acceptAll chain (first :: rest)
              (templatesOver (SortedMap.ofList types).keys) = .ok own :=
            exists_acceptAll chain (fun _ => over_of_mem_templatesOver) bound
          exact accepted

theorem Supports.key_eq {left right : InferredRule α} (leftSupports : evidence.Supports left)
    (rightSupports : evidence.Supports right) (same : left.rule = right.rule) :
    left.key = right.key := by
  obtain ⟨leftLayouts, leftCompiled, leftFootprints⟩ := leftSupports.footprints
  obtain ⟨rightLayouts, rightCompiled, rightFootprints⟩ := rightSupports.footprints
  rw [same] at leftCompiled
  cases leftCompiled.symm.trans rightCompiled
  rw [InferredRule.key, InferredRule.key, leftFootprints, rightFootprints]

/-- Any supported rule is tried itself, or its mirror is, which says the same. -/
theorem exists_tried [ScoringLaws α] {candidate : InferredRule α} {names : List String}
    (inScope : Template.Over names candidate.rule.terminal) (supports : evidence.Supports candidate) :
    ∃ tried : InferredRule α, tried.rule.chain = candidate.rule.chain ∧
      tried.rule.terminal ∈ templatesOver names ∧ evidence.Supports tried ∧
      tried.key = candidate.key := by
  obtain ⟨rule, score, footprints⟩ := candidate
  obtain ⟨chain, terminal⟩ := rule
  cases inScope with
  | unary option known => exact ⟨_, rfl, mem_templatesOver_unary option known, supports, rfl⟩
  | @binary option first second knownFirst knownSecond different =>
      rcases mem_templatesOver_or_mirror option knownFirst knownSecond different with
        tried | ⟨mirror, mirrored, tried⟩
      · exact ⟨_, rfl, tried, supports, rfl⟩
      · obtain ⟨layouts, compiled, scores⟩ := Rule.confidence_eq_ok_iff.mp supports.confidence
        obtain ⟨others, compiledToo, sameFootprints⟩ := supports.footprints
        cases compiled.symm.trans compiledToo
        obtain ⟨substitutions, found, instantiated⟩ := Rule.compile_eq_ok_iff.mp compiled
        obtain ⟨mirrors, mirrorsInstantiated, mirrorFootprints, mirrorScores⟩ :=
          instantiateAll_mirror evidence.diagram mirrored instantiated
        let swapped : Rule :=
          { chain := chain, terminal := .binary mirror .unspecified second first }
        have swappedCompiled : swapped.compile evidence.schema evidence.world 0 = .ok mirrors :=
          Rule.compile_eq_ok_iff.mpr ⟨substitutions, found, mirrorsInstantiated⟩
        refine ⟨{ rule := swapped, confidence := score, footprints := footprints }, rfl, tried, ?_,
          rfl⟩
        constructor
        · exact Rule.confidence_eq_ok_iff.mpr ⟨mirrors, swappedCompiled, by rw [mirrorScores, scores]⟩
        · exact supports.exceeds
        · exact ⟨mirrors, swappedCompiled, sameFootprints.trans mirrorFootprints.symm⟩

end Evidence

end RelationalLayout
