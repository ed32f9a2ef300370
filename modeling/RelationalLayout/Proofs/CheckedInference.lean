/-
Checking the rules that a search finds.

The variables of a rule found have the signatures that its predicates ask for, so the
rule is well-typed if its terminal can be placed and each of its predicates is declared
in one way. A terminal that nothing scores is given up where both of its atoms are
drawn; where in every instance one of them is missing, it has the score zero, which
only exceeds a negative threshold.
-/

import RelationalLayout.Proofs.Candidate
import RelationalLayout.Proofs.Typing

namespace RelationalLayout

def Schema.DeclaresAlike (schema : Schema) (name : String) : Prop :=
  ∀ first ∈ schema.predicates, ∀ second ∈ schema.predicates, first.name = name →
    second.name = name → first.signatures = second.signatures

/-! ### Well-typed chains -/

section Typing

variable {schema : Schema} {pool : List String} {types : List TypedVariable}
  {predicates : List Selector} {selector : Selector}

theorem Selector.typedBy_of_fits (distinct : (types.map Prod.fst).Nodup)
    (fits : selector.Fits schema types)
    (alike : ∀ name arguments, selector = .predicate name arguments → schema.DeclaresAlike name) :
    selector.TypedBy schema (.ofList types) := by
  obtain ⟨predicate, member, arguments, typed, rfl⟩ := fits
  have isDeclared : (schema.predicate? predicate.name).isSome = true :=
    List.find?_isSome.mpr ⟨predicate, member, beq_self_eq_true predicate.name⟩
  obtain ⟨declared, found⟩ := Option.isSome_iff_exists.mp isDeclared
  obtain ⟨listed, sameName⟩ := Schema.mem_of_predicate? found
  have sameSignatures : declared.signatures = predicate.signatures :=
    alike _ _ rfl declared listed predicate member sameName rfl
  refine ⟨declared, found, ?_⟩
  rw [sameSignatures]
  exact typed.imp fun argument signature entry => (SortedMap.find?_ofList distinct).mpr entry

end Typing

/-- A rule of the search space is well-typed if its terminal can be placed and its predicates are
declared in one way each. -/
theorem Rule.InSearchSpace.exists_check {schema : Schema} {bound : Nat} {rule : Rule}
    (inSpace : rule.InSearchSpace schema bound)
    (alike : ∀ name arguments, .predicate name arguments ∈ rule.selectors →
      schema.DeclaresAlike name) (stageable : rule.terminal.isStageable = true) :
    ∃ env, rule.check schema = .ok env := by
  obtain ⟨types, predicates, _, selectors, _, typed, inScope⟩ := inSpace
  have keys (name : String) : name ∈ (SortedMap.ofList types : TypeEnv).keys ↔
      name ∈ types.map Prod.fst := SortedMap.mem_keys_ofList typed.distinct
  refine ⟨.ofList types, Rule.check_eq_ok_iff.mpr ⟨?_, ?_, stageable, ?_⟩⟩
  · intro name
    rw [keys, selectors]
    exact TypedChain.mem_variableNames_iff typed
  · intro selector member
    rw [selectors] at member
    rcases List.mem_append.mp member with isType | isPredicate
    · obtain ⟨entry, inTypes, rfl⟩ := List.mem_map.mp isType
      exact ⟨(typed.declared entry inTypes).2, (SortedMap.find?_ofList typed.distinct).mpr inTypes⟩
    · apply Selector.typedBy_of_fits typed.distinct (typed.fits selector isPredicate)
      intro name arguments same
      apply alike name arguments
      rw [← same, selectors]
      exact member
  · intro operand occurs
    exact (keys operand).mpr (inScope.operands_subset operand occurs)

/-! ### Terminals that nothing scores -/

namespace Evidence

variable {α : Type} [Scalar α] {evidence : Evidence α}

/-- What nothing scores is not given up only where an atom is missing. -/
theorem exists_undrawn {option : BinaryOption} (unsupported : option.isSupported = false)
    {separation : Separation} {first second : String}
    (scored : evidence.scoreOf? (.binary option separation first second) ≠ none) :
    ∃ operand ∈ [first, second], evidence.diagram.find? operand = none := by
  by_contra drawn
  push Not at drawn
  obtain ⟨left, foundLeft⟩ := Option.ne_none_iff_exists'.mp (drawn first (by simp))
  obtain ⟨right, foundRight⟩ := Option.ne_none_iff_exists'.mp (drawn second (by simp))
  apply scored
  simp only [scoreOf?, Layout.score, Diagram.locate, foundLeft, foundRight, bind, Except.bind,
    BinaryOption.confidence?_eq_none_iff.mpr unsupported]

/-- A terminal that cannot be placed is accepted only for a negative threshold, and only if an atom
is missing from each of its instances. -/
theorem Accepts.undrawn_of_not_isStageable [ScoringLaws α] {inferred : InferredRule α}
    {layouts : List GroundLayout} (accepts : evidence.Accepts inferred layouts)
    {names : List String} (inScope : Template.Over names inferred.rule.terminal)
    (unplaced : inferred.rule.terminal.isStageable = false) :
    Scalar.isNegative evidence.threshold = true ∧
      ∀ layout ∈ layouts, ∃ operand ∈ layout.operands, evidence.diagram.find? operand = none := by
  obtain ⟨substitutions, _, instantiated⟩ := Rule.compile_eq_ok_iff.mp accepts.compiled
  cases terminal : inferred.rule.terminal with
  | unary | cyclic =>
      rw [terminal] at unplaced
      cases unplaced
  | grouping =>
      rw [terminal] at inScope
      cases inScope
  | binary option separation first second =>
      rw [terminal] at instantiated unplaced
      have unsupported : option.isSupported = false := unplaced
      constructor
      · by_contra nonnegative
        have exceeds := accepts.exceeds
        rw [accepts.confidence] at exceeds
        exact absurd exceeds (Bool.eq_false_iff.mp (exceeds_of_not_supported evidence.diagram
          unsupported instantiated (Bool.eq_false_iff.mpr nonnegative)))
      · intro layout member
        obtain ⟨substitution, _, here⟩ :=
          exists_left_of_forall₂ (Template.instantiateAll_eq_ok_iff.mp instantiated) member
        obtain ⟨left, right, _, _, rfl⟩ := Template.instantiate_binary_iff.mp here
        exact exists_undrawn unsupported (accepts.scored _ member)

end Evidence

/-- A rule found whose predicates are each declared in one way is well-typed exactly if its terminal
can be placed, as it can be unless the threshold is negative and an atom is missing from each
instance of the rule. -/
theorem infer_checks {α : Type} [Scalar α] [ScoringLaws α] {evidence : Evidence α} {bound : Nat}
    {rules : List (InferredRule α)} (inferred : evidence.infer bound = .ok rules) :
    ∀ found ∈ rules,
      ((∀ name arguments, .predicate name arguments ∈ found.rule.selectors →
          evidence.schema.DeclaresAlike name) →
        ((∃ env, found.rule.check evidence.schema = .ok env) ↔
          found.rule.terminal.isStageable = true)) ∧
      (found.rule.terminal.isStageable = false →
        Scalar.isNegative evidence.threshold = true ∧
          ∃ layouts, found.rule.compile evidence.schema evidence.world 0 = .ok layouts ∧
            ∀ layout ∈ layouts, ∃ operand ∈ layout.operands,
              evidence.diagram.find? operand = none) := by
  intro found member
  obtain ⟨inSpace, layouts, accepts⟩ := Evidence.accepts_of_mem_infer inferred member
  constructor
  · intro alike
    constructor
    · intro given
      obtain ⟨env, checked⟩ := given
      exact (Rule.check_eq_ok_iff.mp checked).2.2.1
    · exact inSpace.exists_check alike
  · intro unplaced
    obtain ⟨_, _, _, _, _, _, inScope⟩ := inSpace
    obtain ⟨negative, undrawn⟩ := accepts.undrawn_of_not_isStageable inScope unplaced
    exact ⟨negative, layouts, accepts.compiled, undrawn⟩

theorem infer_checks_apples :
    ∃ rules, appleEvidence.infer 3 = .ok rules ∧ rules ≠ [] ∧
      ∀ found ∈ rules, ∃ env, found.rule.check appleEvidence.schema = .ok env := by
  obtain ⟨rules, inferred⟩ := Evidence.exists_infer appleEvidence_agrees
  refine ⟨rules, inferred, appleEvidence_finds inferred, ?_⟩
  intro found member
  obtain ⟨checks, unplaced⟩ := infer_checks inferred found member
  have alike (name : String) : appleEvidence.schema.DeclaresAlike name := by
    intro first isFirst second isSecond _ _
    rw [List.mem_singleton.mp isFirst, List.mem_singleton.mp isSecond]
  apply (checks fun name _ _ => alike name).mpr
  by_contra notStageable
  have negative := (unplaced (Bool.eq_false_iff.mpr notStageable)).1
  have notBelow : ¬(1 / 2 : ℝ) < (0 : ℕ) := by norm_num
  exact notBelow (of_decide_eq_true negative)

/-! ### An atom without a position -/

noncomputable def undrawnEvidence : Evidence RealScore :=
  { schema := { signatures := ["A"], predicates := [], hierarchy := [] }
    world := { atoms := [{ name := "a", signature := "A" }], facts := [] }
    diagram := .empty
    threshold := .real (-1) }

noncomputable def undrawnContains : InferredRule RealScore :=
  { rule :=
      { chain := { first := .signature "v0" "A", rest := [.signature "v1" "A"] }
        terminal := .binary .contains .unspecified "v0" "v1" }
    confidence := Scalar.zero
    footprints := [.binary .contains .unspecified "a" "a"] }

theorem undrawnContains_accepted :
    undrawnEvidence.Accepts undrawnContains [.binary .contains .unspecified "a" "a"] where
  compiled := by decide +kernel
  matched := List.cons_ne_nil _ _
  scored := List.forall_mem_singleton.mpr (Option.some_ne_none Scalar.zero)
  confidence := (RealScore.geometricMean_zeros 1).symm
  exceeds := by
    have below : (-1 : ℝ) < (0 : ℕ) := by norm_num
    exact decide_eq_true below
  footprints := rfl

theorem undrawn_texts : ∀ chain ∈ Evidence.chainsUpTo undrawnEvidence.schema 2,
    ∀ terminal ∈ templatesOver chain.env.keys, terminal.isStageable = true →
      ((substitutionsOf undrawnEvidence.schema undrawnEvidence.world chain.selectors).toOption.bind
        fun substitutions => (terminal.instantiateAll "0" substitutions).toOption).all
          (fun layouts => "a Contains a" ∉ (GroundLayout.canonicalize layouts).map Layout.text) =
        true := by
  decide +kernel

theorem infer_not_checks_undrawn :
    ∃ rules, undrawnEvidence.infer 2 = .ok rules ∧
      ∃ found ∈ rules, ∀ env, found.rule.check undrawnEvidence.schema ≠ .ok env := by
  have agrees : ∀ chain ∈ Evidence.chainsUpTo undrawnEvidence.schema 2,
      (substitutionsOf undrawnEvidence.schema undrawnEvidence.world chain.selectors).isOk = true := by
    decide +kernel
  obtain ⟨rules, inferred⟩ :=
    Evidence.exists_infer fun chain member => exists_eq_ok_of_isOk (agrees chain member)
  obtain ⟨candidates, searched, _⟩ := Evidence.infer_eq_ok_iff_candidates.mp inferred
  have inChains : TypedChain.ofParts [("v0", "A"), ("v1", "A")] [] ∈
      Evidence.chainsUpTo undrawnEvidence.schema 2 := by
    refine Evidence.mem_chainsUpTo_iff.mpr ⟨_, _, List.cons_ne_nil _ _, by decide, ?_, rfl⟩
    exact ⟨by decide, by decide +kernel, List.nodup_nil, fun _ impossible => by cases impossible⟩
  obtain ⟨own, here⟩ := Evidence.exists_rulesOf_of_candidatesOf searched inChains
  have inOwn : undrawnContains ∈ own := (Evidence.mem_rulesOf_iff here).mpr
    ⟨rfl, mem_templatesOver_binary rfl (by decide) (by decide) (by decide), _, undrawnContains_accepted⟩
  have isCandidate := (Evidence.mem_candidatesOf_iff searched).mpr ⟨_, inChains, own, here, inOwn⟩
  obtain ⟨found, member, sameKey, _⟩ := Evidence.exists_found isCandidate searched inferred
  refine ⟨rules, inferred, found, member, ?_⟩
  intro env checked
  have stageable := (Rule.check_eq_ok_iff.mp checked).2.2.1
  obtain ⟨_, searchedToo, isCandidateToo⟩ := Evidence.exists_candidate inferred member
  obtain ⟨chain, inChainsToo, others, there, inOthers⟩ :=
    (Evidence.mem_candidatesOf_iff searchedToo).mp isCandidateToo
  obtain ⟨selectors, tried, layouts, accepts⟩ := (Evidence.mem_rulesOf_iff there).mp inOthers
  obtain ⟨substitutions, substituted, instantiated⟩ := Rule.compile_eq_ok_iff.mp accepts.compiled
  have texts := undrawn_texts chain inChainsToo _ tried stageable
  rw [← selectors, substituted] at texts
  simp only [Except.toOption, Option.bind_some] at texts
  rw [show found.rule.terminal.instantiateAll "0" substitutions = .ok layouts from instantiated]
    at texts
  have inKey : "a Contains a" ∈ found.key := by
    rw [sameKey]
    exact FootprintKey.mem_ofFootprints_iff.mpr ⟨_, List.mem_cons_self, by decide +kernel⟩
  obtain ⟨footprint, isFootprint, text⟩ := FootprintKey.mem_ofFootprints_iff.mp inKey
  rw [accepts.footprints] at isFootprint
  exact of_decide_eq_true texts (text ▸ List.mem_map_of_mem isFootprint)

end RelationalLayout
