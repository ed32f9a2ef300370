/-
The confidence of a rule is a mean.

No curve leaves the range above zero up to one, and neither do products of curves. The
geometric mean goes through logarithms, which keep the order of positive numbers; so it
stays between the smallest and the greatest score, and it counts each score only by its
share among all of them.
-/

import Mathlib.Algebra.Order.BigOperators.Group.List
import Mathlib.Data.Finset.Max
import RelationalLayout.Proofs.PlacedScore

namespace RelationalLayout

variable {κ : Type} [Field κ] [LinearOrder κ] [IsStrictOrderedRing κ]

/-! ### Logarithms -/

/-- An exponential together with its logarithm: each takes back what the other does. -/
structure IsInverseExponential (exp log : κ → κ) : Prop extends IsExponential exp where
  log_exp (number : κ) : log (exp number) = number
  exp_log {number : κ} (positive : 0 < number) : exp (log number) = number

theorem isInverseExponential_exp : IsInverseExponential Real.exp Real.log where
  toIsExponential := isExponential_exp
  log_exp := Real.log_exp
  exp_log := Real.exp_log

omit [IsStrictOrderedRing κ] in
theorem IsInverseExponential.log_le_log {exp log : κ → κ} (inverse : IsInverseExponential exp log)
    {left right : κ} (positive : 0 < left) (ordered : left ≤ right) : log left ≤ log right := by
  by_contra reversed
  have back : exp (log right) ≤ exp (log left) := inverse.monotone (not_le.mp reversed).le
  rw [inverse.exp_log positive, inverse.exp_log (positive.trans_le ordered)] at back
  rw [ordered.antisymm back] at reversed
  exact reversed le_rfl

/-! ### Ranges -/

section Ranges

variable {exp : κ → κ} (exponential : IsExponential exp) (log : κ → κ) (exceeds : κ → κ → Bool)

include exponential

theorem logistic_mem_Ioc (position : κ) :
    letI := Scalar.ofField exp log exceeds
    logistic position ∈ Set.Ioc (0 : κ) 1 := by
  change ((1 : ℕ) : κ) / (((1 : ℕ) : κ) + exp (-position)) ∈ Set.Ioc 0 1
  rw [Nat.cast_one]
  have above : 1 ≤ 1 + exp (-position) := le_add_of_nonneg_right (exponential.pos _).le
  have positive : 0 < 1 + exp (-position) := one_pos.trans_le above
  exact ⟨one_div_pos.mpr positive, (div_le_one positive).mpr above⟩

theorem bell_mem_Ioc (difference : κ) :
    letI := Scalar.ofField exp log exceeds
    bell difference ∈ Set.Ioc (0 : κ) 1 := by
  change exp (-difference * difference / (((2 : ℕ) : κ) * ((1600 : ℕ) : κ))) ∈ Set.Ioc 0 1
  refine ⟨exponential.pos _, ?_⟩
  rw [← exponential.zero]
  apply exponential.monotone
  have square : -difference * difference ≤ 0 := by
    rw [neg_mul]
    exact neg_nonpos.mpr (mul_self_nonneg difference)
  exact div_nonpos_of_nonpos_of_nonneg square (mul_nonneg (Nat.cast_nonneg 2) (Nat.cast_nonneg 1600))

omit exponential in
theorem mul_mem_Ioc {left right : κ} (first : left ∈ Set.Ioc (0 : κ) 1)
    (second : right ∈ Set.Ioc (0 : κ) 1) : left * right ∈ Set.Ioc (0 : κ) 1 :=
  ⟨mul_pos first.1 second.1, mul_le_one₀ first.2 second.1.le second.2⟩

theorem UnaryOption.confidence_mem_Ioc (option : UnaryOption) (point : Point κ) :
    letI := Scalar.ofField exp log exceeds
    option.confidence point ∈ Set.Ioc (0 : κ) 1 := by
  cases option with
  | leftOfCenter | rightOfCenter | aboveCenter | belowCenter =>
      exact logistic_mem_Ioc exponential log exceeds _

theorem BinaryOption.confidence?_mem_Ioc {option : BinaryOption} {first second : Point κ} {score : κ}
    (known : letI := Scalar.ofField exp log exceeds
      option.confidence? first second = some score) :
    score ∈ Set.Ioc (0 : κ) 1 := by
  have curve := logistic_mem_Ioc exponential log exceeds
  have level := bell_mem_Ioc exponential log exceeds
  cases option with
  | outsideRingOf | insideRingOf | contains => cases known
  | leftOf | rightOf | above | below =>
      cases known
      exact curve _
  | horizontallyAligned | verticallyAligned =>
      cases known
      exact level _
  | directlyLeftOf | directlyRightOf | directlyAbove | directlyBelow =>
      cases known
      exact mul_mem_Ioc (curve _) (level _)

theorem GroundLayout.exists_score_mem_Ioc {layout : GroundLayout} (isScored : layout.isScored = true)
    {diagram : Diagram κ} (drawn : ∀ atom ∈ layout.operands, ∃ point, diagram.find? atom = some point) :
    letI := Scalar.ofField exp log exceeds
    ∃ score, layout.score diagram = .ok score ∧ score ∈ Set.Ioc (0 : κ) 1 := by
  let arithmetic := Scalar.ofField exp log exceeds
  cases layout with
  | cyclic | grouping => cases isScored
  | unary option separation operand =>
      obtain ⟨point, found⟩ := drawn operand List.mem_cons_self
      refine ⟨option.confidence point, ?_, option.confidence_mem_Ioc exponential log exceeds point⟩
      rw [Layout.score, Diagram.locate, found]
      rfl
  | binary option separation first second =>
      have firstDrawn := drawn first List.mem_cons_self
      have secondDrawn := drawn second (List.mem_cons_of_mem first List.mem_cons_self)
      obtain ⟨score, scored⟩ : ∃ score, Layout.score diagram
          (.binary option separation first second : GroundLayout) = .ok score :=
        (Layout.exists_score_binary_iff isScored).mpr ⟨firstDrawn, secondDrawn⟩
      obtain ⟨left, right, _, _, known⟩ := Layout.score_binary_eq_ok_iff.mp scored
      exact ⟨score, scored, BinaryOption.confidence?_mem_Ioc exponential log exceeds known⟩

end Ranges

/-! ### Means -/

/-- A number no smaller than some of the scores and no greater than some other: between the
smallest and the greatest of them. -/
def BetweenExtremes (scores : List κ) (mean : κ) : Prop :=
  ∃ least ∈ scores, ∃ greatest ∈ scores,
    (∀ score ∈ scores, least ≤ score ∧ score ≤ greatest) ∧ least ≤ mean ∧ mean ≤ greatest

section Means

variable {exp log : κ → κ} (exceeds : κ → κ → Bool)

omit [LinearOrder κ] [IsStrictOrderedRing κ] in
theorem geometricMean_eq {scores : List κ} (some : scores ≠ []) :
    letI := Scalar.ofField exp log exceeds
    geometricMean scores = exp ((scores.map log).sum / scores.length) := by
  let arithmetic := Scalar.ofField exp log exceeds
  have origin : (Scalar.zero : κ) = 0 := Nat.cast_zero
  rw [geometricMean, List.isEmpty_eq_false_iff.mpr some, origin, ← List.sum_eq_foldl]
  rfl

theorem le_geometricMean (inverse : IsInverseExponential exp log) {scores : List κ}
    (some : scores ≠ []) {bound : κ} (positive : 0 < bound) (below : ∀ score ∈ scores, bound ≤ score) :
    letI := Scalar.ofField exp log exceeds
    bound ≤ geometricMean scores := by
  have count : (0 : κ) < scores.length := Nat.cast_pos.mpr (List.length_pos_iff.mpr some)
  have logarithms : ∀ power ∈ scores.map log, log bound ≤ power := by
    intro power member
    obtain ⟨score, within, rfl⟩ := List.mem_map.mp member
    exact inverse.log_le_log positive (below score within)
  have sum := List.card_nsmul_le_sum (scores.map log) (log bound) logarithms
  rw [List.length_map, nsmul_eq_mul, mul_comm] at sum
  rw [geometricMean_eq exceeds some, ← inverse.exp_log positive]
  exact inverse.monotone ((le_div_iff₀ count).mpr sum)

theorem geometricMean_le (inverse : IsInverseExponential exp log) {scores : List κ}
    (some : scores ≠ []) {bound : κ} (positive : ∀ score ∈ scores, 0 < score)
    (above : ∀ score ∈ scores, score ≤ bound) :
    letI := Scalar.ofField exp log exceeds
    geometricMean scores ≤ bound := by
  have count : (0 : κ) < scores.length := Nat.cast_pos.mpr (List.length_pos_iff.mpr some)
  obtain ⟨first, member⟩ := List.exists_mem_of_ne_nil scores some
  have boundPositive : 0 < bound := (positive first member).trans_le (above first member)
  have logarithms : ∀ power ∈ scores.map log, power ≤ log bound := by
    intro power member
    obtain ⟨score, within, rfl⟩ := List.mem_map.mp member
    exact inverse.log_le_log (positive score within) (above score within)
  have sum := List.sum_le_card_nsmul (scores.map log) (log bound) logarithms
  rw [List.length_map, nsmul_eq_mul, mul_comm] at sum
  rw [geometricMean_eq exceeds some, ← inverse.exp_log boundPositive]
  exact inverse.monotone ((div_le_iff₀ count).mpr sum)

theorem betweenExtremes_geometricMean (inverse : IsInverseExponential exp log) {scores : List κ}
    (some : scores ≠ []) (positive : ∀ score ∈ scores, 0 < score) :
    letI := Scalar.ofField exp log exceeds
    BetweenExtremes scores (geometricMean scores) := by
  have nonempty : scores.toFinset.Nonempty := (List.toFinset_nonempty_iff scores).mpr some
  obtain ⟨least, leastMember, below⟩ := scores.toFinset.exists_min_image id nonempty
  obtain ⟨greatest, greatestMember, above⟩ := scores.toFinset.exists_max_image id nonempty
  simp only [List.mem_toFinset, id] at leastMember greatestMember below above
  refine ⟨least, leastMember, greatest, greatestMember,
    fun score member => ⟨below score member, above score member⟩, ?_, ?_⟩
  · exact le_geometricMean exceeds inverse some (positive least leastMember) below
  · exact geometricMean_le exceeds inverse some positive above

omit [LinearOrder κ] [IsStrictOrderedRing κ] in
theorem sum_repeated (count : Nat) (numbers : List κ) :
    (numbers.flatMap (List.replicate count)).sum = count * numbers.sum := by
  induction numbers with
  | nil => rw [List.flatMap_nil, List.sum_nil, mul_zero]
  | cons number numbers ih =>
      rw [List.flatMap_cons, List.sum_append, ih, List.sum_replicate, nsmul_eq_mul, List.sum_cons,
        mul_add]

/-- The mean of scores all of which come equally often, in any order. Sum and length grow by the
same factor, so nothing is asked of the exponential and the logarithm. -/
theorem geometricMean_of_repeated {scores others : List κ} {count : Nat} (positive : 0 < count)
    (same : others.Perm (scores.flatMap (List.replicate count))) :
    letI := Scalar.ofField exp log exceeds
    geometricMean others = geometricMean scores := by
  cases scores with
  | nil => rw [same.eq_nil]
  | cons score scores =>
      have length : others.length = count * (score :: scores).length := by
        rw [same.length_eq, List.length_flatMap]
        simp only [List.length_replicate, List.map_const', List.sum_replicate_nat, Nat.mul_comm]
      have some : others ≠ [] := by
        apply List.ne_nil_of_length_pos
        rw [length]
        exact Nat.mul_pos positive (Nat.succ_pos _)
      have sum : (others.map log).sum = count * ((score :: scores).map log).sum := by
        rw [(same.map log).sum_eq, ← sum_repeated, List.map_flatMap, List.flatMap_map]
        simp only [List.map_replicate]
      rw [geometricMean_eq exceeds some, geometricMean_eq exceeds (List.cons_ne_nil score scores), sum,
        length, Nat.cast_mul, mul_div_mul_left _ _ (Nat.cast_ne_zero.mpr positive.ne')]

end Means

/-! ### Rules -/

section Rules

variable {exp log : κ → κ}

theorem GroundLayout.exists_scores (exponential : IsExponential exp) (exceeds : κ → κ → Bool)
    {diagram : Diagram κ} {layouts : List GroundLayout}
    (scorable : ∀ layout ∈ layouts, layout.isScored = true ∧
      ∀ atom ∈ layout.operands, ∃ point, diagram.find? atom = some point) :
    letI := Scalar.ofField exp log exceeds
    List.Forall₂ (fun layout score => layout.score diagram = .ok score) layouts
        (layouts.map (Layout.scoreOrZero diagram)) ∧
      ∀ score ∈ layouts.map (Layout.scoreOrZero diagram), score ∈ Set.Ioc (0 : κ) 1 := by
  let arithmetic := Scalar.ofField exp log exceeds
  have each : ∀ layout ∈ layouts, layout.score diagram = .ok (layout.scoreOrZero diagram) ∧
      layout.scoreOrZero diagram ∈ Set.Ioc (0 : κ) 1 := by
    intro layout member
    obtain ⟨isScored, drawn⟩ := scorable layout member
    obtain ⟨score, scored, range⟩ := exists_score_mem_Ioc exponential log exceeds isScored drawn
    have same : layout.scoreOrZero diagram = score := by rw [Layout.scoreOrZero, scored]
    rw [same]
    exact ⟨scored, range⟩
  constructor
  · rw [List.forall₂_map_right_iff, List.forall₂_same]
    exact fun layout member => (each layout member).1
  · intro score member
    obtain ⟨layout, within, rfl⟩ := List.mem_map.mp member
    exact (each layout within).2

/-- Where a rule has instances, all with a curve and with their atoms drawn, its confidence lies
between the smallest and the greatest score of an instance. All scores are above zero and at most
one, and neither their order counts nor how often each of them comes, if all come equally often. -/
theorem Rule.confidence_mean (inverse : IsInverseExponential exp log) (exceeds : κ → κ → Bool)
    {schema : Schema} {world : Instance} {diagram : Diagram κ} {rule : Rule}
    {layouts : List GroundLayout} (compiled : rule.compile schema world 0 = .ok layouts)
    (instantiated : layouts ≠ [])
    (scorable : ∀ layout ∈ layouts, layout.isScored = true ∧
      ∀ atom ∈ layout.operands, ∃ point, diagram.find? atom = some point) :
    letI := Scalar.ofField exp log exceeds
    ∃ scores, List.Forall₂ (fun layout score => layout.score diagram = .ok score) layouts scores ∧
      (∀ score ∈ scores, score ∈ Set.Ioc (0 : κ) 1) ∧
      ∃ mean, rule.confidence schema world diagram = .ok mean ∧ BetweenExtremes scores mean ∧
        (∀ others, others.Perm scores → geometricMean others = mean) ∧
        ∀ count others, 0 < count → others.Perm (scores.flatMap (List.replicate count)) →
          geometricMean others = mean := by
  let arithmetic := Scalar.ofField exp log exceeds
  obtain ⟨each, ranges⟩ := GroundLayout.exists_scores inverse.toIsExponential exceeds scorable
  refine ⟨_, each, ranges, _, Rule.confidence_eq_ok_iff.mpr ⟨layouts, compiled, rfl⟩, ?_, ?_, ?_⟩
  · have some : layouts.map (Layout.scoreOrZero diagram) ≠ [] := by
      rw [ne_eq, List.map_eq_nil_iff]
      exact instantiated
    exact betweenExtremes_geometricMean exceeds inverse some (fun score member => (ranges score member).1)
  · intro others same
    have once : (layouts.map (Layout.scoreOrZero diagram)).flatMap (List.replicate 1) =
        layouts.map (Layout.scoreOrZero diagram) := List.flatMap_singleton' _
    rw [← once] at same
    exact geometricMean_of_repeated exceeds one_pos same
  · exact fun count others positive same => geometricMean_of_repeated exceeds positive same

/-- Two apples, only one of which stands above the centre. -/
theorem Rule.confidence_mean_apples :
    letI := Scalar.ofReals
    let schema : Schema := { signatures := ["Apple"], predicates := [], hierarchy := [] }
    let world : Instance :=
      { atoms := [{ name := "a", signature := "Apple" }, { name := "b", signature := "Apple" }]
        facts := [] }
    let diagram : Diagram ℝ := .ofList [("a", { x := 0, y := 80 }), ("b", { x := 0, y := -3 })]
    let rule : Rule :=
      { chain := { first := .signature "v0" "Apple", rest := [] }
        terminal := .unary .aboveCenter .unspecified "v0" }
    let layouts : List GroundLayout :=
      [.unary .aboveCenter .unspecified "a", .unary .aboveCenter .unspecified "b"]
    IsInverseExponential Real.exp Real.log ∧ rule.compile schema world 0 = .ok layouts ∧
      layouts ≠ [] ∧
      (∀ layout ∈ layouts, layout.isScored = true ∧
        ∀ atom ∈ layout.operands, ∃ point, diagram.find? atom = some point) ∧
      ∃ first second mean : ℝ,
        Layout.score diagram (.unary .aboveCenter .unspecified "a" : GroundLayout) = .ok first ∧
        Layout.score diagram (.unary .aboveCenter .unspecified "b" : GroundLayout) = .ok second ∧
        rule.confidence schema world diagram = .ok mean ∧
        BetweenExtremes [first, second] mean ∧ geometricMean [second, first] = mean ∧
        geometricMean [second, first, first, second] = mean := by
  let arithmetic := Scalar.ofReals
  intro schema world diagram rule layouts
  have compiled : rule.compile schema world 0 = .ok layouts := by decide +kernel
  have scorable : ∀ layout ∈ layouts, layout.isScored = true ∧
      ∀ atom ∈ layout.operands, ∃ point, diagram.find? atom = some point := by
    intro layout member
    rcases List.mem_pair.mp member with rfl | rfl
    all_goals
      refine ⟨rfl, fun atom only => ?_⟩
      rw [List.mem_singleton.mp only]
      exact ⟨_, rfl⟩
  obtain ⟨scores, each, _, mean, known, between, permuted, repeated⟩ :=
    confidence_mean isInverseExponential_exp (fun left right => decide (right < left)) compiled
      (List.cons_ne_nil _ _) scorable
  obtain ⟨first, _, firstScore, rest, rfl⟩ := List.forall₂_cons_left_iff.mp each
  obtain ⟨second, _, secondScore, none, rfl⟩ := List.forall₂_cons_left_iff.mp rest
  cases List.forall₂_nil_left_iff.mp none
  refine ⟨isInverseExponential_exp, compiled, List.cons_ne_nil _ _, scorable, first, second, mean,
    firstScore, secondScore, known, between, ?_, ?_⟩
  · exact permuted [second, first] (.swap first second [])
  · apply repeated 2 [second, first, first, second] two_pos
    change ([second] ++ [first, first, second]).Perm ([first, first, second] ++ [second])
    exact List.perm_append_comm

end Rules

end RelationalLayout
