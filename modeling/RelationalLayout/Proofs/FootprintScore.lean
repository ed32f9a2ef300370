/-
Footprints keep scores.

The score of a relation is the product of the scores of its parts, and no score tells a
relation from its mirror. So a layout has a score exactly when all of its footprints
have one, and it is the product of theirs.
-/

import Mathlib.Algebra.Field.Defs
import Mathlib.Analysis.SpecialFunctions.Log.Basic
import Mathlib.Tactic.Ring
import RelationalLayout.Proofs.Confidence
import RelationalLayout.Proofs.Mirror

namespace RelationalLayout

/-! ### Exact arithmetic -/

section Field

variable {κ : Type} [Field κ]

/-- The arithmetic of a field, with any functions as exponential and logarithm and any comparison. -/
@[reducible]
def Scalar.ofField (exp log : κ → κ) (exceeds : κ → κ → Bool) : Scalar κ where
  ofNat number := number
  exp := exp
  log := log
  exceeds := exceeds

instance (exp log : κ → κ) (exceeds : κ → κ → Bool) :
    @ExactNegation κ (Scalar.ofField exp log exceeds) :=
  letI := Scalar.ofField exp log exceeds
  { Alike := fun first second => first = second
    symm := Eq.symm
    trans := Eq.trans
    neg := congrArg (-·)
    sub := fun same third => congrArg (· - third) same
    mul := fun factor _ _ same => congrArg (factor * ·) same
    div := fun same third => congrArg (· / third) same
    neg_neg := fun number => neg_neg number
    sub_swap := fun first second => (neg_sub first second).symm
    sub_neg_neg := fun first second => (neg_sub_neg first second).trans (neg_sub first second).symm
    mul_comm := fun first second => mul_comm first second
    mul_neg := fun first second => mul_neg first second
    neg_mul := fun first second => neg_mul first second
    exp_eq := congrArg exp }

/-- The arithmetic of real numbers. -/
@[reducible]
noncomputable def Scalar.ofReals : Scalar ℝ :=
  Scalar.ofField Real.exp Real.log (fun left right => decide (right < left))

end Field

variable {α : Type} [Scalar α]

def product : List α → α
  | [] => Scalar.one
  | [factor] => factor
  | factor :: factors => factor * product factors

/-! ### Parts of a relation -/

theorem BinaryOption.exists_confidences {option : BinaryOption} {first second : Point α} {score : α}
    (scored : option.confidence? first second = some score) :
    ∃ scores, List.Forall₂ (fun part score => part.confidence? first second = some score)
      option.parts scores ∧ score = product scores := by
  cases option with
  | directlyLeftOf | directlyAbove =>
      cases scored
      exact ⟨[_, _], .cons rfl (.cons rfl .nil), rfl⟩
  | _ => exact ⟨[score], .cons scored .nil, rfl⟩

namespace Layout

variable {tag : Type} [LayoutTag tag] {diagram : Diagram α}

theorem score_binary_eq_ok_iff {option : BinaryOption} {separation : Separation}
    {first second : String} {score : α} :
    Layout.score diagram (.binary option separation first second : Layout tag) = .ok score ↔
      ∃ left right, diagram.find? first = some left ∧ diagram.find? second = some right ∧
        option.confidence? left right = some score := by
  simp only [Layout.score, Diagram.locate]
  cases diagram.find? first with
  | none => simp [bind, Except.bind]
  | some left =>
      cases diagram.find? second with
      | none => simp [bind, Except.bind]
      | some right =>
          cases h : option.confidence? left right <;> simp [bind, Except.bind, h]

theorem exists_score_binary_iff {option : BinaryOption} (supported : option.isSupported = true)
    {separation : Separation} {first second : String} :
    (∃ score, Layout.score diagram (.binary option separation first second : Layout tag) = .ok score) ↔
      (∃ left, diagram.find? first = some left) ∧ ∃ right, diagram.find? second = some right := by
  constructor
  · rintro ⟨score, scored⟩
    obtain ⟨left, right, foundLeft, foundRight, _⟩ := score_binary_eq_ok_iff.mp scored
    exact ⟨⟨left, foundLeft⟩, right, foundRight⟩
  · rintro ⟨⟨left, foundLeft⟩, right, foundRight⟩
    cases known : option.confidence? left right with
    | none =>
        rw [BinaryOption.confidence?_eq_none_iff.mp known] at supported
        cases supported
    | some score => exact ⟨score, score_binary_eq_ok_iff.mpr ⟨left, right, foundLeft, foundRight, known⟩⟩

end Layout

/-! ### Footprints -/

namespace GroundLayout

variable {diagram : Diagram α}

theorem IsMirror.score_iff [ExactNegation α] {layout image : GroundLayout}
    (mirrored : layout.IsMirror image) {score : α} :
    image.score diagram = .ok score ↔ layout.score diagram = .ok score := by
  cases mirrored with
  | binary mirrored =>
      have same := BinaryOption.confidence?_mirror_of_swap (α := α) ExactNegation.rising_swap
        ExactNegation.bell_swap mirrored
      rw [Layout.score_binary_eq_ok_iff, Layout.score_binary_eq_ok_iff]
      constructor
      · rintro ⟨right, left, foundRight, foundLeft, known⟩
        exact ⟨left, right, foundLeft, foundRight, same left right ▸ known⟩
      · rintro ⟨left, right, foundLeft, foundRight, known⟩
        exact ⟨right, left, foundRight, foundLeft, (same left right).trans known⟩

theorem Alike.score_iff [ExactNegation α] {layout other : GroundLayout} (alike : layout.Alike other)
    {score : α} : other.score diagram = .ok score ↔ layout.score diagram = .ok score := by
  rcases alike with rfl | mirrored
  · rfl
  · exact mirrored.score_iff

def isScored : GroundLayout → Bool
  | .unary _ _ _ => true
  | .binary option _ _ _ => option.isSupported
  | _ => false

def FootprintsScore (diagram : Diagram α) (layout : GroundLayout) (scores : List α) : Prop :=
  List.Forall₂ (fun footprint score => footprint.score diagram = .ok score) layout.footprints scores

theorem exists_footprintsScore_of_forward [ExactNegation α] {option : BinaryOption}
    (forward : option.isForward = true) {separation : Separation} {first second : String} {score : α}
    (scored : Layout.score diagram (.binary option separation first second : GroundLayout) =
      .ok score) :
    ∃ scores, FootprintsScore diagram (.binary option separation first second) scores ∧
      score = product scores := by
  obtain ⟨left, right, foundLeft, foundRight, known⟩ := Layout.score_binary_eq_ok_iff.mp scored
  obtain ⟨scores, each, same⟩ := BinaryOption.exists_confidences known
  refine ⟨scores, ?_, same⟩
  rw [FootprintsScore, footprints_of_isForward forward, List.forall₂_map_left_iff]
  refine each.imp (fun part partScore partKnown => ?_)
  refine (footprint_alike separation first second part).score_iff.mpr ?_
  exact Layout.score_binary_eq_ok_iff.mpr ⟨left, right, foundLeft, foundRight, partKnown⟩

theorem exists_footprintsScore [ExactNegation α] {layout : GroundLayout} {score : α}
    (scored : layout.score diagram = .ok score) :
    ∃ scores, FootprintsScore diagram layout scores ∧ score = product scores := by
  cases layout with
  | unary => exact ⟨[score], .cons scored .nil, rfl⟩
  | cyclic | grouping => cases scored
  | binary option separation first second =>
      obtain ⟨forward, left, right, isForward, alike⟩ :=
        exists_forward option separation first second
      obtain ⟨scores, each, same⟩ :=
        exists_footprintsScore_of_forward isForward (alike.score_iff.mpr scored)
      rw [FootprintsScore, alike.footprints_eq] at each
      exact ⟨scores, each, same⟩

theorem exists_score_of_mem_footprints {layout footprint : GroundLayout}
    (isScored : layout.isScored = true) (member : footprint ∈ layout.footprints)
    (scored : ∃ score, footprint.score diagram = .ok score) :
    ∃ score, layout.score diagram = .ok score := by
  cases layout with
  | unary =>
      rw [List.mem_singleton.mp member] at scored
      exact scored
  | cyclic | grouping => cases isScored
  | binary option separation first second =>
      obtain ⟨part, left, right, rfl, supported, atoms⟩ := exists_of_mem_footprints member
      -- A score only takes that both atoms are drawn, and one footprint names both.
      have drawn := (Layout.exists_score_binary_iff (supported.trans isScored)).mp scored
      refine (Layout.exists_score_binary_iff isScored).mpr ?_
      rcases atoms with ⟨rfl, rfl⟩ | ⟨rfl, rfl⟩
      · exact drawn
      · exact drawn.symm

/-- A unary layout, or a binary one with a supported option, has a score exactly when all of its
footprints have one; it is the product of theirs, and the score of every mirror image. -/
theorem score_footprints_exact [ExactNegation α] {layout : GroundLayout}
    (isScored : layout.isScored = true) (diagram : Diagram α) :
    ((∃ score, layout.score diagram = .ok score) ↔
      ∀ footprint ∈ layout.footprints, ∃ score, footprint.score diagram = .ok score) ∧
    (∀ score, layout.score diagram = .ok score →
      ∃ scores, FootprintsScore diagram layout scores ∧ score = product scores) ∧
    ∀ image, layout.IsMirror image →
      ∀ score, image.score diagram = .ok score ↔ layout.score diagram = .ok score := by
  refine ⟨⟨?_, ?_⟩, fun _ => exists_footprintsScore, fun _ mirrored _ => mirrored.score_iff⟩
  · rintro ⟨score, scored⟩ footprint member
    obtain ⟨scores, each, _⟩ := exists_footprintsScore scored
    obtain ⟨number, within, rfl⟩ := List.getElem_of_mem member
    exact ⟨_, each.get within (each.length_eq ▸ within)⟩
  · intro each
    obtain ⟨footprint, member⟩ := List.exists_mem_of_ne_nil _ layout.footprints_ne_nil
    exact exists_score_of_mem_footprints isScored member (each footprint member)

/-- A relation whose footprints have its operands in the other order, scored in real numbers. -/
theorem score_footprints_exact_below :
    letI := Scalar.ofReals
    let layout : GroundLayout := .binary .directlyBelow .unspecified "b" "a"
    let diagram : Diagram ℝ := .ofList [("a", { x := 3, y := 80 }), ("b", { x := 5, y := 0 })]
    layout.isScored = true ∧
      layout.footprints =
        [.binary .above .unspecified "a" "b", .binary .verticallyAligned .unspecified "a" "b"] ∧
      ∃ direction level : ℝ,
        Layout.score diagram (.binary .above .unspecified "a" "b" : GroundLayout) = .ok direction ∧
        Layout.score diagram (.binary .verticallyAligned .unspecified "a" "b" : GroundLayout) =
          .ok level ∧
        layout.score diagram = .ok (direction * level) ∧
        Layout.score diagram (.binary .directlyAbove .unspecified "a" "b" : GroundLayout) =
          .ok (direction * level) := by
  let arithmetic := Scalar.ofReals
  intro layout diagram
  have footprints : layout.footprints =
      [.binary .above .unspecified "a" "b", .binary .verticallyAligned .unspecified "a" "b"] := by
    decide
  have supported : layout.isScored = true := rfl
  obtain ⟨_, factors, images⟩ := score_footprints_exact supported diagram
  obtain ⟨score, scored⟩ : ∃ score, layout.score diagram = .ok score := ⟨_, rfl⟩
  obtain ⟨scores, each, same⟩ := factors score scored
  rw [FootprintsScore, footprints] at each
  obtain ⟨direction, _, first, rest, rfl⟩ := List.forall₂_cons_left_iff.mp each
  obtain ⟨level, _, second, none, rfl⟩ := List.forall₂_cons_left_iff.mp rest
  cases List.forall₂_nil_left_iff.mp none
  replace scored := scored.trans (congrArg Except.ok same)
  exact ⟨supported, footprints, direction, level, first, second, scored,
    (images _ (.binary rfl .unspecified "b" "a") _).mpr scored⟩

end GroundLayout

end RelationalLayout
