/-
Footprints ask the same of coordinates.

Without a separation a relation asks for what its parts ask for, and a mirror image for
the same. So the constraints of a layout have the solutions that those of its footprints
have together, and rule sets with the same footprints are met by the same coordinates.
-/

import RelationalLayout.Compilation
import RelationalLayout.Proofs.MirrorConstraint
import RelationalLayout.Proofs.Text.Distinct

namespace RelationalLayout

/-! ### Relations without a separation -/

def GroundLayout.separation : GroundLayout → Separation
  | .unary _ separation _ => separation
  | .binary _ separation _ _ => separation
  | _ => .unspecified

namespace BinaryOption

variable {α : Type} [Measure α]

theorem constraints_of_isForward {option : BinaryOption} (forward : option.isForward = true)
    (gap : Gap α) (placement : Placement α) (first second : String) :
    option.constraints gap false placement first second =
      option.parts.flatMap (fun part => part.constraints gap false placement first second) := by
  cases option with
  | rightOf | below | directlyRightOf | directlyBelow => cases forward
  | _ => simp [parts, constraints]

theorem constraints_unspaced_congr (option : BinaryOption) (gap : Gap α)
    (placement other : Placement α) (first second : String) :
    option.constraints gap false placement first second =
      option.constraints gap false other first second := by
  cases option <;> rfl

end BinaryOption

variable {α κ : Type} [Measure α] [AddCommGroup κ] [LinearOrder κ] {value : α → κ}
  {settings : StagingSettings} {placement : Placement α} {position : Assignment κ}

namespace GroundLayout

theorem holds_unspaced_congr {layout : GroundLayout} (unspaced : layout.separation = .unspecified)
    (other : Placement α) :
    layout.Holds settings placement value position ↔
      layout.Holds settings other value position := by
  cases layout with
  | unary | cyclic | grouping => rfl
  | binary option separation first second =>
      cases unspaced
      change (∀ constraint ∈ option.constraints _ false placement first second, _) ↔
        ∀ constraint ∈ option.constraints _ false other first second, _
      rw [option.constraints_unspaced_congr _ placement other]

theorem holds_parts_iff {option : BinaryOption} (forward : option.isForward = true)
    (first second : String) :
    Holds settings placement value position (.binary option .unspecified first second) ↔
      ∀ part ∈ option.parts,
        Holds settings placement value position (.binary part .unspecified first second) := by
  change (∀ constraint ∈ option.constraints _ false placement first second, _) ↔ _
  rw [BinaryOption.constraints_of_isForward forward]
  simp only [List.mem_flatMap, forall_exists_index, and_imp]
  constructor
  · intro holds part isPart constraint inPart
    exact holds constraint part isPart inPart
  · intro holds constraint part isPart inPart
    exact holds part isPart constraint inPart

variable [IsOrderedAddMonoid κ]

theorem Alike.holds_iff (reads : Reads value) {layout other : GroundLayout}
    (alike : layout.Alike other) (unspaced : layout.separation = .unspecified) :
    other.Holds settings placement value position ↔
      layout.Holds settings placement value position := by
  rcases alike with rfl | mirrored
  · rfl
  · cases mirrored with
    | binary mirrored =>
        refine holds_mirror_of_not_contested reads mirrored ?_
        intro contested
        exact contested.1 unspaced

/-- The constraints of a layout without a separation are met exactly where those of its footprints
are. -/
theorem holds_footprints_iff (reads : Reads value) {layout : GroundLayout}
    (unspaced : layout.separation = .unspecified) :
    layout.Holds settings placement value position ↔
      ∀ footprint ∈ layout.footprints, footprint.Holds settings placement value position := by
  cases layout with
  | unary | cyclic | grouping => exact List.forall_mem_singleton.symm
  | binary option separation first second =>
      cases unspaced
      obtain ⟨forward, left, right, isForward, alike⟩ :=
        exists_forward option .unspecified first second
      rw [← alike.footprints_eq, footprints_of_isForward isForward, List.forall_mem_map,
        ← alike.holds_iff reads rfl, holds_parts_iff isForward]
      refine forall₂_congr (fun part _ => ?_)
      exact ((footprint_alike .unspecified left right part).holds_iff reads rfl).symm

theorem holds_all_iff_of_key_eq (reads : Reads value) {layouts others : List GroundLayout}
    (unspaced : ∀ layout ∈ layouts, layout.separation = .unspecified)
    (othersUnspaced : ∀ layout ∈ others, layout.separation = .unspecified)
    (sameKey : FootprintKey.ofFootprints (canonicalize layouts) =
      FootprintKey.ofFootprints (canonicalize others)) (otherPlacement : Placement α) :
    (∀ layout ∈ layouts, layout.Holds settings placement value position) ↔
      ∀ layout ∈ others, layout.Holds settings otherPlacement value position := by
  have sameFootprints (footprint : GroundLayout) :
      footprint ∈ canonicalize layouts ↔ footprint ∈ canonicalize others := by
    rw [← FootprintKey.text_mem_ofFootprints_iff, sameKey, FootprintKey.text_mem_ofFootprints_iff]
  have canonical {list : List GroundLayout}
      (plain : ∀ layout ∈ list, layout.separation = .unspecified) :
      (∀ layout ∈ list, layout.Holds settings placement value position) ↔
        ∀ footprint ∈ canonicalize list, footprint.Holds settings placement value position := by
    rw [canonicalize, List.forall_mem_flatMap]
    exact forall₂_congr (fun layout member => holds_footprints_iff reads (plain layout member))
  calc (∀ layout ∈ layouts, layout.Holds settings placement value position)
    _ ↔ ∀ footprint ∈ canonicalize layouts, footprint.Holds settings placement value position :=
        canonical unspaced
    _ ↔ ∀ footprint ∈ canonicalize others, footprint.Holds settings placement value position := by
        simp only [sameFootprints]
    _ ↔ ∀ layout ∈ others, layout.Holds settings placement value position :=
        (canonical othersUnspaced).symm
    _ ↔ ∀ layout ∈ others, layout.Holds settings otherPlacement value position :=
        forall₂_congr (fun layout member =>
          holds_unspaced_congr (othersUnspaced layout member) otherPlacement)

end GroundLayout

/-! ### Rule sets -/

/-- The rules have layouts over the instance, and the coordinates meet the constraints of all of
them. -/
def Program.MetBy (schema : Schema) (world : Instance) (settings : StagingSettings)
    (placement : Placement α) (value : α → κ) (position : Assignment κ) (program : Program) : Prop :=
  ∃ layouts, program.compile schema world = .ok layouts ∧
    ∀ layout ∈ layouts, layout.Holds settings placement value position

theorem Program.metBy_iff {schema : Schema} {world : Instance} {program : Program}
    {layouts : List GroundLayout} (compiled : program.compile schema world = .ok layouts) :
    program.MetBy schema world settings placement value position ↔
      ∀ layout ∈ layouts, layout.Holds settings placement value position := by
  simp only [MetBy, compiled, Except.ok.injEq, exists_eq_left']

/-- A layout without a separation is placed exactly where all of its footprints are. So two rule
sets whose layouts have no separation are met by the same coordinates if they have the same key,
wherever the atoms are pulled to for each of them. -/
theorem constraints_footprints_exact [IsOrderedAddMonoid κ] (reads : Reads value)
    (settings : StagingSettings) :
    (∀ (placement : Placement α) (layout : GroundLayout), layout.separation = .unspecified →
      ∀ position : Assignment κ,
        layout.Holds settings placement value position ↔
          ∀ footprint ∈ layout.footprints,
            footprint.Holds settings placement value position) ∧
    ∀ (schema : Schema) (world : Instance) (program other : Program)
      (layouts others : List GroundLayout),
      program.compile schema world = .ok layouts → other.compile schema world = .ok others →
      (∀ layout ∈ layouts, layout.separation = .unspecified) →
      (∀ layout ∈ others, layout.separation = .unspecified) →
      FootprintKey.ofFootprints (GroundLayout.canonicalize layouts) =
        FootprintKey.ofFootprints (GroundLayout.canonicalize others) →
      ∀ (placement otherPlacement : Placement α) (position : Assignment κ),
        program.MetBy schema world settings placement value position ↔
          other.MetBy schema world settings otherPlacement value position := by
  constructor
  · intro placement layout unspaced position
    exact GroundLayout.holds_footprints_iff reads unspaced
  · intro schema world program other layouts others compiled otherCompiled unspaced othersUnspaced
      sameKey placement otherPlacement position
    rw [Program.metBy_iff compiled, Program.metBy_iff otherCompiled]
    exact GroundLayout.holds_all_iff_of_key_eq reads unspaced othersUnspaced sameKey otherPlacement

/-- One rule says at once what two rules say, one of them the other way round. -/
theorem constraints_footprints_exact_edge :
    let schema : Schema :=
      { signatures := ["Node"]
        predicates := [{ name := "edge", signatures := ["Node", "Node"] }]
        hierarchy := [] }
    let world : Instance :=
      { atoms := [{ name := "n", signature := "Node" }, { name := "m", signature := "Node" }]
        facts := [{ predicate := "edge", arguments := ["n", "m"] }] }
    let edge : Chain := { first := .predicate "edge" ["a", "b"], rest := [] }
    let program : Program :=
      [{ chain := edge, terminal := .binary .directlyRightOf .unspecified "b" "a" }]
    let other : Program :=
      [{ chain := edge, terminal := .binary .leftOf .unspecified "a" "b" },
        { chain := edge, terminal := .binary .horizontallyAligned .unspecified "a" "b" }]
    ∃ layouts others,
      Reads exactValue ∧
      program.compile schema world = .ok layouts ∧ other.compile schema world = .ok others ∧
      (∀ layout ∈ layouts, layout.separation = .unspecified) ∧
      (∀ layout ∈ others, layout.separation = .unspecified) ∧
      (∀ layout ∈ layouts, ∀ (placement : Placement Float) (position : Assignment ℚ),
        layout.Holds .default placement exactValue position ↔
          ∀ footprint ∈ layout.footprints,
            footprint.Holds .default placement exactValue position) ∧
      FootprintKey.ofFootprints (GroundLayout.canonicalize layouts) =
        FootprintKey.ofFootprints (GroundLayout.canonicalize others) ∧
      ∀ (placement otherPlacement : Placement Float) (position : Assignment ℚ),
        program.MetBy schema world .default placement exactValue position ↔
          other.MetBy schema world .default otherPlacement exactValue position := by
  intro schema world edge program other
  let layouts : List GroundLayout := [.binary .directlyRightOf .unspecified "m" "n"]
  let others : List GroundLayout :=
    [.binary .leftOf .unspecified "n" "m", .binary .horizontallyAligned .unspecified "n" "m"]
  have compiled : program.compile schema world = .ok layouts := by rfl
  have otherCompiled : other.compile schema world = .ok others := by rfl
  have unspaced : ∀ layout ∈ layouts, layout.separation = .unspecified := by decide
  have othersUnspaced : ∀ layout ∈ others, layout.separation = .unspecified := by decide
  have sameFootprints : GroundLayout.canonicalize layouts = GroundLayout.canonicalize others := by
    decide
  have sameKey := congrArg FootprintKey.ofFootprints sameFootprints
  obtain ⟨each, together⟩ := constraints_footprints_exact (κ := ℚ) reads_exactValue .default
  exact ⟨layouts, others, reads_exactValue, compiled, otherCompiled, unspaced, othersUnspaced,
    fun layout member placement => each placement layout (unspaced layout member), sameKey,
    together schema world program other layouts others compiled otherCompiled unspaced othersUnspaced
      sameKey⟩

end RelationalLayout
