/-
Footprints are a canonical form.

A layout and its mirror image say the same, and of two mirrored relations one is the
forward one. Footprints are those of the forward relation: its parts, alignments with
their operands in the order of their names. So footprints are their own footprints,
and layouts share them only with their mirror images.
-/

import RelationalLayout.Proofs.Footprint

namespace RelationalLayout

namespace BinaryOption

theorem mirror_mirror {option mirror : BinaryOption} (mirrored : option.mirror = some mirror) :
    mirror.mirror = some option := by
  cases option <;> cases mirrored <;> rfl

def isAlignment : BinaryOption → Bool
  | .horizontallyAligned => true
  | .verticallyAligned => true
  | _ => false

def isForward : BinaryOption → Bool
  | .rightOf => false
  | .below => false
  | .directlyRightOf => false
  | .directlyBelow => false
  | _ => true

def parts : BinaryOption → List BinaryOption
  | .directlyLeftOf => [.leftOf, .horizontallyAligned]
  | .directlyAbove => [.above, .verticallyAligned]
  | option => [option]

theorem exists_forward_mirror {option : BinaryOption} (backward : option.isForward = false) :
    ∃ mirror, option.mirror = some mirror ∧ mirror.isForward = true := by
  cases option <;> first | exact ⟨_, rfl, rfl⟩ | cases backward

theorem mirror_of_isAlignment {option : BinaryOption} (aligns : option.isAlignment = true) :
    option.mirror = some option := by
  cases option <;> first | rfl | cases aligns

theorem isSupported_mirror {option mirror : BinaryOption} (mirrored : option.mirror = some mirror) :
    mirror.isSupported = option.isSupported := by
  cases option <;> cases mirrored <;> rfl

theorem exists_parts (option : BinaryOption) :
    ∃ part rest, option.parts = part :: rest ∧ part.isAlignment = option.isAlignment := by
  cases option <;> exact ⟨_, _, rfl, rfl⟩

theorem isSupported_of_mem_parts {option part : BinaryOption} (member : part ∈ option.parts) :
    part.isSupported = option.isSupported := by
  revert member
  cases option <;> cases part <;> decide

theorem parts_of_mem_parts {option part : BinaryOption} (forward : option.isForward = true)
    (member : part ∈ option.parts) : part.isForward = true ∧ part.parts = [part] := by
  revert forward member
  cases option <;> cases part <;> decide

theorem eq_of_parts_eq {option other : BinaryOption} (forward : option.isForward = true)
    (otherForward : other.isForward = true) (same : option.parts = other.parts) :
    option = other := by
  revert forward otherForward same
  cases option <;> cases other <;> decide

end BinaryOption

namespace GroundLayout

/-! ### Mirror images -/

/-- Two binary layouts with the same separation, of which each has the mirror of the other's
option and the other's operands in the other order. -/
inductive IsMirror : GroundLayout → GroundLayout → Prop where
  | binary {option mirror : BinaryOption} (mirrored : option.mirror = some mirror)
      (separation : Separation) (first second : String) :
      IsMirror (.binary option separation first second) (.binary mirror separation second first)

theorem IsMirror.symm {layout image : GroundLayout} (mirrored : layout.IsMirror image) :
    image.IsMirror layout := by
  cases mirrored with
  | binary mirrored separation first second =>
      exact .binary (BinaryOption.mirror_mirror mirrored) separation second first

theorem IsMirror.unique {layout image other : GroundLayout} (mirrored : layout.IsMirror image)
    (also : layout.IsMirror other) : image = other := by
  cases mirrored with
  | binary mirrored =>
      cases also with
      | binary alsoMirrored =>
          rw [mirrored] at alsoMirrored
          cases alsoMirrored
          rfl

theorem IsMirror.footprints_eq {layout image : GroundLayout} (mirrored : layout.IsMirror image) :
    image.footprints = layout.footprints := by
  cases mirrored with
  | binary mirrored => exact footprints_mirror mirrored _ _ _

def Alike (layout other : GroundLayout) : Prop := layout = other ∨ layout.IsMirror other

theorem Alike.symm {layout other : GroundLayout} (alike : layout.Alike other) :
    other.Alike layout := by
  rcases alike with rfl | mirrored
  · exact Or.inl rfl
  · exact Or.inr mirrored.symm

theorem Alike.trans {layout other third : GroundLayout} (alike : layout.Alike other)
    (also : other.Alike third) : layout.Alike third := by
  rcases alike with rfl | mirrored
  · exact also
  · rcases also with rfl | again
    · exact Or.inr mirrored
    · exact Or.inl (mirrored.symm.unique again)

theorem Alike.footprints_eq {layout other : GroundLayout} (alike : layout.Alike other) :
    other.footprints = layout.footprints := by
  rcases alike with rfl | mirrored
  · rfl
  · exact mirrored.footprints_eq

/-! ### Forward layouts -/

def footprint (separation : Separation) (first second : String) (part : BinaryOption) :
    GroundLayout :=
  if part.isAlignment then
    aligned part separation first second
  else
    .binary part separation first second

theorem footprints_of_isForward {option : BinaryOption} (forward : option.isForward = true)
    (separation : Separation) (first second : String) :
    footprints (.binary option separation first second) =
      option.parts.map (footprint separation first second) := by
  cases option <;> first | rfl | cases forward

/-- Up to a mirror every binary layout is a forward one. -/
theorem exists_forward (option : BinaryOption) (separation : Separation) (first second : String) :
    ∃ forward left right, forward.isForward = true ∧
      Alike (.binary option separation first second) (.binary forward separation left right) := by
  cases direction : option.isForward with
  | true => exact ⟨option, first, second, direction, Or.inl rfl⟩
  | false =>
      obtain ⟨mirror, mirrored, forward⟩ := BinaryOption.exists_forward_mirror direction
      exact ⟨mirror, second, first, forward, Or.inr (.binary mirrored separation first second)⟩

/-! ### Alignments -/

theorem aligned_eq_or (option : BinaryOption) (separation : Separation) (first second : String) :
    aligned option separation first second = .binary option separation first second ∨
      aligned option separation first second = .binary option separation second first := by
  unfold aligned
  split
  · exact Or.inl rfl
  · exact Or.inr rfl

theorem eq_of_aligned_eq {option other : BinaryOption} {separation otherSeparation : Separation}
    {first second left right : String}
    (same : aligned option separation first second = aligned other otherSeparation left right) :
    separation = otherSeparation ∧ (first = left ∧ second = right ∨ first = right ∧ second = left) := by
  rcases aligned_eq_or option separation first second with ordered | swapped
  · rcases aligned_eq_or other otherSeparation left right with otherOrdered | otherSwapped
    · rw [ordered, otherOrdered] at same
      cases same
      exact ⟨rfl, Or.inl ⟨rfl, rfl⟩⟩
    · rw [ordered, otherSwapped] at same
      cases same
      exact ⟨rfl, Or.inr ⟨rfl, rfl⟩⟩
  · rcases aligned_eq_or other otherSeparation left right with otherOrdered | otherSwapped
    · rw [swapped, otherOrdered] at same
      cases same
      exact ⟨rfl, Or.inr ⟨rfl, rfl⟩⟩
    · rw [swapped, otherSwapped] at same
      cases same
      exact ⟨rfl, Or.inl ⟨rfl, rfl⟩⟩

/-! ### Footprints of footprints -/

theorem footprint_eq_or (separation : Separation) (first second : String) (part : BinaryOption) :
    footprint separation first second part = .binary part separation first second ∨
      footprint separation first second part = .binary part separation second first := by
  unfold footprint
  split
  · exact aligned_eq_or part separation first second
  · exact Or.inl rfl

theorem footprint_alike (separation : Separation) (first second : String) (part : BinaryOption) :
    Alike (.binary part separation first second) (footprint separation first second part) := by
  cases aligns : part.isAlignment with
  | false =>
      rw [footprint, aligns, if_neg Bool.false_ne_true]
      exact Or.inl rfl
  | true =>
      rcases footprint_eq_or separation first second part with ordered | swapped
      · exact Or.inl ordered.symm
      · rw [swapped]
        exact Or.inr (.binary (BinaryOption.mirror_of_isAlignment aligns) separation first second)

theorem footprints_ne_nil (layout : GroundLayout) : layout.footprints ≠ [] := by
  cases layout with
  | unary | cyclic | grouping => exact List.cons_ne_nil _ _
  | binary option => cases option <;> exact List.cons_ne_nil _ _

theorem exists_of_mem_footprints {option : BinaryOption} {separation : Separation}
    {first second : String} {found : GroundLayout}
    (member : found ∈ footprints (.binary option separation first second)) :
    ∃ part left right, found = .binary part separation left right ∧
      part.isSupported = option.isSupported ∧
      (left = first ∧ right = second ∨ left = second ∧ right = first) := by
  obtain ⟨forward, left, right, isForward, alike⟩ := exists_forward option separation first second
  rw [← alike.footprints_eq, footprints_of_isForward isForward] at member
  obtain ⟨part, isPart, rfl⟩ := List.mem_map.mp member
  have supported := BinaryOption.isSupported_of_mem_parts isPart
  have shape := footprint_eq_or separation left right part
  rcases alike with same | mirrored
  · cases same
    rcases shape with ordered | swapped
    · exact ⟨part, _, _, ordered, supported, Or.inl ⟨rfl, rfl⟩⟩
    · exact ⟨part, _, _, swapped, supported, Or.inr ⟨rfl, rfl⟩⟩
  · cases mirrored with
    | binary mirrored =>
        rw [BinaryOption.isSupported_mirror mirrored] at supported
        rcases shape with ordered | swapped
        · exact ⟨part, _, _, ordered, supported, Or.inr ⟨rfl, rfl⟩⟩
        · exact ⟨part, _, _, swapped, supported, Or.inl ⟨rfl, rfl⟩⟩

theorem footprints_footprint {option part : BinaryOption} (forward : option.isForward = true)
    (isPart : part ∈ option.parts) (separation : Separation) (first second : String) :
    footprints (footprint separation first second part) =
      [footprint separation first second part] := by
  obtain ⟨partForward, atomic⟩ := BinaryOption.parts_of_mem_parts forward isPart
  have own (left right : String) : footprints (.binary part separation left right) =
      [footprint separation left right part] := by
    rw [footprints_of_isForward partForward, atomic, List.map_singleton]
  cases aligns : part.isAlignment with
  | false =>
      have plain : footprint separation first second part = .binary part separation first second := by
        rw [footprint, aligns, if_neg Bool.false_ne_true]
      rw [plain, own, plain]
  | true =>
      have comm : footprint separation second first part = footprint separation first second part := by
        rw [footprint, footprint, aligns, if_pos rfl, if_pos rfl, aligned_comm]
      -- The operands were in the order of their names, or were just put there.
      rcases footprint_eq_or separation first second part with ordered | swapped
      · rw [ordered, own, ordered]
      · rw [swapped, own, comm, swapped]

theorem canonicalize_eq_self {layouts : List GroundLayout}
    (own : ∀ layout ∈ layouts, layout.footprints = [layout]) : canonicalize layouts = layouts :=
  (List.flatMap_congr own).trans (List.flatMap_singleton' layouts)

theorem canonicalize_footprints (layout : GroundLayout) :
    canonicalize layout.footprints = layout.footprints := by
  cases layout with
  | unary | cyclic | grouping => rfl
  | binary option separation first second =>
      obtain ⟨forward, left, right, isForward, alike⟩ :=
        exists_forward option separation first second
      rw [← alike.footprints_eq, footprints_of_isForward isForward]
      refine canonicalize_eq_self (fun found member => ?_)
      obtain ⟨part, isPart, rfl⟩ := List.mem_map.mp member
      exact footprints_footprint isForward isPart separation left right

/-! ### What footprints tell apart -/

def option? : GroundLayout → Option BinaryOption
  | .binary option _ _ _ => some option
  | _ => none

theorem option?_footprint (separation : Separation) (first second : String) (part : BinaryOption) :
    (footprint separation first second part).option? = some part := by
  rcases footprint_eq_or separation first second part with same | same
  · rw [same]
    rfl
  · rw [same]
    rfl

theorem alike_of_forward {option other : BinaryOption} {separation otherSeparation : Separation}
    {first second left right : String} (forward : option.isForward = true)
    (otherForward : other.isForward = true)
    (same : footprints (.binary option separation first second) =
      footprints (.binary other otherSeparation left right)) :
    Alike (.binary option separation first second) (.binary other otherSeparation left right) := by
  rw [footprints_of_isForward forward, footprints_of_isForward otherForward] at same
  have options := congrArg (List.map option?) same
  rw [List.map_map, List.map_map] at options
  simp only [Function.comp_def, option?_footprint] at options
  cases BinaryOption.eq_of_parts_eq forward otherForward (map_some_injective options)
  obtain ⟨part, rest, begins, aligns⟩ := option.exists_parts
  rw [begins, List.map_cons, List.map_cons] at same
  have leading := (List.cons.inj same).1
  rw [footprint, footprint] at leading
  cases kind : part.isAlignment with
  | false =>
      rw [kind, if_neg Bool.false_ne_true, if_neg Bool.false_ne_true] at leading
      cases leading
      exact Or.inl rfl
  | true =>
      rw [kind, if_pos rfl, if_pos rfl] at leading
      obtain ⟨rfl, ⟨rfl, rfl⟩ | ⟨rfl, rfl⟩⟩ := eq_of_aligned_eq leading
      · exact Or.inl rfl
      · exact Or.inr (.binary (BinaryOption.mirror_of_isAlignment (aligns.symm.trans kind)) _ _ _)

theorem alike_of_footprints_eq {first second : GroundLayout}
    (same : first.footprints = second.footprints) : first.Alike second := by
  have binary {layout : GroundLayout} {option separation left right}
      (own : [layout] = footprints (.binary option separation left right)) :
      layout.option? ≠ none := by
    have member : layout ∈ footprints (.binary option separation left right) :=
      own ▸ List.mem_singleton_self layout
    obtain ⟨part, _, _, rfl, _⟩ := exists_of_mem_footprints member
    exact Option.some_ne_none part
  cases first with
  | binary option separation left right =>
      cases second with
      | binary other otherSeparation otherLeft otherRight =>
          obtain ⟨_, _, _, forward, alike⟩ := exists_forward option separation left right
          obtain ⟨_, _, _, otherForward, otherAlike⟩ :=
            exists_forward other otherSeparation otherLeft otherRight
          rw [← alike.footprints_eq, ← otherAlike.footprints_eq] at same
          exact (alike.trans (alike_of_forward forward otherForward same)).trans otherAlike.symm
      | unary | cyclic | grouping => exact absurd rfl (binary same.symm)
  | unary | cyclic | grouping =>
      cases second with
      | binary => exact absurd rfl (binary same)
      | unary | cyclic | grouping => exact Or.inl (List.cons.inj same).1

/-- Footprints are their own footprints, and two layouts have the same ones exactly when they are
the same layout or mirror images of each other. -/
theorem footprints_exact :
    (∀ layout : GroundLayout, canonicalize layout.footprints = layout.footprints) ∧
      ∀ first second : GroundLayout,
        first.footprints = second.footprints ↔ first = second ∨ first.IsMirror second := by
  refine ⟨canonicalize_footprints, fun first second => ⟨alike_of_footprints_eq, ?_⟩⟩
  intro (alike : first.Alike second)
  exact alike.footprints_eq.symm

end GroundLayout

end RelationalLayout
