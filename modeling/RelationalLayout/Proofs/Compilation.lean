/-
What compiling a rule gives.

There is one ground layout for each substitution of the chain, in the same order,
with the atoms of that substitution as operands.
-/

import Mathlib.Data.List.Forall2
import RelationalLayout.Compilation
import RelationalLayout.Proofs.Assignment
import RelationalLayout.Proofs.Success

namespace RelationalLayout

/-! ### Lists that go together -/

section Together

variable {α β : Type} {relation : α → β → Prop} {lefts : List α} {rights : List β}

theorem exists_right_of_forall₂ (together : List.Forall₂ relation lefts rights) {left : α}
    (member : left ∈ lefts) : ∃ right ∈ rights, relation left right := by
  obtain ⟨index, inside, rfl⟩ := List.mem_iff_getElem.mp member
  have alsoInside : index < rights.length := together.length_eq ▸ inside
  exact ⟨rights[index], List.getElem_mem alsoInside, together.get inside alsoInside⟩

theorem exists_left_of_forall₂ (together : List.Forall₂ relation lefts rights) {right : β}
    (member : right ∈ rights) : ∃ left ∈ lefts, relation left right := by
  obtain ⟨index, inside, rfl⟩ := List.mem_iff_getElem.mp member
  have alsoInside : index < lefts.length := together.length_eq.symm ▸ inside
  exact ⟨lefts[index], List.getElem_mem alsoInside, together.get alsoInside inside⟩

end Together

/-! ### Rules -/

namespace Template

variable {terminal : Template} {substitution : Substitution} {id : String}

theorem resolve_eq_ok_iff {operand atom : String} :
    terminal.resolve substitution operand = .ok atom ↔ substitution.find? operand = some atom := by
  unfold resolve
  cases substitution.find? operand with
  | none => simp only [reduceCtorEq]
  | some found => simp only [Except.ok.injEq, Option.some.injEq]

theorem instantiate_unary_iff {option : UnaryOption} {separation : Separation} {operand : String}
    {layout : GroundLayout} :
    instantiate (.unary option separation operand) substitution id = .ok layout ↔
      ∃ atom, substitution.find? operand = some atom ∧ layout = .unary option separation atom := by
  simp only [instantiate, bind_eq_ok_iff, resolve_eq_ok_iff, Except.ok.injEq, @eq_comm _ layout]

theorem instantiate_binary_iff {option : BinaryOption} {separation : Separation}
    {first second : String} {layout : GroundLayout} :
    instantiate (.binary option separation first second) substitution id = .ok layout ↔
      ∃ left right, substitution.find? first = some left ∧ substitution.find? second = some right ∧
        layout = .binary option separation left right := by
  simp only [instantiate, bind_eq_ok_iff, resolve_eq_ok_iff, Except.ok.injEq, exists_and_left,
    @eq_comm _ layout]

theorem instantiate_cyclic_iff {option : CyclicOption} {first second : String} {tag : Unit}
    {layout : GroundLayout} :
    instantiate (.cyclic option first second tag) substitution id = .ok layout ↔
      ∃ source target, substitution.find? first = some source ∧
        substitution.find? second = some target ∧
        layout = .cyclic option source target ("cycle-" ++ id) := by
  simp only [instantiate, bind_eq_ok_iff, resolve_eq_ok_iff, Except.ok.injEq, exists_and_left,
    @eq_comm _ layout]

theorem instantiate_grouping_iff {operand : String} {tag : Unit} {layout : GroundLayout} :
    instantiate (.grouping operand tag) substitution id = .ok layout ↔
      ∃ atom, substitution.find? operand = some atom ∧
        layout = .grouping atom ("group-" ++ id) := by
  simp only [instantiate, bind_eq_ok_iff, resolve_eq_ok_iff, Except.ok.injEq, @eq_comm _ layout]

theorem instantiateAll_eq_ok_iff {substitutions : List Substitution}
    {layouts : List GroundLayout} :
    terminal.instantiateAll id substitutions = .ok layouts ↔
      List.Forall₂ (fun substitution layout => terminal.instantiate substitution id = .ok layout)
        substitutions layouts := by
  induction substitutions generalizing layouts with
  | nil =>
      rw [List.forall₂_nil_left_iff, instantiateAll]
      simp only [Except.ok.injEq, eq_comm]
  | cons substitution rest ih =>
      rw [List.forall₂_cons_left_iff, instantiateAll]
      simp only [bind_eq_ok_iff, ih, Except.ok.injEq, exists_and_left, @eq_comm _ layouts]

end Template

section Rules

variable {schema : Schema} {world : Instance} {rule : Rule} {number : Nat}
  {layouts : List GroundLayout}

theorem Rule.compile_eq_ok_iff :
    rule.compile schema world number = .ok layouts ↔
      ∃ substitutions, substitutionsOf schema world rule.selectors = .ok substitutions ∧
        rule.terminal.instantiateAll (Nat.repr number) substitutions = .ok layouts := by
  unfold compile
  cases substitutionsOf schema world rule.selectors with
  | error fault => simp only [reduceCtorEq, false_and, exists_false]
  | ok substitutions => simp only [Except.ok.injEq, exists_eq_left']

theorem Rule.exists_instantiate (compiled : rule.compile schema world number = .ok layouts)
    {atomOf : String → String} (hold : HoldUnder world rule.selectors atomOf) :
    ∃ layout ∈ layouts, rule.terminal.instantiate
      (.cutTo (variablesIn rule.selectors) atomOf) (Nat.repr number) = .ok layout := by
  obtain ⟨substitutions, found, instantiated⟩ := Rule.compile_eq_ok_iff.mp compiled
  exact exists_right_of_forall₂ (Template.instantiateAll_eq_ok_iff.mp instantiated)
    ((mem_substitutionsOf_iff_cutTo found).mpr ⟨atomOf, hold, rfl⟩)

theorem Rule.exists_holdUnder (compiled : rule.compile schema world number = .ok layouts)
    {layout : GroundLayout} (member : layout ∈ layouts) :
    ∃ atomOf, HoldUnder world rule.selectors atomOf ∧ rule.terminal.instantiate
      (.cutTo (variablesIn rule.selectors) atomOf) (Nat.repr number) = .ok layout := by
  obtain ⟨substitutions, found, instantiated⟩ := Rule.compile_eq_ok_iff.mp compiled
  obtain ⟨substitution, isFound, here⟩ :=
    exists_left_of_forall₂ (Template.instantiateAll_eq_ok_iff.mp instantiated) member
  obtain ⟨atomOf, hold, rfl⟩ := (mem_substitutionsOf_iff_cutTo found).mp isFound
  exact ⟨atomOf, hold, here⟩

end Rules

/-! ### Programs -/

namespace Program

variable {schema : Schema} {world : Instance} {program : Program} {layouts : List GroundLayout}

theorem compileFrom_eq_ok_iff {number : Nat} :
    compileFrom schema world number program = .ok layouts ↔
      ∃ owns, List.Forall₂
        (fun placed own => Rule.compile schema world placed.2 placed.1 = .ok own)
          (program.zipIdx number) owns ∧ layouts = owns.flatten := by
  induction program generalizing number layouts with
  | nil =>
      rw [compileFrom, List.zipIdx_nil]
      simp only [List.forall₂_nil_left_iff, exists_eq_left, List.flatten_nil, Except.ok.injEq,
        eq_comm]
  | cons rule rest ih =>
      rw [compileFrom, List.zipIdx_cons]
      simp only [bind_eq_ok_iff, ih, Except.ok.injEq, List.forall₂_cons_left_iff]
      constructor
      · intro given
        obtain ⟨own, here, _, ⟨owns, there, rfl⟩, rfl⟩ := given
        exact ⟨own :: owns, ⟨own, owns, here, there, rfl⟩, List.flatten_cons⟩
      · intro given
        obtain ⟨_, ⟨own, owns, here, there, rfl⟩, rfl⟩ := given
        exact ⟨own, here, owns.flatten, ⟨owns, there, rfl⟩, List.flatten_cons.symm⟩

theorem exists_compile_of_getElem? (compiled : program.compile schema world = .ok layouts)
    {index : Nat} {rule : Rule} (placed : program[index]? = some rule) :
    ∃ own, rule.compile schema world index = .ok own ∧ ∀ layout ∈ own, layout ∈ layouts := by
  obtain ⟨owns, together, rfl⟩ := compileFrom_eq_ok_iff.mp compiled
  obtain ⟨own, isOwn, here⟩ :=
    exists_right_of_forall₂ together (List.mk_mem_zipIdx_iff_getElem?.mpr placed)
  exact ⟨own, here, fun layout member => List.mem_flatten_of_mem isOwn member⟩

theorem exists_rule_of_mem (compiled : program.compile schema world = .ok layouts)
    {layout : GroundLayout} (member : layout ∈ layouts) :
    ∃ (index : Nat) (rule : Rule) (own : List GroundLayout), program[index]? = some rule ∧
      rule.compile schema world index = .ok own ∧ layout ∈ own := by
  obtain ⟨owns, together, rfl⟩ := compileFrom_eq_ok_iff.mp compiled
  obtain ⟨own, isOwn, inOwn⟩ := List.mem_flatten.mp member
  obtain ⟨placed, numbered, here⟩ := exists_left_of_forall₂ together isOwn
  exact ⟨placed.2, placed.1, own, List.mk_mem_zipIdx_iff_getElem?.mp numbered, here, inOwn⟩

end Program

/-! ### Numbered names -/

theorem numbered_injective (stem : String) :
    Function.Injective (fun number : Nat => stem ++ Nat.repr number) := by
  intro number other same
  have digits := congrArg String.toList same
  rw [String.toList_append, String.toList_append, Nat.toList_repr, Nat.toList_repr] at digits
  have sameDigits := List.append_cancel_left digits
  rw [← Nat.ofDigitChars_ten_toDigits (n := number), sameDigits, Nat.ofDigitChars_ten_toDigits]

end RelationalLayout
