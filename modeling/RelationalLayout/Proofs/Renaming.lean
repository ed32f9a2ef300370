/-
Other names for variables.

A chain with other names for its variables holds when these names stand for the same
atoms as the variables did, and its terminal then says the same.
-/

import Mathlib.Data.Set.Function
import RelationalLayout.Proofs.Compilation

namespace RelationalLayout

variable {naming : String → String}

/-! ### Selectors -/

namespace Selector

def rename (naming : String → String) : Selector → Selector
  | .signature variableName signatureName => .signature (naming variableName) signatureName
  | .predicate predicateName arguments => .predicate predicateName (arguments.map naming)

theorem variableNames_rename (selector : Selector) :
    (selector.rename naming).variableNames = selector.variableNames.map naming := by
  cases selector <;> rfl

theorem holds_rename_iff {world : Instance} {assignment : String → Option String}
    {selector : Selector} :
    (selector.rename naming).Holds world assignment ↔
      selector.Holds world (fun name => assignment (naming name)) := by
  cases selector with
  | signature variableName signatureName => rfl
  | predicate predicateName arguments =>
      simp only [rename, Holds, List.map_map, Function.comp_def]

theorem eq_of_rename_eq {names : Set String} (apart : Set.InjOn naming names)
    {first second : Selector} (firstCut : ∀ name ∈ first.variableNames, name ∈ names)
    (secondCut : ∀ name ∈ second.variableNames, name ∈ names)
    (same : first.rename naming = second.rename naming) : first = second := by
  cases first with
  | signature firstName firstSignature =>
      cases second with
      | predicate => cases same
      | signature secondName secondSignature =>
          obtain ⟨sameName, sameSignature⟩ := Selector.signature.inj same
          rw [sameSignature, apart (firstCut firstName List.mem_cons_self)
            (secondCut secondName List.mem_cons_self) sameName]
  | predicate firstPredicate firstArguments =>
      cases second with
      | signature => cases same
      | predicate secondPredicate secondArguments =>
          obtain ⟨samePredicate, sameArguments⟩ := Selector.predicate.inj same
          have sameLength := congrArg List.length sameArguments
          rw [List.length_map, List.length_map] at sameLength
          rw [samePredicate]
          congr 1
          apply List.ext_getElem sameLength
          intro index inFirst inSecond
          apply apart (firstCut _ (List.getElem_mem inFirst))
            (secondCut _ (List.getElem_mem inSecond))
          have here := congrArg (fun names : List String => names[index]?) sameArguments
          simpa [inFirst, inSecond] using here

end Selector

theorem variablesIn_map_rename (selectors : List Selector) :
    variablesIn (selectors.map (Selector.rename naming)) = (variablesIn selectors).map naming := by
  rw [variablesIn, variablesIn, List.flatMap_map, List.map_flatMap]
  simp only [Selector.variableNames_rename]

theorem holdUnder_map_rename_iff {world : Instance} {selectors : List Selector}
    {atomOf : String → String} :
    HoldUnder world (selectors.map (Selector.rename naming)) atomOf ↔
      HoldUnder world selectors (fun name => atomOf (naming name)) := by
  simp only [HoldUnder, List.forall_mem_map, Selector.holds_rename_iff]

/-! ### Terminals -/

def Substitution.atomOf (substitution : Substitution) (name : String) : String :=
  (substitution.find? name).getD ""

theorem Substitution.atomOf_cutTo {names : List String} {atomOf : String → String} {name : String}
    (member : name ∈ names) : (cutTo names atomOf).atomOf name = atomOf name := by
  rw [Substitution.atomOf, find?_cutTo_of_mem member, Option.getD_some]

namespace Template

def rename (naming : String → String) : Template → Template
  | .unary option separation operand => .unary option separation (naming operand)
  | .binary option separation first second =>
      .binary option separation (naming first) (naming second)
  | .cyclic option first second cycle => .cyclic option (naming first) (naming second) cycle
  | .grouping operand group => .grouping (naming operand) group

def ground (terminal : Template) (id : String) (atomOf : String → String) : GroundLayout :=
  match terminal with
  | .unary option separation operand => .unary option separation (atomOf operand)
  | .binary option separation first second =>
      .binary option separation (atomOf first) (atomOf second)
  | .cyclic option first second _ =>
      .cyclic option (atomOf first) (atomOf second) ("cycle-" ++ id)
  | .grouping operand _ => .grouping (atomOf operand) ("group-" ++ id)

variable {terminal : Template} {id : String}

theorem operands_rename (terminal : Template) :
    (terminal.rename naming).operands = terminal.operands.map naming := by
  cases terminal <;> rfl

theorem ground_rename (terminal : Template) (id : String) (atomOf : String → String) :
    (terminal.rename naming).ground id atomOf =
      terminal.ground id (fun name => atomOf (naming name)) := by
  cases terminal <;> rfl

theorem ground_congr {atomOf other : String → String}
    (same : ∀ operand ∈ terminal.operands, atomOf operand = other operand) :
    terminal.ground id atomOf = terminal.ground id other := by
  cases terminal with
  | unary option separation operand =>
      rw [ground, ground, same operand List.mem_cons_self]
  | grouping operand group => rw [ground, ground, same operand List.mem_cons_self]
  | binary option separation first second =>
      rw [ground, ground, same first List.mem_cons_self,
        same second (List.mem_cons_of_mem _ List.mem_cons_self)]
  | cyclic option first second cycle =>
      rw [ground, ground, same first List.mem_cons_self,
        same second (List.mem_cons_of_mem _ List.mem_cons_self)]

theorem instantiate_eq_ground {substitution : Substitution}
    (known : ∀ operand ∈ terminal.operands, operand ∈ substitution.keys) :
    terminal.instantiate substitution id = .ok (terminal.ground id substitution.atomOf) := by
  have found {operand : String} (member : operand ∈ terminal.operands) :
      substitution.find? operand = some (substitution.atomOf operand) := by
    obtain ⟨atom, present⟩ := SortedMap.mem_keys_iff.mp (known operand member)
    rw [Substitution.atomOf, present, Option.getD_some]
  cases terminal with
  | unary option separation operand =>
      exact instantiate_unary_iff.mpr ⟨_, found List.mem_cons_self, rfl⟩
  | grouping operand group =>
      exact instantiate_grouping_iff.mpr ⟨_, found List.mem_cons_self, rfl⟩
  | binary option separation first second =>
      exact instantiate_binary_iff.mpr ⟨_, _, found List.mem_cons_self,
        found (List.mem_cons_of_mem _ List.mem_cons_self), rfl⟩
  | cyclic option first second cycle =>
      exact instantiate_cyclic_iff.mpr ⟨_, _, found List.mem_cons_self,
        found (List.mem_cons_of_mem _ List.mem_cons_self), rfl⟩

theorem instantiateAll_eq_map {schema : Schema} {world : Instance} {selectors : List Selector}
    {substitutions : List Substitution}
    (found : substitutionsOf schema world selectors = .ok substitutions)
    (known : ∀ operand ∈ terminal.operands, operand ∈ variablesIn selectors) :
    terminal.instantiateAll id substitutions =
      .ok (substitutions.map fun substitution => terminal.ground id substitution.atomOf) := by
  rw [instantiateAll_eq_ok_iff, List.forall₂_map_right_iff, List.forall₂_same]
  intro substitution member
  obtain ⟨atomOf, _, rfl⟩ := (mem_substitutionsOf_iff_cutTo found).mp member
  apply instantiate_eq_ground
  intro operand occurs
  exact Substitution.mem_keys_cutTo.mpr (known operand occurs)

end Template

end RelationalLayout
