/-
Chains and assignments of atoms.

The substitutions of a chain are the assignments under which its selectors hold, cut
down to the variables of the chain.
-/

import RelationalLayout.Proofs.Query

namespace RelationalLayout

theorem Selector.Holds.congr {world : Instance} {selector : Selector}
    {assignment other : String → Option String}
    (same : ∀ name ∈ selector.variableNames, assignment name = other name)
    (holds : selector.Holds world assignment) : selector.Holds world other := by
  cases selector with
  | signature variableName signatureName =>
      obtain ⟨atom, declared, taken, typed⟩ := holds
      exact ⟨atom, declared, (same variableName List.mem_cons_self).symm.trans taken, typed⟩
  | predicate predicateName arguments =>
      obtain ⟨fact, listed, named, taken⟩ := holds
      exact ⟨fact, listed, named, (List.map_congr_left same).symm.trans taken⟩

namespace Substitution

def cutTo (names : List String) (atomOf : String → String) : Substitution :=
  .ofList (names.eraseDups.map (fun name => (name, atomOf name)))

variable {names : List String} {atomOf other : String → String}

theorem find?_cutTo (name : String) :
    (cutTo names atomOf).find? name = if name ∈ names then some (atomOf name) else none := by
  have distinct : ((names.eraseDups.map (fun name => (name, atomOf name))).map Prod.fst).Nodup := by
    rw [List.map_map]
    exact (List.map_id names.eraseDups).symm ▸ nodup_eraseDups names
  ext atom
  rw [cutTo, SortedMap.find?_ofList distinct, List.mem_map]
  by_cases member : name ∈ names
  · rw [if_pos member, Option.some.injEq]
    constructor
    · intro given
      obtain ⟨_, _, same⟩ := given
      cases same
      rfl
    · intro same
      exact ⟨name, List.mem_eraseDups.mpr member, by rw [same]⟩
  · rw [if_neg member]
    refine iff_of_false ?_ (fun impossible => by cases impossible)
    intro given
    obtain ⟨_, present, same⟩ := given
    cases same
    exact member (List.mem_eraseDups.mp present)

theorem find?_cutTo_of_mem {name : String} (member : name ∈ names) :
    (cutTo names atomOf).find? name = some (atomOf name) := by
  rw [find?_cutTo, if_pos member]

theorem find?_cutTo_eq_some {name atom : String} :
    (cutTo names atomOf).find? name = some atom ↔ name ∈ names ∧ atom = atomOf name := by
  rw [find?_cutTo]
  by_cases member : name ∈ names
  · simp only [member, if_true, Option.some.injEq, true_and, eq_comm]
  · simp only [member, if_false, reduceCtorEq, false_and]

theorem mem_keys_cutTo {name : String} : name ∈ (cutTo names atomOf).keys ↔ name ∈ names := by
  simp only [SortedMap.mem_keys_iff, find?_cutTo_eq_some, exists_and_left, exists_eq, and_true]

theorem cutTo_eq_cutTo_iff :
    cutTo names atomOf = cutTo names other ↔ ∀ name ∈ names, atomOf name = other name := by
  constructor
  · intro same name member
    have found := congrArg (SortedMap.find? · name) same
    simp only [find?_cutTo_of_mem member] at found
    exact Option.some.inj found
  · intro agree
    apply SortedMap.ext_find?
    intro name
    rw [find?_cutTo, find?_cutTo]
    by_cases member : name ∈ names
    · rw [if_pos member, if_pos member, agree name member]
    · rw [if_neg member, if_neg member]

end Substitution

def variablesIn (selectors : List Selector) : List String :=
  selectors.flatMap Selector.variableNames

def HoldUnder (world : Instance) (selectors : List Selector) (atomOf : String → String) : Prop :=
  ∀ selector ∈ selectors, selector.Holds world (fun name => some (atomOf name))

section Assignments

variable {schema : Schema} {world : Instance} {selectors : List Selector}
  {substitutions : List Substitution}

theorem mem_variablesIn {name : String} :
    name ∈ variablesIn selectors ↔ ∃ selector ∈ selectors, name ∈ selector.variableNames :=
  List.mem_flatMap

theorem HoldUnder.congr {atomOf other : String → String}
    (same : ∀ name ∈ variablesIn selectors, atomOf name = other name)
    (hold : HoldUnder world selectors atomOf) : HoldUnder world selectors other := by
  intro selector member
  apply (hold selector member).congr
  intro name occurs
  rw [same name (mem_variablesIn.mpr ⟨selector, member, occurs⟩)]

/-- The substitutions of a chain are the assignments under which it holds. -/
theorem mem_substitutionsOf_iff_cutTo
    (found : substitutionsOf schema world selectors = .ok substitutions)
    {substitution : Substitution} :
    substitution ∈ substitutions ↔
      ∃ atomOf, HoldUnder world selectors atomOf ∧
        substitution = .cutTo (variablesIn selectors) atomOf := by
  rw [mem_substitutionsOf_iff found]
  constructor
  · intro given
    obtain ⟨keys, holds⟩ := given
    have taken (name : String) (member : name ∈ variablesIn selectors) :
        substitution.find? name = some ((substitution.find? name).getD "") := by
      obtain ⟨atom, present⟩ :=
        SortedMap.mem_keys_iff.mp ((keys name).mpr (mem_variablesIn.mp member))
      rw [present, Option.getD_some]
    refine ⟨fun name => (substitution.find? name).getD "", ?_, ?_⟩
    · intro selector member
      apply (holds selector member).congr
      intro name occurs
      exact taken name (mem_variablesIn.mpr ⟨selector, member, occurs⟩)
    · apply SortedMap.ext_find?
      intro name
      rw [Substitution.find?_cutTo]
      by_cases member : name ∈ variablesIn selectors
      · rw [if_pos member]
        exact taken name member
      · rw [if_neg member]
        cases present : substitution.find? name with
        | none => rfl
        | some atom =>
            have isKey := (keys name).mp (SortedMap.mem_keys_iff.mpr ⟨atom, present⟩)
            exact absurd (mem_variablesIn.mpr isKey) member
  · intro given
    obtain ⟨atomOf, hold, rfl⟩ := given
    refine ⟨fun name => Substitution.mem_keys_cutTo.trans mem_variablesIn, ?_⟩
    intro selector member
    apply (hold selector member).congr
    intro name occurs
    exact (Substitution.find?_cutTo_of_mem (mem_variablesIn.mpr ⟨selector, member, occurs⟩)).symm

end Assignments

end RelationalLayout
