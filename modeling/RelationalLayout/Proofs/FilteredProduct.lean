/-
The join is a filtered product.

The join extends one substitution tuple by tuple and gives up at the first variable
that would get two atoms. Going through all choices of one tuple for each group, and
keeping those that give every variable one atom, lists the same substitutions in the
same order. What a sequence of registrations leaves to choose from is said here
without the query that is built up on the way.
-/

import Mathlib.Data.List.Induction
import RelationalLayout.Proofs.Query

namespace RelationalLayout

/-- All ways to take one item of each list; the first list changes slowest. -/
def selections {α : Type} : List (List α) → List (List α)
  | [] => [[]]
  | items :: rest => items.flatMap (fun item => (selections rest).map (item :: ·))

namespace Query

/-- The variables of a choice of tuples with their atoms, as far as both tuples go. -/
def pairings (keys tuples : List (List String)) : List (String × String) :=
  (keys.zip tuples).flatMap (fun choice => choice.1.zip choice.2)

def Consistent (pairs : List (String × String)) : Prop :=
  ∀ first ∈ pairs, ∀ second ∈ pairs, first.1 = second.1 → first.2 = second.2

instance : DecidablePred Consistent := fun pairs =>
  inferInstanceAs (Decidable (∀ first ∈ pairs, ∀ second ∈ pairs,
    first.1 = second.1 → first.2 = second.2))

theorem Consistent.congr {pairs other : List (String × String)}
    (same : ∀ pair, pair ∈ pairs ↔ pair ∈ other) : Consistent pairs ↔ Consistent other := by
  unfold Consistent
  simp only [same]

/-! ### Binding -/

theorem bind?_cases (current : Substitution) (variableName atom : String) :
    (∃ bound, (variableName, bound) ∈ current.entries ∧ bound ≠ atom ∧
        bind? current variableName atom = none) ∨
      bind? current variableName atom = some (current.insert variableName atom) ∧
        ∀ pair, pair ∈ (current.insert variableName atom).entries ↔
          pair = (variableName, atom) ∨ pair ∈ current.entries := by
  unfold bind?
  cases present : current.find? variableName with
  | none =>
      right
      refine ⟨rfl, ?_⟩
      rintro ⟨other, value⟩
      rw [SortedMap.mem_entries_iff, SortedMap.mem_entries_iff, SortedMap.find?_insert,
        Prod.mk.injEq]
      by_cases same : other = variableName
      · subst same
        simp [present, eq_comm]
      · simp [same]
  | some bound =>
      by_cases agrees : bound = atom
      · right
        subst agrees
        have unchanged : current.insert variableName bound = current := by
          apply SortedMap.ext_find?
          intro other
          rw [SortedMap.find?_insert]
          by_cases same : other = variableName
          · rw [if_pos same, same, present]
          · rw [if_neg same]
        rw [unchanged]
        refine ⟨if_pos rfl, ?_⟩
        intro pair
        have member := SortedMap.mem_entries_iff.mpr present
        constructor
        · exact Or.inr
        · rintro (rfl | inEntries)
          · exact member
          · exact inEntries
      · left
        exact ⟨bound, SortedMap.mem_entries_iff.mpr present, agrees, if_neg agrees⟩

theorem bindAll?_append (current : Substitution) (earlier later : List (String × String)) :
    bindAll? current (earlier ++ later) =
      (bindAll? current earlier).bind (fun next => bindAll? next later) := by
  induction earlier generalizing current with
  | nil => rfl
  | cons pair earlier ih =>
      rw [List.cons_append, bindAll?, bindAll?]
      cases bind? current pair.1 pair.2 with
      | none => rfl
      | some next => exact ih next

/-- All pairs can be bound when no variable gets two atoms, and the last one never matters. -/
theorem bindAll?_eq_ite (current : Substitution) (pairs : List (String × String)) :
    bindAll? current pairs =
      if Consistent (current.entries ++ pairs) then
        some (pairs.foldl (fun map pair => map.insert pair.1 pair.2) current)
      else
        none := by
  induction pairs generalizing current with
  | nil =>
      rw [if_pos]
      · rfl
      · rw [List.append_nil]
        rintro ⟨variableName, atom⟩ first ⟨other, value⟩ second same
        cases same
        rw [SortedMap.mem_entries_iff] at first second
        exact Option.some.inj (first.symm.trans second)
  | cons pair pairs ih =>
      obtain ⟨variableName, atom⟩ := pair
      rw [bindAll?]
      rcases bind?_cases current variableName atom with
        ⟨bound, present, different, fails⟩ | ⟨binds, entries⟩
      · rw [fails, if_neg]
        intro consistent
        apply different
        exact consistent _ (List.mem_append_left _ present) (variableName, atom)
          (List.mem_append_right _ List.mem_cons_self) rfl
      · have same (other : String × String) :
            other ∈ (current.insert variableName atom).entries ++ pairs ↔
              other ∈ current.entries ++ (variableName, atom) :: pairs := by
          rw [List.mem_append, List.mem_append, List.mem_cons, entries]
          tauto
        rw [binds, List.foldl_cons]
        simp only [ih, Consistent.congr same]

theorem bindAll?_empty (pairs : List (String × String)) :
    bindAll? .empty pairs = if Consistent pairs then some (.ofList pairs) else none :=
  bindAll?_eq_ite .empty pairs

/-! ### The join -/

theorem pairings_cons (key : List String) (keys : List (List String)) (tuple : List String)
    (tuples : List (List String)) :
    pairings (key :: keys) (tuple :: tuples) = key.zip tuple ++ pairings keys tuples := by
  rw [pairings, List.zip_cons_cons, List.flatMap_cons]
  rfl

theorem join_eq_filterMap (query : Query) (current : Substitution) :
    join query current =
      (selections (query.map VariableGroup.candidates)).filterMap (fun tuples =>
        bindAll? current (pairings (query.map VariableGroup.variableNames) tuples)) := by
  induction query generalizing current with
  | nil => rfl
  | cons group rest ih =>
      rw [join, List.map_cons, List.map_cons, selections, List.filterMap_flatMap]
      congr 1
      funext tuple
      rw [List.filterMap_map]
      simp only [Function.comp_def, pairings_cons, bindAll?_append]
      cases bindAll? current (group.variableNames.zip tuple) with
      | none => simp
      | some next => exact ih next

theorem answers_eq_filterMap (query : Query) :
    query.answers =
      (selections (query.map VariableGroup.candidates)).filterMap (fun tuples =>
        let pairs := pairings (query.map VariableGroup.variableNames) tuples
        if Consistent pairs then some (.ofList pairs) else none) := by
  rw [answers_eq_join, join_eq_filterMap]
  simp only [bindAll?_empty]

/-! ### Registrations -/

def ofGroups (groups : List VariableGroup) : Query :=
  groups.foldl (fun query group => query.register group.variableNames group.candidates) []

def registeredKeys (groups : List VariableGroup) : List (List String) :=
  (groups.map VariableGroup.variableNames).eraseDups

/-- The different candidates of the first registration of a key, without those that a later
registration of it lacks. -/
def commonCandidates (groups : List VariableGroup) (key : List String) : List (List String) :=
  match groups.filter (fun group => group.variableNames = key) with
  | [] => []
  | first :: later =>
      first.candidates.eraseDups.filter (fun tuple =>
        later.all (fun group => group.candidates.contains tuple))

theorem ofGroups_concat (groups : List VariableGroup) (group : VariableGroup) :
    ofGroups (groups ++ [group]) =
      (ofGroups groups).register group.variableNames group.candidates :=
  List.foldl_concat ..

theorem registeredKeys_concat (groups : List VariableGroup) (group : VariableGroup) :
    registeredKeys (groups ++ [group]) =
      if group.variableNames ∈ registeredKeys groups then
        registeredKeys groups
      else
        registeredKeys groups ++ [group.variableNames] := by
  unfold registeredKeys
  rw [List.map_append, List.map_singleton, eraseDups_concat]

theorem commonCandidates_concat_of_mem {groups : List VariableGroup} {group : VariableGroup}
    (known : group.variableNames ∈ registeredKeys groups) :
    commonCandidates (groups ++ [group]) group.variableNames =
      (commonCandidates groups group.variableNames).filter (fun tuple => tuple ∈ group.candidates) := by
  unfold commonCandidates
  rw [List.filter_append]
  cases found : groups.filter (fun other => other.variableNames = group.variableNames) with
  | nil =>
      obtain ⟨other, inGroups, same⟩ := List.mem_map.mp (List.mem_eraseDups.mp known)
      have absent := List.filter_eq_nil_iff.mp found other inGroups
      exact absurd (decide_eq_true same) absent
  | cons first later =>
      simp [List.filter_filter, Bool.and_comm]

theorem commonCandidates_concat_of_not_mem {groups : List VariableGroup} {group : VariableGroup}
    (fresh : group.variableNames ∉ registeredKeys groups) :
    commonCandidates (groups ++ [group]) group.variableNames = group.candidates.eraseDups := by
  have none : groups.filter (fun other => other.variableNames = group.variableNames) = [] := by
    apply List.filter_eq_nil_iff.mpr
    intro other inGroups same
    apply fresh
    exact List.mem_eraseDups.mpr (List.mem_map.mpr ⟨other, inGroups, of_decide_eq_true same⟩)
  unfold commonCandidates
  rw [List.filter_append, none]
  simp

theorem commonCandidates_concat_of_ne (groups : List VariableGroup) {group : VariableGroup}
    {key : List String} (different : group.variableNames ≠ key) :
    commonCandidates (groups ++ [group]) key = commonCandidates groups key := by
  unfold commonCandidates
  rw [List.filter_append]
  simp [different]

/-- A query has one group for each key, with the candidates that all its registrations share. -/
theorem ofGroups_eq_map (groups : List VariableGroup) :
    ofGroups groups = (registeredKeys groups).map (fun key =>
      { variableNames := key, candidates := commonCandidates groups key }) := by
  induction groups using List.reverseRecOn with
  | nil => rfl
  | append_singleton groups group ih =>
      rw [ofGroups_concat, registeredKeys_concat, register, ih, List.any_map]
      by_cases known : group.variableNames ∈ registeredKeys groups
      · rw [if_pos known, if_pos, List.map_map]
        · apply List.map_congr_left
          intro key _
          by_cases same : key = group.variableNames
          · subst same
            simp [restrict, commonCandidates_concat_of_mem known]
          · simp [restrict, same, commonCandidates_concat_of_ne groups (Ne.symm same)]
        · exact List.any_eq_true.mpr ⟨group.variableNames, known, beq_self_eq_true _⟩
      · rw [if_neg known, if_neg, List.map_append, List.map_singleton,
          commonCandidates_concat_of_not_mem known]
        · congr 1
          apply List.map_congr_left
          intro key registered
          rw [commonCandidates_concat_of_ne groups]
          intro same
          exact known (same ▸ registered)
        · intro some
          obtain ⟨key, registered, same⟩ := List.any_eq_true.mp some
          exact known (eq_of_beq same ▸ registered)

/-- The answers after any registrations: for each choice of one common candidate of every key,
with the first key slowest, the atoms that the variables are paired with, unless a variable is
paired with two. -/
theorem answers_ofGroups (groups : List VariableGroup) :
    (ofGroups groups).answers =
      (selections ((registeredKeys groups).map (commonCandidates groups))).filterMap (fun tuples =>
        let pairs := pairings (registeredKeys groups) tuples
        if Consistent pairs then some (.ofList pairs) else none) := by
  have keys : (ofGroups groups).map VariableGroup.variableNames = registeredKeys groups := by
    rw [ofGroups_eq_map, List.map_map]
    exact List.map_id _
  have candidates : (ofGroups groups).map VariableGroup.candidates =
      (registeredKeys groups).map (commonCandidates groups) := by
    rw [ofGroups_eq_map, List.map_map]
    rfl
  rw [answers_eq_filterMap, keys, candidates]

/-- The second tuple is too short for its key, and the third group has the key of the first. -/
example :
    (ofGroups [⟨["x", "y"], [["a", "b"], ["b", "b"], ["c", "d"]]⟩, ⟨["y", "z"], [["b"], ["d", "e"]]⟩,
      ⟨["x", "y"], [["c", "d"], ["b", "b"]]⟩]).answers =
      [.ofList [("x", "b"), ("y", "b")], .ofList [("x", "c"), ("y", "d"), ("z", "e")]] := by
  decide +kernel

end Query

end RelationalLayout
