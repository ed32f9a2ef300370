/-
Searching with one shared map.

The branches of a search write to the same map, and each takes away what it has added. So
the map that a branch finds is the one that the branch before it found, and the answers are
those of a search that hands every branch a map of its own.
-/

import RelationalLayout.Proofs.SortedMap
import RelationalLayout.Query

namespace RelationalLayout

namespace Query

/-! ### A map for each branch -/

/-- Binds a variable to an atom, unless it is bound to another one. -/
def bind? (current : Substitution) (variableName atom : String) : Option Substitution :=
  match current.find? variableName with
  | none => some (current.insert variableName atom)
  | some bound => if bound = atom then some current else none

def bindAll? (current : Substitution) : List (String × String) → Option Substitution
  | [] => some current
  | (variableName, atom) :: rest =>
      match bind? current variableName atom with
      | none => none
      | some next => bindAll? next rest

/-- Extends a substitution by one tuple of each group, the first group slowest. -/
def join : Query → Substitution → List Substitution
  | [], current => [current]
  | group :: rest, current =>
      group.candidates.flatMap (fun tuple =>
        match bindAll? current (group.variableNames.zip tuple) with
        | none => []
        | some next => join rest next)

end Query

/-! ### Trails -/

namespace Trail

/-- What a trail has added was not bound before, and nothing else has changed. -/
structure StartsFrom (before : Substitution) (trail : Trail) : Prop where
  fresh : ∀ name ∈ trail.added, before.find? name = none
  kept : ∀ name, name ∉ trail.added → trail.current.find? name = before.find? name

variable {before : Substitution} {trail : Trail}

theorem startsFrom_self (current : Substitution) :
    StartsFrom current { current := current, added := [] } where
  fresh := fun _ impossible => absurd impossible List.not_mem_nil
  kept := fun _ _ => rfl

theorem StartsFrom.undo_eq (starts : StartsFrom before trail) : trail.undo = before := by
  apply SortedMap.ext_find?
  intro name
  rw [undo, SortedMap.find?_foldl_erase]
  split
  · rename_i isAdded
    exact (starts.fresh name isAdded).symm
  · rename_i notAdded
    exact starts.kept name notAdded

theorem StartsFrom.insert (starts : StartsFrom before trail) {variableName : String}
    (free : trail.current.find? variableName = none) (atom : String) :
    StartsFrom before
      { current := trail.current.insert variableName atom
        added := trail.added ++ [variableName] } where
  fresh := by
    intro name member
    rcases List.mem_append.mp member with earlier | here
    · exact starts.fresh name earlier
    · rw [List.mem_singleton.mp here]
      by_cases again : variableName ∈ trail.added
      · exact starts.fresh variableName again
      · rw [← starts.kept variableName again, free]
  kept := by
    intro name absent
    obtain ⟨notAdded, different⟩ := not_or.mp (mt List.mem_append.mpr absent)
    rw [SortedMap.find?_insert, if_neg (mt List.mem_singleton.mpr different)]
    exact starts.kept name notAdded

theorem StartsFrom.bindAll (starts : StartsFrom before trail) (pairs : List (String × String)) :
    StartsFrom before (trail.bindAll pairs).1 := by
  induction pairs generalizing trail with
  | nil => exact starts
  | cons pair rest ih =>
      obtain ⟨variableName, atom⟩ := pair
      rw [Trail.bindAll]
      split
      · rename_i free
        exact ih (starts.insert free atom)
      · split
        · exact ih starts
        · exact starts

theorem bindAll?_current (trail : Trail) (pairs : List (String × String)) :
    Query.bindAll? trail.current pairs =
      if (trail.bindAll pairs).2 then some (trail.bindAll pairs).1.current else none := by
  induction pairs generalizing trail with
  | nil => rfl
  | cons pair rest ih =>
      obtain ⟨variableName, atom⟩ := pair
      rw [Query.bindAll?, Query.bind?, Trail.bindAll]
      cases trail.current.find? variableName with
      | none =>
          exact ih { current := trail.current.insert variableName atom
                     added := trail.added ++ [variableName] }
      | some bound =>
          by_cases agrees : bound = atom
          · simp only [if_pos agrees]
            exact ih trail
          · simp only [if_neg agrees]
            rfl

end Trail

/-! ### Searches -/

namespace Query

/-- A branch only adds to what is found, and it adds what the rest of the search does with the map
of the branch. -/
theorem branch_eq {goOn : SearchProgress → SearchProgress}
    {answersFrom : Substitution → List Substitution}
    (goesOn : ∀ progress, goOn progress =
      { progress with found := progress.found ++ answersFrom progress.current })
    (variableNames : List String) (progress : SearchProgress) (tuple : List String) :
    branch goOn variableNames progress tuple =
      { progress with
        found := progress.found ++
          match bindAll? progress.current (variableNames.zip tuple) with
          | none => []
          | some next => answersFrom next } := by
  have starts := (Trail.startsFrom_self progress.current).bindAll (variableNames.zip tuple)
  have binds := Trail.bindAll?_current { current := progress.current, added := [] }
    (variableNames.zip tuple)
  dsimp only at binds
  rw [branch, binds]
  generalize Trail.bindAll { current := progress.current, added := [] }
    (variableNames.zip tuple) = bound at starts
  obtain ⟨trail, consistent⟩ := bound
  cases consistent with
  | false =>
      simp only [Bool.false_eq_true, if_false, List.append_nil]
      rw [starts.undo_eq]
  | true =>
      simp only [if_true, goesOn]
      rw [starts.undo_eq]

theorem foldl_branch_eq {goOn : SearchProgress → SearchProgress}
    {answersFrom : Substitution → List Substitution}
    (goesOn : ∀ progress, goOn progress =
      { progress with found := progress.found ++ answersFrom progress.current })
    (variableNames : List String) (progress : SearchProgress) (tuples : List (List String)) :
    tuples.foldl (branch goOn variableNames) progress =
      { progress with
        found := progress.found ++ tuples.flatMap (fun tuple =>
          match bindAll? progress.current (variableNames.zip tuple) with
          | none => []
          | some next => answersFrom next) } := by
  induction tuples generalizing progress with
  | nil => rw [List.foldl_nil, List.flatMap_nil, List.append_nil]
  | cons tuple tuples ih =>
      rw [List.foldl_cons, ih, branch_eq goesOn, List.flatMap_cons, List.append_assoc]

/-- A search leaves the map as it found it, and finds what the join lists. -/
theorem search_eq (query : Query) (progress : SearchProgress) :
    query.search progress =
      { progress with found := progress.found ++ query.join progress.current } := by
  induction query generalizing progress with
  | nil => rfl
  | cons group rest ih => exact foldl_branch_eq ih group.variableNames progress group.candidates

theorem answers_eq_join (query : Query) : query.answers = query.join .empty := by
  rw [answers, search_eq, List.nil_append]

end Query

end RelationalLayout
