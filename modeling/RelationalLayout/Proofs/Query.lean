/-
The answers of a query.

A query allows an assignment when every group has the atoms of its variables among
its candidates. Registering a selector adds the demand that the selector holds, and
the join lists every allowed substitution of the variables of the query once.
-/

import Mathlib.Data.List.Nodup
import RelationalLayout.Proofs.SharedSearch

namespace RelationalLayout

theorem nodup_eraseDups {α : Type} [BEq α] [LawfulBEq α] (items : List α) :
    items.eraseDups.Nodup := by
  match items with
  | [] => exact List.nodup_nil
  | first :: rest =>
      rw [List.eraseDups_cons, List.nodup_cons]
      refine ⟨?_, nodup_eraseDups _⟩
      rw [List.mem_eraseDups, List.mem_filter]
      intro given
      obtain ⟨_, different⟩ := given
      rw [beq_self_eq_true] at different
      cases different
termination_by items.length
decreasing_by
  exact Nat.lt_succ_of_le (List.length_filter_le _ rest)

theorem eraseDups_sublist {α : Type} [BEq α] [LawfulBEq α] (items : List α) :
    items.eraseDups.Sublist items := by
  match items with
  | [] => exact List.Sublist.slnil
  | first :: rest =>
      rw [List.eraseDups_cons]
      exact ((eraseDups_sublist _).trans List.filter_sublist).cons_cons first
termination_by items.length
decreasing_by
  exact Nat.lt_succ_of_le (List.length_filter_le _ rest)

theorem eraseDups_concat {α : Type} [BEq α] [LawfulBEq α] (items : List α) (item : α) :
    (items ++ [item]).eraseDups =
      if item ∈ items.eraseDups then items.eraseDups else items.eraseDups ++ [item] := by
  rw [List.eraseDups_append, List.removeAll]
  by_cases known : item ∈ items
  · rw [if_pos (List.mem_eraseDups.mpr known)]
    simp [known]
  · rw [if_neg (mt List.mem_eraseDups.mp known)]
    simp [known, List.eraseDups_cons]

theorem map_some_injective {α : Type} {left right : List α}
    (same : left.map some = right.map some) : left = right :=
  List.map_injective_iff.mpr (fun _ _ => Option.some.inj) same

theorem map_eq_map_some_iff {α β : Type} {lookup : α → Option β} {names : List α}
    {values : List β} (sameLength : values.length = names.length) :
    names.map lookup = values.map some ↔
      ∀ pair ∈ names.zip values, lookup pair.1 = some pair.2 := by
  induction names generalizing values with
  | nil =>
      rw [List.length_nil, List.length_eq_zero_iff] at sameLength
      subst sameLength
      simp only [List.map_nil, List.zip_nil_left, List.not_mem_nil, false_implies, implies_true]
  | cons name names ih =>
      cases values with
      | nil => cases sameLength
      | cons value values =>
          have restLength : values.length = names.length := Nat.succ.inj sameLength
          rw [List.map_cons, List.map_cons, List.cons.injEq, ih restLength, List.zip_cons_cons,
            List.forall_mem_cons]

/-! ### Substitutions -/

namespace Substitution

def Extends (larger smaller : Substitution) : Prop :=
  ∀ variableName atom, smaller.find? variableName = some atom →
    larger.find? variableName = some atom

theorem Extends.refl (substitution : Substitution) : Extends substitution substitution :=
  fun _ _ found => found

theorem Extends.trans {largest larger smaller : Substitution} (outer : Extends largest larger)
    (inner : Extends larger smaller) : Extends largest smaller :=
  fun variableName atom found => outer variableName atom (inner variableName atom found)

theorem Extends.eq_of_keys {larger smaller : Substitution} (extended : Extends larger smaller)
    (keys : ∀ variableName ∈ larger.keys, variableName ∈ smaller.keys) : larger = smaller := by
  refine SortedMap.ext_find? ?_
  intro variableName
  cases found : smaller.find? variableName with
  | some atom => exact extended variableName atom found
  | none =>
      cases foundLarger : larger.find? variableName with
      | none => rfl
      | some atom =>
          have inLarger := SortedMap.mem_keys_iff.mpr ⟨atom, foundLarger⟩
          obtain ⟨earlier, present⟩ := SortedMap.mem_keys_iff.mp (keys variableName inLarger)
          rw [found] at present
          cases present

end Substitution

open Substitution

namespace Query

/-! ### Binding -/

/-- Binding keeps what is bound, binds the variable to the atom, and binds nothing else. -/
theorem bind?_sound {current next : Substitution} {variableName atom : String}
    (bound : bind? current variableName atom = some next) :
    Extends next current ∧ next.find? variableName = some atom ∧
      ∀ other, other ∈ next.keys ↔ other ∈ current.keys ∨ other = variableName := by
  rw [bind?] at bound
  split at bound
  · rename_i free
    cases bound
    refine ⟨?_, ?_, ?_⟩
    · intro other value found
      have different : other ≠ variableName := by
        intro same
        subst same
        rw [free] at found
        cases found
      rw [SortedMap.find?_insert, if_neg different]
      exact found
    · rw [SortedMap.find?_insert, if_pos rfl]
    · intro other
      rw [SortedMap.mem_keys_insert, or_comm]
  · rename_i earlier found
    split at bound
    · rename_i same
      cases bound
      rw [same] at found
      refine ⟨Extends.refl current, found, ?_⟩
      intro other
      constructor
      · exact Or.inl
      · intro given
        rcases given with inKeys | rfl
        · exact inKeys
        · exact SortedMap.mem_keys_iff.mpr ⟨atom, found⟩
    · cases bound

theorem bind?_complete {current answer : Substitution} {variableName atom : String}
    (extended : Extends answer current) (found : answer.find? variableName = some atom) :
    ∃ next, bind? current variableName atom = some next ∧ Extends answer next := by
  rw [bind?]
  cases present : current.find? variableName with
  | none =>
      refine ⟨_, rfl, ?_⟩
      intro other value inserted
      rw [SortedMap.find?_insert] at inserted
      split at inserted
      · rename_i same
        rw [same, ← inserted, found]
      · exact extended other value inserted
  | some earlier =>
      have same : earlier = atom :=
        Option.some.inj ((extended variableName earlier present).symm.trans found)
      exact ⟨current, if_pos same, extended⟩

theorem bindAll?_sound {current next : Substitution} {pairs : List (String × String)}
    (bound : bindAll? current pairs = some next) :
    Extends next current ∧ (∀ pair ∈ pairs, next.find? pair.1 = some pair.2) ∧
      ∀ other, other ∈ next.keys ↔ other ∈ current.keys ∨ other ∈ pairs.map Prod.fst := by
  induction pairs generalizing current with
  | nil =>
      cases bound
      refine ⟨Extends.refl _, ?_, ?_⟩
      · intro pair member
        cases member
      · simp only [List.map_nil, List.not_mem_nil, or_false, implies_true]
  | cons pair rest ih =>
      rw [bindAll?] at bound
      split at bound
      · cases bound
      · rename_i middle first
        obtain ⟨kept, here, keysHere⟩ := bind?_sound first
        obtain ⟨keptLater, later, keysLater⟩ := ih bound
        refine ⟨keptLater.trans kept, ?_, ?_⟩
        · rw [List.forall_mem_cons]
          exact ⟨keptLater pair.1 pair.2 here, later⟩
        · intro other
          rw [keysLater, keysHere, List.map_cons, List.mem_cons, or_assoc]

theorem bindAll?_complete {current answer : Substitution} {pairs : List (String × String)}
    (extended : Extends answer current)
    (found : ∀ pair ∈ pairs, answer.find? pair.1 = some pair.2) :
    ∃ next, bindAll? current pairs = some next ∧ Extends answer next := by
  induction pairs generalizing current with
  | nil => exact ⟨current, rfl, extended⟩
  | cons pair rest ih =>
      obtain ⟨here, later⟩ := List.forall_mem_cons.mp found
      obtain ⟨middle, first, middleExtended⟩ := bind?_complete extended here
      obtain ⟨next, bound, nextExtended⟩ := ih middleExtended later
      refine ⟨next, ?_, nextExtended⟩
      rw [bindAll?, first]
      exact bound

/-! ### Well-formed queries -/

/-- Candidates have an atom for each variable, and none is listed twice. -/
structure WellFormed (query : Query) : Prop where
  matching : ∀ group ∈ query, ∀ tuple ∈ group.candidates,
    tuple.length = group.variableNames.length
  distinct : ∀ group ∈ query, group.candidates.Nodup

def AllowsTuple (assignment : String → Option String) (variableNames : List String)
    (candidates : List (List String)) : Prop :=
  ∃ tuple ∈ candidates, variableNames.map assignment = tuple.map some

def Allows (query : Query) (assignment : String → Option String) : Prop :=
  ∀ group ∈ query, AllowsTuple assignment group.variableNames group.candidates

def Mentions (query : Query) (variableName : String) : Prop :=
  ∃ group ∈ query, variableName ∈ group.variableNames

theorem wellFormed_nil : WellFormed [] :=
  { matching := fun _ member => by cases member
    distinct := fun _ member => by cases member }

theorem WellFormed.tail {group : VariableGroup} {rest : Query}
    (wellFormed : WellFormed (group :: rest)) : WellFormed rest :=
  { matching := fun other member => wellFormed.matching other (List.mem_cons_of_mem _ member)
    distinct := fun other member => wellFormed.distinct other (List.mem_cons_of_mem _ member) }

/-! ### The join -/

theorem mem_join_cons {group : VariableGroup} {rest : Query} {current answer : Substitution} :
    answer ∈ join (group :: rest) current ↔
      ∃ tuple ∈ group.candidates, ∃ next,
        bindAll? current (group.variableNames.zip tuple) = some next ∧ answer ∈ join rest next := by
  rw [join, List.mem_flatMap]
  refine exists_congr fun tuple => and_congr_right fun _ => ?_
  cases bound : bindAll? current (group.variableNames.zip tuple) with
  | none => simp only [List.not_mem_nil, reduceCtorEq, false_and, exists_false]
  | some next => simp only [Option.some.injEq, exists_eq_left']

theorem allowsTuple_of_bindAll? {current next : Substitution} {variableNames tuple : List String}
    {candidates : List (List String)} (sameLength : tuple.length = variableNames.length)
    (member : tuple ∈ candidates)
    (bound : bindAll? current (variableNames.zip tuple) = some next) {answer : Substitution}
    (extended : Extends answer next) : AllowsTuple answer.find? variableNames candidates := by
  refine ⟨tuple, member, (map_eq_map_some_iff sameLength).mpr ?_⟩
  intro pair inPairs
  exact extended pair.1 pair.2 ((bindAll?_sound bound).2.1 pair inPairs)

/-- The join extends a substitution in all allowed ways, by the variables of the query
and no others. -/
theorem mem_join_iff {query : Query} (wellFormed : WellFormed query)
    {current answer : Substitution} :
    answer ∈ join query current ↔
      Extends answer current ∧ Allows query answer.find? ∧
        ∀ variableName, variableName ∈ answer.keys ↔
          variableName ∈ current.keys ∨ Mentions query variableName := by
  induction query generalizing current with
  | nil =>
      rw [join, List.mem_singleton]
      constructor
      · intro same
        subst same
        refine ⟨Extends.refl answer, ?_, ?_⟩
        · intro group member
          cases member
        · simp only [Mentions, List.not_mem_nil, false_and, exists_false, or_false, implies_true]
      · intro given
        obtain ⟨extended, _, keys⟩ := given
        refine extended.eq_of_keys (fun variableName inAnswer => ?_)
        rcases (keys variableName).mp inAnswer with inCurrent | ⟨group, member, _⟩
        · exact inCurrent
        · cases member
  | cons group rest ih =>
      have groupMatching := wellFormed.matching group List.mem_cons_self
      have mentions (variableName : String) : Mentions (group :: rest) variableName ↔
          variableName ∈ group.variableNames ∨ Mentions rest variableName := by
        simp only [Mentions, List.mem_cons, exists_eq_or_imp]
      have pairNames {tuple : List String} (member : tuple ∈ group.candidates) :
          (group.variableNames.zip tuple).map Prod.fst = group.variableNames :=
        List.map_fst_zip (Nat.le_of_eq (groupMatching tuple member).symm)
      rw [mem_join_cons]
      constructor
      · intro given
        obtain ⟨tuple, member, next, bound, inRest⟩ := given
        obtain ⟨extended, allowed, keys⟩ := (ih wellFormed.tail).mp inRest
        obtain ⟨kept, _, keysNext⟩ := bindAll?_sound bound
        refine ⟨extended.trans kept, ?_, ?_⟩
        · refine List.forall_mem_cons.mpr ⟨?_, allowed⟩
          exact allowsTuple_of_bindAll? (groupMatching tuple member) member bound extended
        · intro variableName
          rw [keys, keysNext, mentions, pairNames member, or_assoc]
      · intro given
        obtain ⟨extended, allowed, keys⟩ := given
        obtain ⟨⟨tuple, member, taken⟩, allowedRest⟩ := List.forall_mem_cons.mp allowed
        have found := (map_eq_map_some_iff (groupMatching tuple member)).mp taken
        obtain ⟨next, bound, extendedNext⟩ := bindAll?_complete extended found
        refine ⟨tuple, member, next, bound, (ih wellFormed.tail).mpr ⟨extendedNext, allowedRest, ?_⟩⟩
        intro variableName
        rw [keys, (bindAll?_sound bound).2.2, mentions, pairNames member, or_assoc]

theorem nodup_join {query : Query} (wellFormed : WellFormed query) (current : Substitution) :
    (join query current).Nodup := by
  induction query generalizing current with
  | nil => exact List.nodup_singleton current
  | cons group rest ih =>
      rw [join, List.nodup_flatMap]
      constructor
      · intro tuple _
        split
        · exact List.nodup_nil
        · exact ih wellFormed.tail _
      · refine (wellFormed.distinct group List.mem_cons_self).imp_of_mem ?_
        intro left right leftMember rightMember different answer inLeft inRight
        have taken {tuple : List String} (member : tuple ∈ group.candidates) {next : Substitution}
            (bound : bindAll? current (group.variableNames.zip tuple) = some next)
            (inJoin : answer ∈ join rest next) :
            group.variableNames.map answer.find? = tuple.map some := by
          have extended := ((mem_join_iff wellFormed.tail).mp inJoin).1
          refine (map_eq_map_some_iff
            (wellFormed.matching group List.mem_cons_self tuple member)).mpr ?_
          intro pair inPairs
          exact extended pair.1 pair.2 ((bindAll?_sound bound).2.1 pair inPairs)
        simp only at inLeft inRight
        split at inLeft
        · cases inLeft
        · rename_i leftBound
          split at inRight
          · cases inRight
          · rename_i rightBound
            have sameTuple := (taken leftMember leftBound inLeft).symm.trans
              (taken rightMember rightBound inRight)
            exact different (map_some_injective sameTuple)

/-! ### Registration -/

theorem allowsTuple_filter_iff {assignment : String → Option String}
    {variableNames : List String} {left right : List (List String)} :
    AllowsTuple assignment variableNames (left.filter (fun tuple => tuple ∈ right)) ↔
      AllowsTuple assignment variableNames left ∧ AllowsTuple assignment variableNames right := by
  constructor
  · intro given
    obtain ⟨tuple, member, taken⟩ := given
    obtain ⟨inLeft, inRight⟩ := List.mem_filter.mp member
    exact ⟨⟨tuple, inLeft, taken⟩, ⟨tuple, of_decide_eq_true inRight, taken⟩⟩
  · intro given
    obtain ⟨⟨tuple, inLeft, taken⟩, ⟨other, inRight, takenToo⟩⟩ := given
    have same : tuple = other := map_some_injective (taken.symm.trans takenToo)
    subst same
    exact ⟨tuple, List.mem_filter.mpr ⟨inLeft, decide_eq_true inRight⟩, taken⟩

theorem restrict_variableNames (variableNames : List String) (candidates : List (List String))
    (group : VariableGroup) :
    (restrict variableNames candidates group).variableNames = group.variableNames := by
  rw [restrict]
  split <;> rfl

theorem restrict_candidates_sublist (variableNames : List String)
    (candidates : List (List String)) (group : VariableGroup) :
    (restrict variableNames candidates group).candidates.Sublist group.candidates := by
  rw [restrict]
  split
  · exact List.filter_sublist
  · exact List.Sublist.refl _

/-- Registration restricts groups where one has the tuple of variables, and otherwise
adds a group. -/
theorem register_cases (query : Query) (variableNames : List String)
    (candidates : List (List String)) :
    ((∃ group ∈ query, group.variableNames = variableNames) ∧
        query.register variableNames candidates = query.map (restrict variableNames candidates)) ∨
      query.register variableNames candidates =
        query ++ [{ variableNames := variableNames, candidates := candidates.eraseDups }] := by
  rw [register]
  split
  · rename_i present
    obtain ⟨group, member, same⟩ := List.any_eq_true.mp present
    exact Or.inl ⟨⟨group, member, eq_of_beq same⟩, rfl⟩
  · exact Or.inr rfl

theorem wellFormed_register {query : Query} (wellFormed : WellFormed query)
    {variableNames : List String} {candidates : List (List String)}
    (matching : ∀ tuple ∈ candidates, tuple.length = variableNames.length) :
    WellFormed (query.register variableNames candidates) := by
  rcases register_cases query variableNames candidates with ⟨_, registered⟩ | registered
  · rw [registered]
    constructor
    · intro restricted member tuple inCandidates
      obtain ⟨group, inQuery, rfl⟩ := List.mem_map.mp member
      rw [restrict_variableNames]
      exact wellFormed.matching group inQuery tuple
        ((restrict_candidates_sublist variableNames candidates group).subset inCandidates)
    · intro restricted member
      obtain ⟨group, inQuery, rfl⟩ := List.mem_map.mp member
      exact (wellFormed.distinct group inQuery).sublist
        (restrict_candidates_sublist variableNames candidates group)
  · rw [registered]
    constructor
    · intro group member tuple inCandidates
      rcases List.mem_append.mp member with inQuery | added
      · exact wellFormed.matching group inQuery tuple inCandidates
      · rw [List.mem_singleton.mp added] at inCandidates ⊢
        exact matching tuple (List.mem_eraseDups.mp inCandidates)
    · intro group member
      rcases List.mem_append.mp member with inQuery | added
      · exact wellFormed.distinct group inQuery
      · rw [List.mem_singleton.mp added]
        exact nodup_eraseDups candidates

theorem allows_restrict_iff {assignment : String → Option String} {variableNames : List String}
    {candidates : List (List String)} (group : VariableGroup) :
    AllowsTuple assignment (restrict variableNames candidates group).variableNames
        (restrict variableNames candidates group).candidates ↔
      AllowsTuple assignment group.variableNames group.candidates ∧
        (group.variableNames = variableNames →
          AllowsTuple assignment variableNames candidates) := by
  rw [restrict]
  split
  · rename_i same
    rw [allowsTuple_filter_iff, same]
    simp only [true_implies]
  · rename_i different
    simp only [different, false_implies, and_true]

theorem allows_register_iff {query : Query} {variableNames : List String}
    {candidates : List (List String)} {assignment : String → Option String} :
    Allows (query.register variableNames candidates) assignment ↔
      Allows query assignment ∧ AllowsTuple assignment variableNames candidates := by
  rcases register_cases query variableNames candidates with
    ⟨⟨present, inQuery, same⟩, registered⟩ | registered
  · rw [registered, Allows, List.forall_mem_map]
    simp only [allows_restrict_iff]
    constructor
    · intro allowed
      exact ⟨fun group member => (allowed group member).1, (allowed present inQuery).2 same⟩
    · intro given group member
      obtain ⟨allowed, allowedTuple⟩ := given
      exact ⟨allowed group member, fun _ => allowedTuple⟩
  · have erased : AllowsTuple assignment variableNames candidates.eraseDups ↔
        AllowsTuple assignment variableNames candidates := by
      simp only [AllowsTuple, List.mem_eraseDups]
    rw [registered, Allows, List.forall_mem_append, List.forall_mem_singleton, erased, Allows]

theorem mentions_register_iff {query : Query} {variableNames : List String}
    {candidates : List (List String)} {variableName : String} :
    Mentions (query.register variableNames candidates) variableName ↔
      Mentions query variableName ∨ variableName ∈ variableNames := by
  rcases register_cases query variableNames candidates with
    ⟨⟨present, inQuery, same⟩, registered⟩ | registered
  · have kept : Mentions (query.map (restrict variableNames candidates)) variableName ↔
        Mentions query variableName := by
      simp only [Mentions, List.mem_map, exists_exists_and_eq_and, restrict_variableNames]
    rw [registered, kept, or_iff_left_of_imp]
    intro member
    exact ⟨present, inQuery, same ▸ member⟩
  · rw [registered]
    simp only [Mentions, List.mem_append, List.mem_singleton, or_and_right, exists_or,
      exists_eq_left]

end Query

/-! ### Selectors -/

theorem Instance.mem_atomsOf_iff {world : Instance} {signature name : String} :
    name ∈ world.atomsOf signature ↔
      ∃ atom ∈ world.atoms, atom.signature = signature ∧ atom.name = name := by
  simp only [atomsOf, List.mem_map, List.mem_filter, beq_iff_eq, and_assoc]

theorem Instance.mem_tuplesOf_iff {world : Instance} {predicate : String} {tuple : List String} :
    tuple ∈ world.tuplesOf predicate ↔
      ∃ fact ∈ world.facts, fact.predicate = predicate ∧ fact.arguments = tuple := by
  simp only [tuplesOf, List.mem_map, List.mem_filter, beq_iff_eq, and_assoc]

namespace Selector

theorem candidates_predicate {schema : Schema} {world : Instance} {predicateName : String}
    {arguments : List String} {tuples : List (List String)}
    (found : (predicate predicateName arguments).candidates schema world = .ok tuples) :
    tuples = world.tuplesOf predicateName ∧
      ∀ tuple ∈ tuples, tuple.length = arguments.length := by
  rw [candidates] at found
  split at found
  · cases found
  · rename_i matched
    cases found
    refine ⟨rfl, ?_⟩
    intro tuple member
    have inLengths : tuple.length ∈
        ((schema.predicate? predicateName).map Predicate.arity).toList ++
          (world.tuplesOf predicateName).map List.length :=
      List.mem_append_right _ (List.mem_map.mpr ⟨tuple, member, rfl⟩)
    have notDifferent := List.find?_eq_none.mp matched tuple.length inLengths
    rw [decide_eq_true_eq, not_not] at notDifferent
    exact notDifferent

/-- The candidates of a selector are the tuples under which it holds, each as long as
its tuple of variables. -/
theorem candidates_exact {schema : Schema} {world : Instance} {selector : Selector}
    {tuples : List (List String)} (found : selector.candidates schema world = .ok tuples) :
    (∀ tuple ∈ tuples, tuple.length = selector.variableNames.length) ∧
      ∀ assignment : String → Option String,
        Query.AllowsTuple assignment selector.variableNames tuples ↔
          selector.Holds world assignment := by
  cases selector with
  | signature variableName signatureName =>
      cases found
      constructor
      · intro tuple member
        obtain ⟨atom, _, rfl⟩ := List.mem_map.mp member
        rfl
      · intro assignment
        constructor
        · intro given
          obtain ⟨tuple, member, taken⟩ := given
          obtain ⟨name, inAtoms, rfl⟩ := List.mem_map.mp member
          obtain ⟨atom, inWorld, typed, rfl⟩ := Instance.mem_atomsOf_iff.mp inAtoms
          exact ⟨atom, inWorld, List.head_eq_of_cons_eq taken, typed⟩
        · intro given
          obtain ⟨atom, inWorld, taken, typed⟩ := given
          have inAtoms := Instance.mem_atomsOf_iff.mpr ⟨atom, inWorld, typed, rfl⟩
          exact ⟨[atom.name], List.mem_map.mpr ⟨atom.name, inAtoms, rfl⟩,
            congrArg (fun bound => [bound]) taken⟩
  | predicate predicateName arguments =>
      obtain ⟨rfl, matching⟩ := candidates_predicate found
      refine ⟨matching, ?_⟩
      intro assignment
      constructor
      · intro given
        obtain ⟨tuple, member, taken⟩ := given
        obtain ⟨fact, inWorld, named, rfl⟩ := Instance.mem_tuplesOf_iff.mp member
        exact ⟨fact, inWorld, named, taken⟩
      · intro given
        obtain ⟨fact, inWorld, named, taken⟩ := given
        exact ⟨fact.arguments, Instance.mem_tuplesOf_iff.mpr ⟨fact, inWorld, named, rfl⟩, taken⟩

end Selector

namespace Query

theorem ofSelectors_exact {schema : Schema} {world : Instance} {query result : Query}
    {selectors : List Selector} (wellFormed : WellFormed query)
    (found : ofSelectors schema world query selectors = .ok result) :
    WellFormed result ∧
      (∀ assignment, Allows result assignment ↔
        Allows query assignment ∧ ∀ selector ∈ selectors, selector.Holds world assignment) ∧
      ∀ variableName, Mentions result variableName ↔
        Mentions query variableName ∨
          ∃ selector ∈ selectors, variableName ∈ selector.variableNames := by
  induction selectors generalizing query with
  | nil =>
      cases found
      simp only [wellFormed, List.not_mem_nil, false_implies, implies_true, and_true, false_and,
        exists_false, or_false, and_self]
  | cons selector rest ih =>
      rw [ofSelectors, Selector.addTo] at found
      cases candidatesFound : selector.candidates schema world with
      | error fault =>
          rw [candidatesFound] at found
          cases found
      | ok tuples =>
          rw [candidatesFound] at found
          obtain ⟨matching, exact⟩ := Selector.candidates_exact candidatesFound
          obtain ⟨resultWellFormed, allows, mentions⟩ :=
            ih (wellFormed_register wellFormed matching) found
          refine ⟨resultWellFormed, ?_, ?_⟩
          · intro assignment
            rw [allows, allows_register_iff, exact, List.forall_mem_cons, and_assoc]
          · intro variableName
            rw [mentions, mentions_register_iff, or_assoc, List.exists_mem_cons_iff]

end Query

theorem Selector.Holds.exists_atom {schema : Schema} {world : Instance}
    (valid : world.Valid schema) {selector : Selector}
    {assignment : String → Option String} (holds : selector.Holds world assignment) {name : String}
    (member : name ∈ selector.variableNames) :
    ∃ atom ∈ world.atoms, assignment name = some atom.name := by
  cases selector with
  | signature variableName signatureName =>
      obtain ⟨atom, declared, found, _⟩ := holds
      rw [List.mem_singleton.mp member]
      exact ⟨atom, declared, found⟩
  | predicate predicateName arguments =>
      obtain ⟨fact, listed, _, taken⟩ := holds
      obtain ⟨_, _, _, known⟩ := valid.factsTyped fact listed
      have inFact : assignment name ∈ fact.arguments.map some :=
        taken ▸ List.mem_map_of_mem member
      obtain ⟨argument, isArgument, found⟩ := List.mem_map.mp inFact
      obtain ⟨atom, declared, rfl⟩ := List.mem_map.mp (known argument isArgument)
      exact ⟨atom, declared, found.symm⟩

section Substitutions

variable {schema : Schema} {world : Instance} {selectors : List Selector}
  {substitutions : List Substitution}

theorem nodup_substitutionsOf
    (found : substitutionsOf schema world selectors = .ok substitutions) : substitutions.Nodup := by
  rw [substitutionsOf] at found
  cases built : Query.ofSelectors schema world [] selectors with
  | error fault =>
      rw [built] at found
      cases found
  | ok query =>
      rw [built] at found
      cases found
      rw [Query.answers_eq_join]
      exact Query.nodup_join (Query.ofSelectors_exact Query.wellFormed_nil built).1 .empty

theorem mem_substitutionsOf_iff
    (found : substitutionsOf schema world selectors = .ok substitutions)
    {substitution : Substitution} :
    substitution ∈ substitutions ↔
      (∀ variableName, variableName ∈ substitution.keys ↔
        ∃ selector ∈ selectors, variableName ∈ selector.variableNames) ∧
      ∀ selector ∈ selectors, selector.Holds world substitution.find? := by
  rw [substitutionsOf] at found
  cases built : Query.ofSelectors schema world [] selectors with
  | error fault =>
      rw [built] at found
      cases found
  | ok query =>
      rw [built] at found
      cases found
      obtain ⟨wellFormed, allows, mentions⟩ := Query.ofSelectors_exact Query.wellFormed_nil built
      rw [Query.answers_eq_join, Query.mem_join_iff wellFormed, allows]
      have extended : Extends substitution .empty := fun _ _ impossible => by cases impossible
      have allowedByNone : Query.Allows [] substitution.find? := fun _ impossible => by
        cases impossible
      have noKeys (variableName : String) :
          variableName ∈ (SortedMap.empty : Substitution).keys ↔ False := by
        simp only [SortedMap.mem_keys_iff, SortedMap.find?_empty, reduceCtorEq, exists_false]
      have noMention (variableName : String) : Query.Mentions [] variableName ↔ False := by
        simp only [Query.Mentions, List.not_mem_nil, false_and, exists_false]
      simp only [extended, allowedByNone, true_and, noKeys, mentions, noMention, false_or]
      exact and_comm

end Substitutions

/-- The substitutions of a chain are the assignments of exactly its variables under
which all its selectors hold, each listed once. -/
theorem substitutionsOf_exact {schema : Schema} {world : Instance} {selectors : List Selector}
    {substitutions : List Substitution}
    (found : substitutionsOf schema world selectors = .ok substitutions) :
    substitutions.Nodup ∧
      ∀ substitution : Substitution, substitution ∈ substitutions ↔
        (∀ variableName, variableName ∈ substitution.keys ↔
          ∃ selector ∈ selectors, variableName ∈ selector.variableNames) ∧
        ∀ selector ∈ selectors, selector.Holds world substitution.find? :=
  ⟨nodup_substitutionsOf found, fun _ => mem_substitutionsOf_iff found⟩

/-- A variable shared by three groups, a fact that is listed twice, an atom that is declared
twice and a predicate without arguments. -/
theorem substitutionsOf_exact_edges :
    let world : Instance :=
      { atoms :=
          [{ name := "n", signature := "Node" }, { name := "m", signature := "Node" },
            { name := "n", signature := "Node" }]
        facts :=
          [{ predicate := "edge", arguments := ["n", "m"] },
            { predicate := "edge", arguments := ["m", "m"] },
            { predicate := "edge", arguments := ["m", "m"] },
            { predicate := "lit", arguments := [] }] }
    let selectors : List Selector :=
      [.predicate "edge" ["a", "b"], .signature "a" "Node", .predicate "edge" ["b", "b"],
        .predicate "lit" []]
    let substitutions : List Substitution :=
      [.ofList [("a", "n"), ("b", "m")], .ofList [("a", "m"), ("b", "m")]]
    substitutionsOf .empty world selectors = .ok substitutions ∧
      substitutions.Nodup ∧
      ∀ substitution : Substitution, substitution ∈ substitutions ↔
        (∀ variableName, variableName ∈ substitution.keys ↔
          ∃ selector ∈ selectors, variableName ∈ selector.variableNames) ∧
        ∀ selector ∈ selectors, selector.Holds world substitution.find? := by
  intro world selectors substitutions
  have found : substitutionsOf .empty world selectors = .ok substitutions := by decide +kernel
  exact ⟨found, substitutionsOf_exact found⟩

end RelationalLayout
