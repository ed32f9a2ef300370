/-
Compiling does not depend on names.

Variables and atoms are only ever compared for equality. So names that stay apart
lead to the same layouts, in the same order, with the new names of the atoms in them,
although the new names may be ordered in another way than the old ones.
-/

import Mathlib.Logic.Equiv.Basic
import RelationalLayout.Proofs.Renaming

namespace RelationalLayout

/-! ### Lists of names that stay apart -/

theorem injOn_map {α β : Type} {naming : α → β} {names : Set α} (apart : Set.InjOn naming names) :
    Set.InjOn (List.map naming) {items | ∀ item ∈ items, item ∈ names} := by
  intro left leftNamed right rightNamed same
  induction left generalizing right with
  | nil => exact (List.map_eq_nil_iff.mp same.symm).symm
  | cons item left ih =>
      cases right with
      | nil => cases same
      | cons other right =>
          obtain ⟨here, later⟩ := List.cons.inj same
          obtain ⟨itemNamed, leftNamed⟩ := List.forall_mem_cons.mp leftNamed
          obtain ⟨otherNamed, rightNamed⟩ := List.forall_mem_cons.mp rightNamed
          rw [apart itemNamed otherNamed here, ih leftNamed rightNamed later]

theorem mem_map_iff_of_injOn {α β : Type} {naming : α → β} {names : Set α}
    (apart : Set.InjOn naming names) {items : List α} (named : ∀ item ∈ items, item ∈ names)
    {item : α} (inNames : item ∈ names) : naming item ∈ items.map naming ↔ item ∈ items := by
  constructor
  · intro member
    obtain ⟨other, present, same⟩ := List.mem_map.mp member
    rw [← apart (named other present) inNames same]
    exact present
  · exact List.mem_map_of_mem

theorem eraseDups_map_of_injOn {α β : Type} [BEq α] [LawfulBEq α] [BEq β] [LawfulBEq β]
    {naming : α → β} {names : Set α} (apart : Set.InjOn naming names) {items : List α}
    (named : ∀ item ∈ items, item ∈ names) :
    (items.map naming).eraseDups = items.eraseDups.map naming := by
  match items with
  | [] => rfl
  | first :: rest =>
      obtain ⟨firstNamed, restNamed⟩ := List.forall_mem_cons.mp named
      have others : (rest.map naming).filter (fun item => !item == naming first) =
          (rest.filter (fun item => !item == first)).map naming := by
        rw [List.filter_map]
        congr 1
        apply List.filter_congr
        intro item member
        rw [Function.comp_apply, Bool.eq_iff_iff, Bool.not_eq_true', Bool.not_eq_true',
          beq_eq_false_iff_ne, beq_eq_false_iff_ne]
        exact not_congr (apart.eq_iff (restNamed item member) firstNamed)
      rw [List.map_cons, List.eraseDups_cons, List.eraseDups_cons, List.map_cons, others]
      congr 1
      apply eraseDups_map_of_injOn apart
      intro item member
      exact restNamed item (List.mem_filter.mp member).1
termination_by items.length
decreasing_by
  exact Nat.lt_succ_of_le (List.length_filter_le _ rest)

/-! ### Lists that correspond -/

theorem forall₂_flatMap {α β γ : Type} {relation : β → γ → Prop} {items : List α}
    {left : α → List β} {right : α → List γ}
    (each : ∀ item ∈ items, List.Forall₂ relation (left item) (right item)) :
    List.Forall₂ relation (items.flatMap left) (items.flatMap right) := by
  induction items with
  | nil => exact List.Forall₂.nil
  | cons item items ih =>
      obtain ⟨here, later⟩ := List.forall_mem_cons.mp each
      rw [List.flatMap_cons, List.flatMap_cons]
      exact List.rel_append here (ih later)

/-! ### Instances and selectors -/

namespace Instance

def rename (atomNaming : String → String) (world : Instance) : Instance :=
  { atoms := world.atoms.map (fun atom => { atom with name := atomNaming atom.name })
    facts := world.facts.map (fun fact =>
      { fact with arguments := fact.arguments.map atomNaming }) }

def mentionedAtoms (world : Instance) : Set String :=
  {name | name ∈ world.atomNames ∨ ∃ fact ∈ world.facts, name ∈ fact.arguments}

variable {atomNaming : String → String} {world : Instance}

theorem atomsOf_rename (signature : String) :
    (world.rename atomNaming).atomsOf signature = (world.atomsOf signature).map atomNaming := by
  unfold atomsOf rename
  rw [List.filter_map, List.map_map, List.map_map]
  rfl

theorem tuplesOf_rename (predicate : String) :
    (world.rename atomNaming).tuplesOf predicate =
      (world.tuplesOf predicate).map (List.map atomNaming) := by
  unfold tuplesOf rename
  rw [List.filter_map, List.map_map, List.map_map]
  rfl

theorem mem_mentionedAtoms_of_mem_atomsOf {signature name : String}
    (member : name ∈ world.atomsOf signature) : name ∈ world.mentionedAtoms := by
  obtain ⟨atom, declared, _, rfl⟩ := mem_atomsOf_iff.mp member
  exact Or.inl (List.mem_map_of_mem declared)

theorem mem_mentionedAtoms_of_mem_tuplesOf {predicate name : String} {tuple : List String}
    (member : tuple ∈ world.tuplesOf predicate) (inside : name ∈ tuple) :
    name ∈ world.mentionedAtoms := by
  obtain ⟨fact, listed, _, rfl⟩ := mem_tuplesOf_iff.mp member
  exact Or.inr ⟨fact, listed, inside⟩

end Instance

section Naming

variable {schema : Schema} {world : Instance} {naming atomNaming : String → String}
  {names atoms : Set String}

namespace Selector

theorem candidates_rename (selector : Selector) :
    (selector.rename naming).candidates schema (world.rename atomNaming) =
      (selector.candidates schema world).map (List.map (List.map atomNaming)) := by
  cases selector with
  | signature variableName signatureName =>
      simp only [rename, candidates, Instance.atomsOf_rename, List.map_map, Except.map]
      rfl
  | predicate predicateName arguments =>
      have lengths : ((world.tuplesOf predicateName).map (List.map atomNaming)).map List.length =
          (world.tuplesOf predicateName).map List.length := by
        rw [List.map_map]
        apply List.map_congr_left
        intro tuple _
        exact List.length_map atomNaming
      simp only [rename, candidates, Instance.tuplesOf_rename, lengths, List.length_map]
      split <;> rfl

theorem mem_mentionedAtoms_of_candidates {selector : Selector} {tuples : List (List String)}
    (found : selector.candidates schema world = .ok tuples) :
    ∀ tuple ∈ tuples, ∀ name ∈ tuple, name ∈ world.mentionedAtoms := by
  intro tuple member name inside
  cases selector with
  | signature variableName signatureName =>
      cases found
      obtain ⟨atom, inAtoms, rfl⟩ := List.mem_map.mp member
      rw [List.mem_singleton.mp inside]
      exact Instance.mem_mentionedAtoms_of_mem_atomsOf inAtoms
  | predicate predicateName arguments =>
      obtain ⟨rfl, _⟩ := candidates_predicate found
      exact Instance.mem_mentionedAtoms_of_mem_tuplesOf member inside

end Selector

/-! ### Queries -/

namespace VariableGroup

def rename (naming atomNaming : String → String) (group : VariableGroup) : VariableGroup :=
  { variableNames := group.variableNames.map naming
    candidates := group.candidates.map (List.map atomNaming) }

/-- The group is about these variables and atoms. -/
structure Within (names atoms : Set String) (group : VariableGroup) : Prop where
  namesInside : ∀ name ∈ group.variableNames, name ∈ names
  atomsInside : ∀ tuple ∈ group.candidates, ∀ atom ∈ tuple, atom ∈ atoms

theorem Within.of_sublist {group : VariableGroup} (within : group.Within names atoms)
    {fewer : List (List String)} (sublist : fewer.Sublist group.candidates) :
    Within names atoms { group with candidates := fewer } :=
  { namesInside := within.namesInside
    atomsInside := fun tuple member => within.atomsInside tuple (sublist.subset member) }

end VariableGroup

namespace Query

theorem within_register {query : Query} (within : ∀ group ∈ query, group.Within names atoms)
    {added : VariableGroup} (addedWithin : added.Within names atoms) :
    ∀ group ∈ query.register added.variableNames added.candidates, group.Within names atoms := by
  intro group member
  rcases register_cases query added.variableNames added.candidates with ⟨_, registered⟩ | registered
  · rw [registered] at member
    obtain ⟨earlier, inQuery, rfl⟩ := List.mem_map.mp member
    unfold restrict
    split
    · exact (within earlier inQuery).of_sublist List.filter_sublist
    · exact within earlier inQuery
  · rw [registered] at member
    rcases List.mem_append.mp member with inQuery | isAdded
    · exact within group inQuery
    · rw [List.mem_singleton.mp isAdded]
      exact addedWithin.of_sublist (eraseDups_sublist _)

variable (apart : Set.InjOn naming names) (atomsApart : Set.InjOn atomNaming atoms)
include apart atomsApart

theorem register_rename {query : Query} (within : ∀ group ∈ query, group.Within names atoms)
    {added : VariableGroup} (addedWithin : added.Within names atoms) :
    register (query.map (VariableGroup.rename naming atomNaming))
        (added.variableNames.map naming) (added.candidates.map (List.map atomNaming)) =
      (query.register added.variableNames added.candidates).map
        (VariableGroup.rename naming atomNaming) := by
  have sameKey {group : VariableGroup} (member : group ∈ query) :
      group.variableNames.map naming = added.variableNames.map naming ↔
        group.variableNames = added.variableNames :=
    (injOn_map apart).eq_iff (within group member).namesInside addedWithin.namesInside
  have isPresent :
      (query.map (VariableGroup.rename naming atomNaming)).any
          (fun group => group.variableNames == added.variableNames.map naming) =
        query.any (fun group => group.variableNames == added.variableNames) := by
    rw [List.any_map, Bool.eq_iff_iff, List.any_eq_true, List.any_eq_true]
    apply exists_congr
    intro group
    apply and_congr_right
    intro member
    rw [beq_iff_eq]
    exact beq_iff_eq.trans (sameKey member)
  unfold register
  rw [isPresent]
  split
  · rw [List.map_map, List.map_map]
    apply List.map_congr_left
    intro group member
    simp only [Function.comp_apply, restrict, VariableGroup.rename, sameKey member]
    split
    · simp only [List.filter_map]
      congr 2
      apply List.filter_congr
      intro tuple inside
      exact decide_eq_decide.mpr (mem_map_iff_of_injOn (injOn_map atomsApart)
        addedWithin.atomsInside ((within group member).atomsInside tuple inside))
    · rfl
  · rw [List.map_append, List.map_singleton,
      eraseDups_map_of_injOn (injOn_map atomsApart) addedWithin.atomsInside]
    rfl

theorem ofSelectors_rename {query result : Query}
    (within : ∀ group ∈ query, group.Within names atoms) {selectors : List Selector}
    (named : ∀ name ∈ variablesIn selectors, name ∈ names) (worldNamed : world.mentionedAtoms ⊆ atoms)
    (built : ofSelectors schema world query selectors = .ok result) :
    ofSelectors schema (world.rename atomNaming)
        (query.map (VariableGroup.rename naming atomNaming))
        (selectors.map (Selector.rename naming)) =
      .ok (result.map (VariableGroup.rename naming atomNaming)) ∧
    ∀ group ∈ result, group.Within names atoms := by
  induction selectors generalizing query with
  | nil =>
      cases built
      exact ⟨rfl, within⟩
  | cons selector rest ih =>
      rw [ofSelectors, Selector.addTo] at built
      cases found : selector.candidates schema world with
      | error fault =>
          rw [found] at built
          cases built
      | ok tuples =>
          rw [found] at built
          have added : VariableGroup.Within names atoms ⟨selector.variableNames, tuples⟩ :=
            { namesInside := fun name member => named name (List.mem_append_left _ member)
              atomsInside := fun tuple member atom inside => worldNamed
                (Selector.mem_mentionedAtoms_of_candidates found tuple member atom inside) }
          have restNamed : ∀ name ∈ variablesIn rest, name ∈ names :=
            fun name member => named name (List.mem_append_right _ member)
          have renamed := ih (within_register within added) restNamed built
          rw [← register_rename apart atomsApart within added] at renamed
          rw [List.map_cons, ofSelectors, Selector.addTo, Selector.candidates_rename, found,
            Selector.variableNames_rename]
          exact renamed

end Query

end Naming

/-! ### Substitutions -/

namespace Substitution

/-- One substitution does for the new names what the other does for the old ones. -/
structure Renamed (naming atomNaming : String → String) (names atoms : Set String)
    (original renamed : Substitution) : Prop where
  bound : ∀ name atom, original.find? name = some atom →
    name ∈ names ∧ atom ∈ atoms ∧ renamed.find? (naming name) = some (atomNaming atom)
  free : ∀ name ∈ names, original.find? name = none → renamed.find? (naming name) = none

theorem renamed_empty {naming atomNaming : String → String} {names atoms : Set String} :
    Renamed naming atomNaming names atoms .empty .empty :=
  { bound := fun _ _ impossible => by cases impossible
    free := fun _ _ _ => rfl }

end Substitution

open Substitution (Renamed)

section Renaming

variable {schema : Schema} {world : Instance} {naming atomNaming : String → String}
  {names atoms : Set String}

namespace Query

variable (apart : Set.InjOn naming names) (atomsApart : Set.InjOn atomNaming atoms)
include apart atomsApart

theorem bind?_renamed {original renamed : Substitution}
    (same : Renamed naming atomNaming names atoms original renamed) {name atom : String}
    (named : name ∈ names) (inAtoms : atom ∈ atoms) :
    Option.Rel (Renamed naming atomNaming names atoms) (bind? original name atom)
      (bind? renamed (naming name) (atomNaming atom)) := by
  unfold bind?
  cases present : original.find? name with
  | none =>
      rw [same.free name named present]
      apply Option.Rel.some
      constructor
      · intro other value found
        rw [SortedMap.find?_insert] at found
        split at found
        · rename_i here
          subst here
          cases found
          rw [SortedMap.find?_insert, if_pos rfl]
          exact ⟨named, inAtoms, rfl⟩
        · rename_i elsewhere
          obtain ⟨otherNamed, valueInside, leads⟩ := same.bound other value found
          rw [SortedMap.find?_insert, if_neg (fun equal => elsewhere (apart otherNamed named equal))]
          exact ⟨otherNamed, valueInside, leads⟩
      · intro other otherNamed unbound
        rw [SortedMap.find?_insert] at unbound ⊢
        split at unbound
        · cases unbound
        · rename_i elsewhere
          rw [if_neg (fun equal => elsewhere (apart otherNamed named equal))]
          exact same.free other otherNamed unbound
  | some bound =>
      obtain ⟨_, boundInside, leads⟩ := same.bound name bound present
      rw [leads]
      simp only [atomsApart.eq_iff boundInside inAtoms]
      split
      · exact Option.Rel.some same
      · exact Option.Rel.none

theorem bindAll?_renamed {original renamed : Substitution}
    (same : Renamed naming atomNaming names atoms original renamed) {pairs : List (String × String)}
    (inside : ∀ pair ∈ pairs, pair.1 ∈ names ∧ pair.2 ∈ atoms) :
    Option.Rel (Renamed naming atomNaming names atoms) (bindAll? original pairs)
      (bindAll? renamed (pairs.map (Prod.map naming atomNaming))) := by
  induction pairs generalizing original renamed with
  | nil => exact Option.Rel.some same
  | cons pair pairs ih =>
      obtain ⟨⟨named, inAtoms⟩, later⟩ := List.forall_mem_cons.mp inside
      rw [List.map_cons, bindAll?, bindAll?, Prod.map_fst, Prod.map_snd]
      have step := bind?_renamed apart atomsApart same named inAtoms
      generalize bind? original pair.1 pair.2 = next at step ⊢
      generalize bind? renamed (naming pair.1) (atomNaming pair.2) = nextRenamed at step ⊢
      cases step with
      | none => exact Option.Rel.none
      | some stillSame => exact ih stillSame later

/-- The join goes through the renamed tuples in the same order and fails on the same ones. -/
theorem join_renamed {query : Query} (within : ∀ group ∈ query, group.Within names atoms)
    {original renamed : Substitution}
    (same : Renamed naming atomNaming names atoms original renamed) :
    List.Forall₂ (Renamed naming atomNaming names atoms) (join query original)
      (join (query.map (VariableGroup.rename naming atomNaming)) renamed) := by
  induction query generalizing original renamed with
  | nil => exact List.Forall₂.cons same List.Forall₂.nil
  | cons group rest ih =>
      obtain ⟨groupWithin, restWithin⟩ := List.forall_mem_cons.mp within
      rw [List.map_cons, join, join, VariableGroup.rename, List.flatMap_map]
      apply forall₂_flatMap
      intro tuple member
      have inside : ∀ pair ∈ group.variableNames.zip tuple, pair.1 ∈ names ∧ pair.2 ∈ atoms := by
        intro pair inPairs
        obtain ⟨inNames, inTuple⟩ := List.of_mem_zip inPairs
        exact ⟨groupWithin.namesInside _ inNames, groupWithin.atomsInside tuple member _ inTuple⟩
      have step := bindAll?_renamed apart atomsApart same inside
      rw [List.zip_map]
      generalize bindAll? original (group.variableNames.zip tuple) = next at step ⊢
      generalize bindAll? renamed _ = nextRenamed at step ⊢
      cases step with
      | none => exact List.Forall₂.nil
      | some stillSame => exact ih restWithin stillSame

end Query

theorem substitutionsOf_rename {selectors : List Selector} {substitutions : List Substitution}
    (apart : Set.InjOn naming {name | name ∈ variablesIn selectors})
    (atomsApart : Set.InjOn atomNaming world.mentionedAtoms)
    (found : substitutionsOf schema world selectors = .ok substitutions) :
    ∃ renamed, substitutionsOf schema (world.rename atomNaming)
        (selectors.map (Selector.rename naming)) = .ok renamed ∧
      List.Forall₂ (Renamed naming atomNaming {name | name ∈ variablesIn selectors}
        world.mentionedAtoms) substitutions renamed := by
  unfold substitutionsOf at found ⊢
  cases built : Query.ofSelectors schema world [] selectors with
  | error fault =>
      rw [built] at found
      cases found
  | ok query =>
      rw [built] at found
      cases found
      have none : ∀ group ∈ ([] : Query), group.Within {name | name ∈ variablesIn selectors}
          world.mentionedAtoms := fun _ impossible => by cases impossible
      obtain ⟨builtToo, within⟩ := Query.ofSelectors_rename apart atomsApart none
        (fun _ member => member) subset_rfl built
      rw [List.map_nil] at builtToo
      rw [builtToo]
      refine ⟨_, rfl, ?_⟩
      rw [Query.answers_eq_join, Query.answers_eq_join]
      exact Query.join_renamed apart atomsApart within Substitution.renamed_empty

end Renaming

/-! ### Rules and programs -/

def GroundLayout.rename (atomNaming : String → String) : GroundLayout → GroundLayout
  | .unary option separation operand => .unary option separation (atomNaming operand)
  | .binary option separation first second =>
      .binary option separation (atomNaming first) (atomNaming second)
  | .cyclic option first second cycle =>
      .cyclic option (atomNaming first) (atomNaming second) cycle
  | .grouping operand group => .grouping (atomNaming operand) group

namespace Rule

def rename (naming : String → String) (rule : Rule) : Rule :=
  { chain :=
      { first := rule.chain.first.rename naming
        rest := rule.chain.rest.map (Selector.rename naming) }
    terminal := Template.rename naming rule.terminal }

/-- The other rule has new names for the variables of this one, and different names for
different variables. -/
def IsRenaming (rule other : Rule) : Prop :=
  ∃ naming, Set.InjOn naming {name | name ∈ variablesIn rule.selectors} ∧
    other = rule.rename naming

end Rule

section Compiling

variable {schema : Schema} {world : Instance} {atomNaming : String → String}

theorem Template.instantiate_rename {naming : String → String} {names atoms : Set String}
    {original renamed : Substitution}
    (same : Renamed naming atomNaming names atoms original renamed) {terminal : Template}
    {id : String} {layout : GroundLayout}
    (instantiated : terminal.instantiate original id = .ok layout) :
    (Template.rename naming terminal).instantiate renamed id =
      .ok (GroundLayout.rename atomNaming layout) := by
  have leads {name atom : String} (found : original.find? name = some atom) :
      renamed.find? (naming name) = some (atomNaming atom) :=
    (same.bound name atom found).2.2
  cases terminal with
  | unary option separation operand =>
      obtain ⟨atom, found, rfl⟩ := instantiate_unary_iff.mp instantiated
      exact instantiate_unary_iff.mpr ⟨_, leads found, rfl⟩
  | grouping operand group =>
      obtain ⟨atom, found, rfl⟩ := instantiate_grouping_iff.mp instantiated
      exact instantiate_grouping_iff.mpr ⟨_, leads found, rfl⟩
  | binary option separation first second =>
      obtain ⟨left, right, foundLeft, foundRight, rfl⟩ := instantiate_binary_iff.mp instantiated
      exact instantiate_binary_iff.mpr ⟨_, _, leads foundLeft, leads foundRight, rfl⟩
  | cyclic option first second cycle =>
      obtain ⟨source, target, foundSource, foundTarget, rfl⟩ :=
        instantiate_cyclic_iff.mp instantiated
      exact instantiate_cyclic_iff.mpr ⟨_, _, leads foundSource, leads foundTarget, rfl⟩

theorem Template.instantiateAll_rename {naming : String → String} {names atoms : Set String}
    {originals renamed : List Substitution}
    (same : List.Forall₂ (Renamed naming atomNaming names atoms) originals renamed)
    {terminal : Template} {id : String} {layouts : List GroundLayout}
    (instantiated : terminal.instantiateAll id originals = .ok layouts) :
    (Template.rename naming terminal).instantiateAll id renamed =
      .ok (layouts.map (GroundLayout.rename atomNaming)) := by
  rw [instantiateAll_eq_ok_iff] at instantiated ⊢
  induction same generalizing layouts with
  | nil =>
      cases instantiated
      exact List.Forall₂.nil
  | cons here _ ih =>
      cases instantiated with
      | cons first rest =>
          rw [List.map_cons]
          exact List.Forall₂.cons (instantiate_rename here first) (ih rest)

theorem Rule.compile_rename {rule other : Rule} (isRenaming : rule.IsRenaming other)
    (atomsApart : Set.InjOn atomNaming world.mentionedAtoms) {number : Nat}
    {layouts : List GroundLayout} (compiled : rule.compile schema world number = .ok layouts) :
    other.compile schema (world.rename atomNaming) number =
      .ok (layouts.map (GroundLayout.rename atomNaming)) := by
  obtain ⟨naming, apart, rfl⟩ := isRenaming
  obtain ⟨substitutions, found, instantiated⟩ := Rule.compile_eq_ok_iff.mp compiled
  obtain ⟨renamed, foundToo, same⟩ := substitutionsOf_rename apart atomsApart found
  apply Rule.compile_eq_ok_iff.mpr
  exact ⟨renamed, foundToo, Template.instantiateAll_rename same instantiated⟩

theorem Program.compileFrom_rename {program other : Program}
    (areRenamings : List.Forall₂ Rule.IsRenaming program other)
    (atomsApart : Set.InjOn atomNaming world.mentionedAtoms) {number : Nat}
    {layouts : List GroundLayout}
    (compiled : Program.compileFrom schema world number program = .ok layouts) :
    Program.compileFrom schema (world.rename atomNaming) number other =
      .ok (layouts.map (GroundLayout.rename atomNaming)) := by
  induction areRenamings generalizing number layouts with
  | nil =>
      cases compiled
      rfl
  | cons here _ ih =>
      rw [compileFrom] at compiled ⊢
      obtain ⟨own, ownCompiled, later⟩ := bind_eq_ok_iff.mp compiled
      obtain ⟨others, othersCompiled, whole⟩ := bind_eq_ok_iff.mp later
      cases whole
      rw [Rule.compile_rename here atomsApart ownCompiled]
      apply bind_eq_ok_iff.mpr
      refine ⟨_, rfl, ?_⟩
      rw [ih othersCompiled, List.map_append]
      rfl

/-- A program with other names for the variables of each rule, over an instance with other names
for its atoms, compiles to the same layouts with the other names of their atoms. -/
theorem Program.compile_renamed {program other : Program}
    (areRenamings : List.Forall₂ Rule.IsRenaming program other)
    (atomsApart : Set.InjOn atomNaming world.mentionedAtoms) {layouts : List GroundLayout}
    (compiled : program.compile schema world = .ok layouts) :
    other.compile schema (world.rename atomNaming) =
      .ok (layouts.map (GroundLayout.rename atomNaming)) :=
  compileFrom_rename areRenamings atomsApart compiled

/-- Variables and atoms change places, which reverses their order; the second rule takes over a
name of the first. -/
theorem Program.compile_renamed_swapped :
    let world : Instance :=
      { atoms := [⟨"p::q", "T"⟩, ⟨"r", "T"⟩]
        facts := [⟨"r", ["r", "p::q"]⟩, ⟨"r", ["p::q", "p::q"]⟩, ⟨"r", ["p::q", "r"]⟩] }
    let program : Program :=
      [⟨⟨.predicate "r" ["c", "a::b"], [.signature "c" "T"]⟩,
          .binary .leftOf (.exactly 10) "a::b" "c"⟩,
        ⟨⟨.signature "x" "T", []⟩, .cyclic .clockwise "x" "x" ()⟩]
    let other : Program :=
      [⟨⟨.predicate "r" ["a::b", "c"], [.signature "a::b" "T"]⟩,
          .binary .leftOf (.exactly 10) "c" "a::b"⟩,
        ⟨⟨.signature "c" "T", []⟩, .cyclic .clockwise "c" "c" ()⟩]
    let layouts : List GroundLayout :=
      [.binary .leftOf (.exactly 10) "p::q" "r", .binary .leftOf (.exactly 10) "p::q" "p::q",
        .binary .leftOf (.exactly 10) "r" "p::q", .cyclic .clockwise "p::q" "p::q" "cycle-1",
        .cyclic .clockwise "r" "r" "cycle-1"]
    List.Forall₂ Rule.IsRenaming program other ∧
      Set.InjOn (Equiv.swap "p::q" "r") world.mentionedAtoms ∧
      program.compile .empty world = .ok layouts ∧
      other.compile .empty (world.rename (Equiv.swap "p::q" "r")) =
        .ok (layouts.map (GroundLayout.rename (Equiv.swap "p::q" "r"))) := by
  intro world program other layouts
  have first : Rule.IsRenaming program[0] other[0] :=
    ⟨Equiv.swap "a::b" "c", (Equiv.injective _).injOn, by decide +kernel⟩
  have second : Rule.IsRenaming program[1] other[1] :=
    ⟨fun name => if name = "x" then "c" else name, by
      intro left leftNamed right rightNamed _
      rw [List.mem_singleton.mp leftNamed, List.mem_singleton.mp rightNamed], by decide +kernel⟩
  have areRenamings : List.Forall₂ Rule.IsRenaming program other := .cons first (.cons second .nil)
  have atomsApart : Set.InjOn (Equiv.swap "p::q" "r") world.mentionedAtoms :=
    (Equiv.injective _).injOn
  have compiled : program.compile .empty world = .ok layouts := by decide +kernel
  exact ⟨areRenamings, atomsApart, compiled, compile_renamed areRenamings atomsApart compiled⟩

end Compiling

end RelationalLayout
