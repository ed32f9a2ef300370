/-
The chains that a search tries.

A chain is given by the types of its variables and by the predicate selectors over
them. The search builds exactly the chains of distinct, typed variables with
distinct, well-typed predicate selectors behind them, of every length.
-/

import Mathlib.Data.List.Forall2
import RelationalLayout.Proofs.SortedMap
import RelationalLayout.Search

namespace RelationalLayout

/-! ### Chains from their parts -/

abbrev TypedVariable := String × String

namespace Selector

def ofEntry (entry : TypedVariable) : Selector := .signature entry.1 entry.2

/-- A predicate selector whose arguments have exactly the signatures that a declared predicate of
that name asks for. -/
def Fits (schema : Schema) (types : List TypedVariable) (selector : Selector) : Prop :=
  ∃ predicate ∈ schema.predicates, ∃ arguments,
    List.Forall₂ (fun argument signature => (argument, signature) ∈ types) arguments
      predicate.signatures ∧
    selector = .predicate predicate.name arguments

theorem not_fits_ofEntry {schema : Schema} {types : List TypedVariable}
    (entry : TypedVariable) : ¬(ofEntry entry).Fits schema types := by
  intro given
  obtain ⟨_, _, _, _, impossible⟩ := given
  cases impossible

end Selector

/-- Distinct variables of a pool with declared signatures, and distinct predicate selectors
that fit them. -/
structure IsTyped (schema : Schema) (pool : List String) (types : List TypedVariable)
    (predicates : List Selector) : Prop where
  distinct : (types.map Prod.fst).Nodup
  declared : ∀ entry ∈ types, entry.1 ∈ pool ∧ entry.2 ∈ schema.signatures
  predicatesDistinct : predicates.Nodup
  fits : ∀ selector ∈ predicates, selector.Fits schema types

namespace IsTyped

variable {schema : Schema} {pool : List String} {types more : List TypedVariable}
  {predicates later : List Selector}

theorem nil : IsTyped schema pool [] [] where
  distinct := List.nodup_nil
  declared := fun _ member => absurd member List.not_mem_nil
  predicatesDistinct := List.nodup_nil
  fits := fun _ member => absurd member List.not_mem_nil

theorem earlierTypes (typed : IsTyped schema pool (types ++ more) predicates) :
    IsTyped schema pool types [] where
  distinct := by
    have whole := typed.distinct
    rw [List.map_append] at whole
    exact (List.nodup_append.mp whole).1
  declared := fun entry member => typed.declared entry (List.mem_append_left more member)
  predicatesDistinct := List.nodup_nil
  fits := fun _ member => absurd member List.not_mem_nil

theorem earlierPredicates (typed : IsTyped schema pool types (predicates ++ later)) :
    IsTyped schema pool types predicates where
  distinct := typed.distinct
  declared := typed.declared
  predicatesDistinct := (List.nodup_append.mp typed.predicatesDistinct).1
  fits := fun selector member => typed.fits selector (List.mem_append_left later member)

theorem append_entry_iff (typed : IsTyped schema pool types []) (entry : TypedVariable) :
    IsTyped schema pool (types ++ [entry]) [] ↔
      entry.1 ∈ pool ∧ entry.1 ∉ types.map Prod.fst ∧ entry.2 ∈ schema.signatures := by
  constructor
  · intro extended
    obtain ⟨inPool, declared⟩ :=
      extended.declared entry (List.mem_append_right types List.mem_cons_self)
    have distinct := extended.distinct
    rw [List.map_append, List.nodup_append] at distinct
    refine ⟨inPool, ?_, declared⟩
    intro earlier
    exact distinct.2.2 entry.1 earlier entry.1 List.mem_cons_self rfl
  · intro given
    obtain ⟨inPool, fresh, declared⟩ := given
    refine ⟨?_, ?_, List.nodup_nil, fun _ member => absurd member List.not_mem_nil⟩
    · rw [List.map_append, List.nodup_append]
      refine ⟨typed.distinct, List.nodup_cons.mpr ⟨List.not_mem_nil, List.nodup_nil⟩, ?_⟩
      intro name earlier other isNew same
      rw [List.map_singleton, List.mem_singleton] at isNew
      rw [same, isNew] at earlier
      exact fresh earlier
    · intro other member
      rcases List.mem_append.mp member with earlier | isNew
      · exact typed.declared other earlier
      · rw [List.mem_singleton.mp isNew]
        exact ⟨inPool, declared⟩

theorem append_predicate_iff (typed : IsTyped schema pool types predicates) (selector : Selector) :
    IsTyped schema pool types (predicates ++ [selector]) ↔
      selector.Fits schema types ∧ selector ∉ predicates := by
  constructor
  · intro extended
    have distinct := extended.predicatesDistinct
    rw [List.nodup_append] at distinct
    refine ⟨extended.fits selector (List.mem_append_right predicates List.mem_cons_self), ?_⟩
    intro earlier
    exact distinct.2.2 selector earlier selector List.mem_cons_self rfl
  · intro given
    obtain ⟨fits, fresh⟩ := given
    refine ⟨typed.distinct, typed.declared, ?_, ?_⟩
    · rw [List.nodup_append]
      refine ⟨typed.predicatesDistinct, List.nodup_cons.mpr ⟨List.not_mem_nil, List.nodup_nil⟩, ?_⟩
      intro other earlier last isNew same
      rw [same, List.mem_singleton.mp isNew] at earlier
      exact fresh earlier
    · intro other member
      rcases List.mem_append.mp member with earlier | isNew
      · exact typed.fits other earlier
      · rw [List.mem_singleton.mp isNew]
        exact fits

end IsTyped

namespace TypedChain

def ofParts (types : List TypedVariable) (predicates : List Selector) : TypedChain :=
  { selectors := types.map Selector.ofEntry ++ predicates, env := .ofList types }

/-! ### One more selector -/

variable {schema : Schema} {pool : List String} {types : List TypedVariable}
  {predicates : List Selector} {longer : TypedChain}

theorem mem_signatureExtensions_iff (typed : IsTyped schema pool types []) :
    longer ∈ (ofParts types []).signatureExtensions schema pool ↔
      ∃ entry, IsTyped schema pool (types ++ [entry]) [] ∧
        longer = ofParts (types ++ [entry]) [] := by
  have fresh (variableName : String) :
      (!(ofParts types []).env.contains variableName) = true ↔
        variableName ∉ types.map Prod.fst := by
    rw [Bool.not_eq_true', ← Bool.not_eq_true, SortedMap.contains_iff]
    exact not_congr (SortedMap.mem_keys_ofList typed.distinct)
  have extended (entry : TypedVariable) :
      ofParts (types ++ [entry]) [] =
        { selectors := (ofParts types []).selectors ++ [.signature entry.1 entry.2]
          env := (ofParts types []).env.insert entry.1 entry.2 } := by
    simp only [ofParts, SortedMap.ofList_append_singleton, List.map_append, List.map_singleton,
      List.append_nil, Selector.ofEntry]
  simp only [signatureExtensions, List.mem_flatMap, List.mem_map, List.mem_filter, fresh,
    typed.append_entry_iff, extended]
  constructor
  · intro given
    obtain ⟨signature, declared, variableName, ⟨inPool, isFresh⟩, rfl⟩ := given
    exact ⟨(variableName, signature), ⟨inPool, isFresh, declared⟩, rfl⟩
  · intro given
    obtain ⟨entry, ⟨inPool, isFresh, declared⟩, rfl⟩ := given
    exact ⟨entry.2, declared, entry.1, ⟨inPool, isFresh⟩, rfl⟩

theorem mem_choices_iff {lists : List (List String)} {items : List String} :
    items ∈ choices lists ↔ List.Forall₂ (fun item list => item ∈ list) items lists := by
  induction lists generalizing items with
  | nil => rw [choices, List.mem_singleton, List.forall₂_nil_right_iff]
  | cons list lists ih =>
      rw [List.forall₂_cons_right_iff]
      simp only [choices, List.mem_flatMap, List.mem_map, ih]
      constructor
      · intro given
        obtain ⟨item, inList, later, chosen, rfl⟩ := given
        exact ⟨item, later, inList, chosen, rfl⟩
      · intro given
        obtain ⟨item, later, inList, chosen, rfl⟩ := given
        exact ⟨item, inList, later, chosen, rfl⟩

theorem mem_variablesOf_iff (distinct : (types.map Prod.fst).Nodup) (signature variableName : String) :
    variableName ∈ variablesOf (.ofList types) signature ↔ (variableName, signature) ∈ types := by
  rw [← SortedMap.find?_ofList distinct, ← SortedMap.mem_entries_iff]
  simp only [variablesOf, List.mem_map, List.mem_filter, beq_iff_eq]
  constructor
  · intro given
    obtain ⟨⟨name, found⟩, ⟨member, same⟩, rfl⟩ := given
    cases same
    exact member
  · intro member
    exact ⟨(variableName, signature), ⟨member, rfl⟩, rfl⟩

theorem mem_predicateExtensions_iff (typed : IsTyped schema pool types predicates) :
    longer ∈ (ofParts types predicates).predicateExtensions schema ↔
      ∃ selector, IsTyped schema pool types (predicates ++ [selector]) ∧
        longer = ofParts types (predicates ++ [selector]) := by
  have arguments (signatures items : List String) :
      items ∈ choices (signatures.map (variablesOf (ofParts types predicates).env)) ↔
        List.Forall₂ (fun argument signature => (argument, signature) ∈ types) items
          signatures := by
    rw [mem_choices_iff, List.forall₂_map_right_iff]
    simp only [ofParts, mem_variablesOf_iff typed.distinct]
  have extended (selector : Selector) :
      ofParts types (predicates ++ [selector]) =
        { ofParts types predicates with
          selectors := (ofParts types predicates).selectors ++ [selector] } := by
    simp only [ofParts, List.append_assoc]
  have isNew {selector : Selector} (fits : selector.Fits schema types) :
      selector ∉ (ofParts types predicates).selectors ↔ selector ∉ predicates := by
    refine not_congr ?_
    rw [ofParts, List.mem_append]
    constructor
    · intro given
      rcases given with inTypes | inPredicates
      · obtain ⟨entry, _, rfl⟩ := List.mem_map.mp inTypes
        exact absurd fits (Selector.not_fits_ofEntry entry)
      · exact inPredicates
    · exact Or.inr
  simp only [predicateExtensions, List.mem_flatMap, List.mem_map, List.mem_filter, arguments,
    typed.append_predicate_iff, extended, decide_eq_true_eq]
  constructor
  · intro given
    obtain ⟨predicate, declared, selector, ⟨⟨items, chosen, rfl⟩, fresh⟩, rfl⟩ := given
    have fits : (Selector.predicate predicate.name items).Fits schema types :=
      ⟨predicate, declared, items, chosen, rfl⟩
    exact ⟨_, ⟨fits, (isNew fits).mp fresh⟩, rfl⟩
  · intro given
    obtain ⟨selector, ⟨fits, fresh⟩, rfl⟩ := given
    have notYet := (isNew fits).mpr fresh
    obtain ⟨predicate, declared, items, chosen, rfl⟩ := fits
    exact ⟨predicate, declared, _, ⟨⟨items, chosen, rfl⟩, notYet⟩, rfl⟩

/-! ### All chains of a length -/

/-- All chains with a number of further selectors, the next of which is of a kind: for each
selector in turn the chains that go on from there, depth first. -/
def grow (schema : Schema) (pool : List String) :
    Nat → SelectorKind → TypedChain → List TypedChain
  | 0, _, chain => [chain]
  | further + 1, kind, chain =>
      let successors := if further = 0 then [.predicate] else kind.successors
      (chain.extensions schema pool kind).flatMap (fun longer =>
        successors.flatMap (fun next => grow schema pool further next longer))

def ofLength (schema : Schema) (length : Nat) : List TypedChain :=
  grow schema (variablePool length) length .signature empty

theorem mem_grow_predicate_succ {further : Nat} {chain : TypedChain} :
    longer ∈ grow schema pool (further + 1) .predicate chain ↔
      ∃ next ∈ chain.predicateExtensions schema, longer ∈ grow schema pool further .predicate next := by
  have successors : (if further = 0 then [SelectorKind.predicate] else
      SelectorKind.predicate.successors) = [.predicate] := ite_self _
  simp only [grow, successors, extensions, List.mem_flatMap, List.mem_singleton, exists_eq_left]

theorem mem_grow_signature_succ {further : Nat} {chain : TypedChain} :
    longer ∈ grow schema pool (further + 1) .signature chain ↔
      ∃ next ∈ chain.signatureExtensions schema pool,
        longer ∈ grow schema pool further .predicate next ∨
          longer ∈ grow schema pool further .signature next := by
  cases further with
  | zero =>
      simp only [grow, if_true, extensions, List.flatMap_singleton, List.mem_flatMap, or_self]
  | succ further =>
      simp only [grow, extensions, SelectorKind.successors, Nat.add_eq_zero_iff, Nat.one_ne_zero,
        and_false, if_false, List.mem_flatMap, List.mem_cons, List.not_mem_nil, or_false,
        exists_eq_or_imp, exists_eq_left]

/-- Once a chain goes on with predicate selectors, it gets nothing else. -/
theorem mem_grow_predicate_iff {further : Nat} (typed : IsTyped schema pool types predicates) :
    longer ∈ grow schema pool further .predicate (ofParts types predicates) ↔
      ∃ later, later.length = further ∧ IsTyped schema pool types (predicates ++ later) ∧
        longer = ofParts types (predicates ++ later) := by
  induction further generalizing predicates with
  | zero =>
      rw [grow, List.mem_singleton]
      constructor
      · intro same
        refine ⟨[], rfl, ?_⟩
        rw [List.append_nil]
        exact ⟨typed, same⟩
      · intro given
        obtain ⟨later, none, _, same⟩ := given
        rw [List.length_eq_zero_iff.mp none, List.append_nil] at same
        exact same
  | succ further ih =>
      simp only [mem_grow_predicate_succ, mem_predicateExtensions_iff typed]
      constructor
      · intro given
        obtain ⟨_, ⟨selector, extended, rfl⟩, grown⟩ := given
        obtain ⟨later, length, whole, same⟩ := (ih extended).mp grown
        rw [List.append_assoc] at whole same
        exact ⟨selector :: later, congrArg Nat.succ length, whole, same⟩
      · intro given
        obtain ⟨later, length, whole, same⟩ := given
        cases later with
        | nil => cases length
        | cons selector later =>
            rw [List.append_cons] at whole same
            have extended := whole.earlierPredicates
            refine ⟨_, ⟨selector, extended, rfl⟩, (ih extended).mpr ⟨later, ?_, whole, same⟩⟩
            exact Nat.succ.inj length

/-- A chain that may still get signature selectors ends in predicate selectors over all its
variables. -/
theorem mem_grow_signature_iff {further : Nat} (typed : IsTyped schema pool types []) :
    longer ∈ grow schema pool further .signature (ofParts types []) ↔
      ∃ more predicates, more.length + predicates.length = further ∧
        (further ≠ 0 → more ≠ []) ∧ IsTyped schema pool (types ++ more) predicates ∧
        longer = ofParts (types ++ more) predicates := by
  induction further generalizing types with
  | zero =>
      rw [grow, List.mem_singleton]
      constructor
      · intro same
        refine ⟨[], [], rfl, fun impossible => absurd rfl impossible, ?_⟩
        rw [List.append_nil]
        exact ⟨typed, same⟩
      · intro given
        obtain ⟨more, predicates, none, _, _, same⟩ := given
        obtain ⟨noTypes, noPredicates⟩ := Nat.add_eq_zero_iff.mp none
        rw [List.length_eq_zero_iff.mp noTypes, List.length_eq_zero_iff.mp noPredicates,
          List.append_nil] at same
        exact same
  | succ further ih =>
      simp only [mem_grow_signature_succ, mem_signatureExtensions_iff typed]
      constructor
      · intro given
        obtain ⟨_, ⟨entry, extended, rfl⟩, closed | grown⟩ := given
        · obtain ⟨later, length, whole, same⟩ := (mem_grow_predicate_iff extended).mp closed
          rw [List.nil_append] at whole same
          refine ⟨[entry], later, ?_, fun _ => List.cons_ne_nil _ _, whole, same⟩
          rw [List.length_singleton, length, Nat.add_comm]
        · obtain ⟨more, predicates, length, _, whole, same⟩ := (ih extended).mp grown
          rw [List.append_assoc] at whole same
          refine ⟨entry :: more, predicates, ?_, fun _ => List.cons_ne_nil _ _, whole, same⟩
          rw [List.length_cons, ← length]
          omega
      · intro given
        obtain ⟨more, predicates, length, some, whole, same⟩ := given
        cases more with
        | nil => exact absurd rfl (some (Nat.succ_ne_zero further))
        | cons entry more =>
            rw [List.length_cons] at length
            rw [List.append_cons] at whole same
            have extended := whole.earlierTypes
            refine ⟨_, ⟨entry, extended, rfl⟩, ?_⟩
            cases more with
            | nil =>
                rw [List.append_nil] at whole same
                refine Or.inl ((mem_grow_predicate_iff extended).mpr ⟨predicates, ?_, whole, same⟩)
                rw [List.length_nil] at length
                omega
            | cons next more =>
                refine Or.inr ((ih extended).mpr ⟨next :: more, predicates, ?_, ?_, whole, same⟩)
                · omega
                · exact fun _ => List.cons_ne_nil next more

/-- The chains of a length are those of that many selectors, at least one of which gives a
variable its signature. -/
theorem mem_ofLength_iff {length : Nat} (some : length ≠ 0) :
    longer ∈ ofLength schema length ↔
      ∃ types predicates, types ≠ [] ∧ types.length + predicates.length = length ∧
        IsTyped schema (variablePool length) types predicates ∧
        longer = ofParts types predicates := by
  have start : ofParts [] [] = empty := rfl
  rw [ofLength, ← start, mem_grow_signature_iff IsTyped.nil]
  simp only [List.nil_append, ne_eq, some, not_false_eq_true, true_implies]
  constructor
  · intro given
    obtain ⟨types, predicates, length, someTypes, typed, same⟩ := given
    exact ⟨types, predicates, someTypes, length, typed, same⟩
  · intro given
    obtain ⟨types, predicates, someTypes, length, typed, same⟩ := given
    exact ⟨types, predicates, length, someTypes, typed, same⟩

end TypedChain

end RelationalLayout
