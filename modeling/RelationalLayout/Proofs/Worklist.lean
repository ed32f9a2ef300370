/-
The order in which a search goes through chains.

A search keeps a stack of unfinished chains. Each round takes one off, and puts the chains
with one selector more in its place until they are long enough. However the stack is worked
off, no round takes from a chain that gets no more selectors, the rounds come to an end,
and the finished chains come up depth first, each of them once.
-/

import Mathlib.Data.List.Nodup
import Mathlib.Logic.Relation
import RelationalLayout.Proofs.Chain
import RelationalLayout.Proofs.Compilation

namespace RelationalLayout

def Selector.kind : Selector → SelectorKind
  | .signature _ _ => .signature
  | .predicate _ _ => .predicate

/-! ### One more selector -/

namespace TypedChain

variable {schema : Schema} {pool : List String} {kind : SelectorKind} {chain longer other : TypedChain}

theorem selectors_of_mem_extensions (member : longer ∈ chain.extensions schema pool kind) :
    ∃ selector, selector.kind = kind ∧ longer.selectors = chain.selectors ++ [selector] := by
  cases kind with
  | signature =>
      obtain ⟨signature, _, inChains⟩ := List.mem_flatMap.mp member
      obtain ⟨variableName, _, rfl⟩ := List.mem_map.mp inChains
      exact ⟨_, rfl, rfl⟩
  | predicate =>
      obtain ⟨predicate, _, inChains⟩ := List.mem_flatMap.mp member
      obtain ⟨selector, isNew, rfl⟩ := List.mem_map.mp inChains
      obtain ⟨arguments, _, rfl⟩ := List.mem_map.mp (List.mem_of_mem_filter isNew)
      exact ⟨_, rfl, rfl⟩

theorem nodup_variablePool (length : Nat) : (variablePool length).Nodup :=
  List.nodup_range.map (numbered_injective "v")

theorem nodup_choices {lists : List (List String)} (distinct : ∀ list ∈ lists, list.Nodup) :
    (choices lists).Nodup := by
  induction lists with
  | nil => exact List.nodup_singleton _
  | cons list lists ih =>
      obtain ⟨here, later⟩ := List.forall_mem_cons.mp distinct
      refine List.nodup_flatMap.mpr ⟨fun item _ => (ih later).map (List.cons_injective), here.imp ?_⟩
      intro item other different items ofItem ofOther
      obtain ⟨_, _, rfl⟩ := List.mem_map.mp ofItem
      obtain ⟨_, _, same⟩ := List.mem_map.mp ofOther
      exact different (List.cons.inj same).1.symm

theorem nodup_variablesOf (env : TypeEnv) (signature : String) :
    (variablesOf env signature).Nodup :=
  env.nodup_keys.sublist (List.filter_sublist.map Prod.fst)

theorem nodup_extensions (signatures : schema.signatures.Nodup)
    (predicates : (schema.predicates.map Predicate.name).Nodup) (distinctPool : pool.Nodup)
    (kind : SelectorKind) (chain : TypedChain) :
    ((chain.extensions schema pool kind).map TypedChain.selectors).Nodup := by
  have appended : Function.Injective (fun selector => chain.selectors ++ [selector]) :=
    fun selector other same => List.singleton_injective (List.append_cancel_left same)
  cases kind with
  | signature =>
      rw [extensions, signatureExtensions, List.map_flatMap]
      simp only [List.map_map]
      refine List.nodup_flatMap.mpr ⟨fun signature _ => ?_, signatures.imp ?_⟩
      · refine (distinctPool.filter _).map fun variableName other same => ?_
        exact (Selector.signature.inj (appended same)).1
      · intro signature other different selectors ofSignature ofOther
        obtain ⟨_, _, rfl⟩ := List.mem_map.mp ofSignature
        obtain ⟨_, _, same⟩ := List.mem_map.mp ofOther
        exact different (Selector.signature.inj (appended same)).2.symm
  | predicate =>
      rw [extensions, predicateExtensions, List.map_flatMap]
      simp only [List.map_map]
      refine List.nodup_flatMap.mpr ⟨fun predicate _ => ?_, (List.pairwise_map.mp predicates).imp ?_⟩
      · refine (List.Nodup.filter _ (List.Nodup.map ?_ (nodup_choices ?_))).map appended
        · exact fun arguments other same => (Selector.predicate.inj same).2
        · intro list member
          obtain ⟨signature, _, rfl⟩ := List.mem_map.mp member
          exact nodup_variablesOf chain.env signature
      · intro predicate other different selectors ofPredicate ofOther
        obtain ⟨_, isNew, rfl⟩ := List.mem_map.mp ofPredicate
        obtain ⟨_, _, rfl⟩ := List.mem_map.mp (List.mem_of_mem_filter isNew)
        obtain ⟨_, isNewToo, same⟩ := List.mem_map.mp ofOther
        obtain ⟨_, _, rfl⟩ := List.mem_map.mp (List.mem_of_mem_filter isNewToo)
        exact different (Selector.predicate.inj (appended same)).1.symm

/-! ### Many more selectors -/

theorem prefix_of_mem_grow {further : Nat} (member : longer ∈ grow schema pool further kind chain) :
    chain.selectors <+: longer.selectors := by
  induction further generalizing kind chain with
  | zero =>
      rw [grow, List.mem_singleton] at member
      exact member ▸ List.prefix_rfl
  | succ further ih =>
      obtain ⟨extended, isExtension, inGrown⟩ := List.mem_flatMap.mp member
      obtain ⟨next, _, grown⟩ := List.mem_flatMap.mp inGrown
      obtain ⟨selector, _, selectors⟩ := selectors_of_mem_extensions isExtension
      refine List.IsPrefix.trans ?_ (ih grown)
      rw [selectors]
      exact List.prefix_append _ _

theorem kind_of_mem_grow {further : Nat}
    (member : longer ∈ grow schema pool (further + 1) kind chain) :
    ∃ selector, selector.kind = kind ∧ chain.selectors ++ [selector] <+: longer.selectors := by
  obtain ⟨extended, isExtension, inGrown⟩ := List.mem_flatMap.mp member
  obtain ⟨next, _, grown⟩ := List.mem_flatMap.mp inGrown
  obtain ⟨selector, isKind, selectors⟩ := selectors_of_mem_extensions isExtension
  exact ⟨selector, isKind, selectors ▸ prefix_of_mem_grow grown⟩

theorem eq_of_prefixes {left right whole : List Selector} (begins : left <+: whole)
    (beginsToo : right <+: whole) (sameLength : left.length = right.length) : left = right :=
  (List.prefix_of_prefix_length_le begins beginsToo (Nat.le_of_eq sameLength)).eq_of_length
    sameLength

theorem disjoint_of_selectors_ne {further : Nat} {kinds : List SelectorKind}
    (isExtension : longer ∈ chain.extensions schema pool kind)
    (otherExtension : other ∈ chain.extensions schema pool kind)
    (different : longer.selectors ≠ other.selectors) :
    List.Disjoint
      ((kinds.flatMap (fun next => grow schema pool further next longer)).map TypedChain.selectors)
      ((kinds.flatMap (fun next => grow schema pool further next other)).map TypedChain.selectors) := by
  intro selectors ofLonger ofOther
  obtain ⟨grown, inGrown, rfl⟩ := List.mem_map.mp ofLonger
  obtain ⟨_, _, member⟩ := List.mem_flatMap.mp inGrown
  obtain ⟨grownToo, inGrownToo, same⟩ := List.mem_map.mp ofOther
  obtain ⟨_, _, memberToo⟩ := List.mem_flatMap.mp inGrownToo
  obtain ⟨_, _, last⟩ := selectors_of_mem_extensions isExtension
  obtain ⟨_, _, otherLast⟩ := selectors_of_mem_extensions otherExtension
  refine different (eq_of_prefixes (prefix_of_mem_grow member) (same ▸ prefix_of_mem_grow memberToo) ?_)
  rw [last, otherLast, List.length_append, List.length_append]
  rfl

theorem disjoint_of_kind_ne {further : Nat} {next otherNext : SelectorKind}
    (different : next ≠ otherNext) :
    List.Disjoint ((grow schema pool (further + 1) next chain).map TypedChain.selectors)
      ((grow schema pool (further + 1) otherNext chain).map TypedChain.selectors) := by
  intro selectors ofNext ofOther
  obtain ⟨grown, member, rfl⟩ := List.mem_map.mp ofNext
  obtain ⟨grownToo, memberToo, same⟩ := List.mem_map.mp ofOther
  obtain ⟨selector, isKind, begins⟩ := kind_of_mem_grow member
  obtain ⟨other, otherKind, beginsToo⟩ := kind_of_mem_grow memberToo
  rw [same] at beginsToo
  have whole := eq_of_prefixes begins beginsToo (by rw [List.length_append, List.length_append]; rfl)
  obtain rfl := List.singleton_injective (List.append_cancel_left whole)
  exact different (isKind.symm.trans otherKind)

/-- No chain is grown twice where a schema declares nothing twice. -/
theorem nodup_grow (signatures : schema.signatures.Nodup)
    (predicates : (schema.predicates.map Predicate.name).Nodup) (distinctPool : pool.Nodup)
    (further : Nat) (kind : SelectorKind) (chain : TypedChain) :
    ((grow schema pool further kind chain).map TypedChain.selectors).Nodup := by
  induction further generalizing kind chain with
  | zero => exact List.nodup_singleton _
  | succ further ih =>
      have extensions := nodup_extensions signatures predicates distinctPool kind chain
      rw [grow, List.map_flatMap]
      refine List.nodup_flatMap.mpr ⟨fun longer _ => ?_, ?_⟩
      · rw [List.map_flatMap]
        refine List.nodup_flatMap.mpr ⟨fun next _ => ih next longer, ?_⟩
        -- Behind the last selector one kind stands for all; before it the kinds lead to
        -- different selectors.
        cases further with
        | zero => exact List.pairwise_singleton _ _
        | succ further =>
            cases kind with
            | predicate => exact List.pairwise_singleton _ _
            | signature =>
                refine List.pairwise_pair.mpr (disjoint_of_kind_ne ?_)
                exact SelectorKind.noConfusion
      · exact (List.pairwise_map.mp extensions).imp_of_mem disjoint_of_selectors_ne

theorem find?_env_iff {types : List TypedVariable} {predicates : List Selector}
    (typed : IsTyped schema pool types predicates) (variableName signature : String) :
    (ofParts types predicates).env.find? variableName = some signature ↔
      .signature variableName signature ∈ (ofParts types predicates).selectors := by
  rw [ofParts, SortedMap.find?_ofList typed.distinct, List.mem_append, List.mem_map]
  constructor
  · exact fun member => Or.inl ⟨_, member, rfl⟩
  · rintro (⟨⟨name, given⟩, member, same⟩ | isPredicate)
    · cases same
      exact member
    · exact absurd (typed.fits _ isPredicate) (Selector.not_fits_ofEntry (variableName, signature))

end TypedChain

namespace SearchState

variable {schema : Schema} {pool : List String}

/-! ### Rounds -/

inductive Round (schema : Schema) (pool : List String) :
    List SearchState → List SearchState → Prop where
  | finished {state : SearchState} {stack : List SearchState} (finished : state.remaining = 0) :
      Round schema pool (state :: stack) stack
  | unfinished {state : SearchState} {stack : List SearchState}
      (unfinished : state.remaining ≠ 0) :
      Round schema pool (state :: stack) (push (state.children schema pool) stack)

def handedOver : List SearchState → List TypedChain
  | [] => []
  | state :: _ => if state.remaining = 0 then [state.chain] else []

theorem Round.explore_eq {stack next : List SearchState} (round : Round schema pool stack next)
    {σ ε : Type} (visit : σ → TypedChain → Except ε σ) (found : σ) :
    explore schema pool visit found stack =
      (handedOver stack).foldlM visit found >>= fun later => explore schema pool visit later next := by
  cases round with
  | finished finished =>
      rw [explore, if_pos finished, handedOver, if_pos finished, List.foldlM_cons]
      simp only [List.foldlM_nil, bind_pure]
  | unfinished unfinished =>
      rw [explore, if_neg unfinished, handedOver, if_neg unfinished]
      rfl

theorem Round.stackRounds_eq {stack next : List SearchState} (round : Round schema pool stack next) :
    stackRounds schema pool next + 1 = stackRounds schema pool stack := by
  cases round with
  | @finished state stack finished =>
      rw [stackRounds, finished, rounds, Nat.add_comm]
  | @unfinished state stack unfinished =>
      have children := stackRounds_children schema pool unfinished
      rw [push_eq, stackRounds_append, stackRounds]
      omega

theorem wellFounded_round (schema : Schema) (pool : List String) :
    WellFounded (fun next stack => Round schema pool stack next) :=
  Subrelation.wf (fun round => Nat.lt_of_succ_le (Nat.le_of_eq round.stackRounds_eq))
    (measure (stackRounds schema pool)).wf

/-! ### The budget -/

/-- The selectors that a state has and those that it gets are as many as asked for. -/
def Balanced (length : Nat) (state : SearchState) : Prop :=
  state.chain.selectors.length + state.remaining = length

theorem Balanced.children {length : Nat} {state child : SearchState}
    (balanced : state.Balanced length) (unfinished : state.remaining ≠ 0)
    (member : child ∈ state.children schema pool) : child.Balanced length := by
  have fewer := remaining_of_mem_children member
  obtain ⟨longer, extended, inChildren⟩ := List.mem_flatMap.mp member
  obtain ⟨next, _, rfl⟩ := List.mem_map.mp inChildren
  obtain ⟨selector, _, selectors⟩ := TypedChain.selectors_of_mem_extensions extended
  have more : (state.extend longer next).chain.selectors.length =
      state.chain.selectors.length + 1 := by
    rw [extend, selectors, List.length_append, List.length_singleton]
  unfold Balanced at balanced ⊢
  omega

theorem balanced_of_round {length : Nat} {stack next : List SearchState}
    (round : Round schema pool stack next) (balanced : ∀ state ∈ stack, state.Balanced length) :
    ∀ state ∈ next, state.Balanced length := by
  cases round with
  | finished _ => exact (List.forall_mem_cons.mp balanced).2
  | unfinished unfinished =>
      obtain ⟨here, later⟩ := List.forall_mem_cons.mp balanced
      rw [push_eq]
      exact List.forall_mem_append.mpr ⟨fun child => here.children unfinished, later⟩

/-- No round of a search takes from an empty budget. -/
theorem balanced_of_rounds {length : Nat} {stack : List SearchState}
    (rounds : Relation.ReflTransGen (Round schema pool) [root length] stack) :
    ∀ state ∈ stack, state.Balanced length := by
  induction rounds with
  | refl => exact List.forall_mem_singleton.mpr (Nat.zero_add length)
  | tail _ round ih => exact balanced_of_round round ih

/-! ### Depth first -/

def chains (schema : Schema) (pool : List String) (state : SearchState) : List TypedChain :=
  TypedChain.grow schema pool state.remaining state.next state.chain

theorem chains_of_finished {state : SearchState} (finished : state.remaining = 0) :
    state.chains schema pool = [state.chain] := by
  rw [chains, finished, TypedChain.grow]

theorem chains_of_unfinished {state : SearchState} (unfinished : state.remaining ≠ 0) :
    state.chains schema pool = (state.children schema pool).flatMap (chains schema pool) := by
  obtain ⟨further, more⟩ := Nat.exists_eq_succ_of_ne_zero unfinished
  have successors : state.successors =
      if further = 0 then [SelectorKind.predicate] else state.next.successors := by
    rw [SearchState.successors, more]
    simp only [Nat.succ_eq_add_one, Nat.add_eq_right]
  have child (longer : TypedChain) (next : SelectorKind) :
      chains schema pool (state.extend longer next) =
        TypedChain.grow schema pool further next longer := by
    rw [chains, extend, more, Nat.succ_sub_one]
  rw [chains, more, TypedChain.grow, children, List.flatMap_assoc, ← successors]
  simp only [List.flatMap_map, child]

/-- Working a stack off visits the finished chains of its states from the top, depth first. -/
theorem explore_eq {σ ε : Type} (visit : σ → TypedChain → Except ε σ) (found : σ)
    (stack : List SearchState) :
    explore schema pool visit found stack =
      (stack.flatMap (chains schema pool)).foldlM visit found := by
  induction stack using (wellFounded_round schema pool).induction generalizing found with
  | h stack ih =>
      cases stack with
      | nil =>
          rw [explore]
          rfl
      | cons state stack =>
          by_cases finished : state.remaining = 0
          · have round : Round schema pool (state :: stack) stack := .finished finished
            rw [round.explore_eq, handedOver, if_pos finished, List.flatMap_cons,
              chains_of_finished finished, List.foldlM_append]
            exact bind_congr (ih stack round)
          · have round : Round schema pool (state :: stack)
                (push (state.children schema pool) stack) := .unfinished finished
            rw [round.explore_eq, handedOver, if_neg finished, List.foldlM_nil, pure_bind,
              ih _ round, push_eq, List.flatMap_append, ← chains_of_unfinished finished,
              List.flatMap_cons]

theorem explore_root {σ ε : Type} (visit : σ → TypedChain → Except ε σ) (found : σ)
    (length : Nat) :
    explore schema (TypedChain.variablePool length) visit found [root length] =
      (TypedChain.ofLength schema length).foldlM visit found := by
  rw [explore_eq, List.flatMap_singleton]
  rfl

/-- A search for the chains of a length comes to an end, and no round of it takes from a chain that
gets no more selectors. It visits all chains of that length depth first, each of them once, and
each with the signatures of just those variables that are given one in it. -/
theorem explore_exact {length : Nat} (positive : 1 ≤ length) (signatures : schema.signatures.Nodup)
    (predicates : (schema.predicates.map Predicate.name).Nodup) :
    (∀ (σ ε : Type) (visit : σ → TypedChain → Except ε σ) (found : σ) (stack next : List SearchState),
        Round schema (TypedChain.variablePool length) stack next →
          explore schema (TypedChain.variablePool length) visit found stack =
            (handedOver stack).foldlM visit found >>= fun later =>
              explore schema (TypedChain.variablePool length) visit later next) ∧
      WellFounded (fun next stack => Round schema (TypedChain.variablePool length) stack next) ∧
      (∀ stack, Relation.ReflTransGen (Round schema (TypedChain.variablePool length))
          [root length] stack →
        ∀ state ∈ stack, state.chain.selectors.length + state.remaining = length) ∧
      (∀ (σ ε : Type) (visit : σ → TypedChain → Except ε σ) (found : σ),
        explore schema (TypedChain.variablePool length) visit found [root length] =
          (TypedChain.ofLength schema length).foldlM visit found) ∧
      ((TypedChain.ofLength schema length).map TypedChain.selectors).Nodup ∧
      (∀ selectors, selectors ∈ (TypedChain.ofLength schema length).map TypedChain.selectors ↔
        ∃ types predicates, types ≠ [] ∧ types.length + predicates.length = length ∧
          IsTyped schema (TypedChain.variablePool length) types predicates ∧
          selectors = types.map Selector.ofEntry ++ predicates) ∧
      ∀ chain ∈ TypedChain.ofLength schema length, ∀ variableName signature,
        chain.env.find? variableName = some signature ↔
          .signature variableName signature ∈ chain.selectors := by
  have nonzero := Nat.ne_of_gt positive
  refine ⟨fun σ ε visit found stack next round => ?_, wellFounded_round _ _,
    fun stack => balanced_of_rounds, fun σ ε visit found => ?_, ?_, fun selectors => ?_,
    fun chain member => ?_⟩
  · exact round.explore_eq visit found
  · exact explore_root visit found length
  · exact TypedChain.nodup_grow signatures predicates (TypedChain.nodup_variablePool length) _ _ _
  · rw [List.mem_map]
    constructor
    · rintro ⟨chain, member, rfl⟩
      obtain ⟨types, predicates, someTypes, same, typed, rfl⟩ :=
        (TypedChain.mem_ofLength_iff nonzero).mp member
      exact ⟨types, predicates, someTypes, same, typed, rfl⟩
    · rintro ⟨types, predicates, someTypes, same, typed, rfl⟩
      exact ⟨_, (TypedChain.mem_ofLength_iff nonzero).mpr
        ⟨types, predicates, someTypes, same, typed, rfl⟩, rfl⟩
  · obtain ⟨types, predicates, _, _, typed, rfl⟩ := (TypedChain.mem_ofLength_iff nonzero).mp member
    exact TypedChain.find?_env_iff typed

def ripeApples : Schema :=
  { signatures := ["Apple"], predicates := [{ name := "ripe", signatures := ["Apple"] }], hierarchy := [] }

def collect (found : List (List Selector)) (chain : TypedChain) :
    Except CompileError (List (List Selector)) :=
  .ok (found ++ [chain.selectors])

/-- The chains of two selectors in the order in which they are visited. -/
theorem explore_exact_ripe_apples :
    1 ≤ 2 ∧ ripeApples.signatures.Nodup ∧ (ripeApples.predicates.map Predicate.name).Nodup ∧
      explore ripeApples (TypedChain.variablePool 2) collect [] [root 2] =
        .ok [[.signature "v0" "Apple", .predicate "ripe" ["v0"]],
          [.signature "v0" "Apple", .signature "v1" "Apple"],
          [.signature "v1" "Apple", .predicate "ripe" ["v1"]],
          [.signature "v1" "Apple", .signature "v0" "Apple"]] := by
  have positive : 1 ≤ 2 := by decide
  have signatures : ripeApples.signatures.Nodup := by decide
  have predicates : (ripeApples.predicates.map Predicate.name).Nodup := by decide
  obtain ⟨_, _, _, visits, _⟩ := explore_exact positive signatures predicates
  refine ⟨positive, signatures, predicates, ?_⟩
  rw [visits]
  decide +kernel

end SearchState

end RelationalLayout
