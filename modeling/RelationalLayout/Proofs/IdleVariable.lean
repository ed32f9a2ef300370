/-
Variables that nothing mentions.

A selector for a variable that nothing else in a rule mentions only repeats the
layouts of the rule, once for each atom of its signature. The rule without that
selector has the same footprints and the same mean score, and a search has tried it
under names from a smaller pool. So no rule found has such a variable.
-/

import Mathlib.Data.List.ProdSigma
import RelationalLayout.Proofs.Candidate
import RelationalLayout.Proofs.Renaming

namespace RelationalLayout

theorem map_snd_product {α β γ : Type} (firsts : List α) (seconds : List β) (value : β → γ) :
    (firsts ×ˢ seconds).map (fun pair => value pair.2) =
      (List.replicate firsts.length (seconds.map value)).flatten := by
  induction firsts with
  | nil => rfl
  | cons first firsts ih =>
      rw [List.product_cons, List.map_append, List.map_map, ih, List.length_cons,
        List.replicate_succ, List.flatten_cons]
      rfl

variable {naming : String → String} {name signature : String} {rest selectors : List Selector}

/-! ### Chains -/

/-- A chain is the rest of it with a selector for a variable that the rest does not mention. The
variables of the rest stay apart under other names. -/
structure HasIdle (naming : String → String) (name signature : String)
    (rest selectors : List Selector) : Prop where
  whole : selectors.Perm (.signature name signature :: rest)
  unmentioned : name ∉ variablesIn rest
  apart : Set.InjOn naming {other | other ∈ variablesIn rest}

namespace HasIdle

def widen (naming : String → String) (name : String) (selectors : List Selector)
    (choice : String × Substitution) : Substitution :=
  .cutTo (variablesIn selectors)
    (Function.update (fun other => choice.2.atomOf (naming other)) name choice.1)

variable {schema : Schema} {world : Instance} {substitutions shorter : List Substitution}

theorem mem_variablesIn_iff (idle : HasIdle naming name signature rest selectors) {other : String} :
    other ∈ variablesIn selectors ↔ other = name ∨ other ∈ variablesIn rest := by
  have whole : other ∈ variablesIn selectors ↔
      other ∈ [name] ++ variablesIn rest := (idle.whole.flatMap_right Selector.variableNames).mem_iff
  rw [whole, List.mem_append, List.mem_singleton]

theorem ne_of_mem (idle : HasIdle naming name signature rest selectors) {other : String}
    (member : other ∈ variablesIn rest) : other ≠ name := by
  intro same
  exact idle.unmentioned (same ▸ member)

theorem holdUnder_iff (idle : HasIdle naming name signature rest selectors)
    {atomOf : String → String} :
    HoldUnder world selectors atomOf ↔
      atomOf name ∈ world.atomsOf signature ∧ HoldUnder world rest atomOf := by
  have here : (Selector.signature name signature).Holds world (fun other => some (atomOf other)) ↔
      atomOf name ∈ world.atomsOf signature := by
    simp only [Selector.Holds, Instance.mem_atomsOf_iff, Option.some.injEq, eq_comm, and_comm]
  simp only [HoldUnder, idle.whole.mem_iff, List.forall_mem_cons, here]

theorem exists_back (idle : HasIdle naming name signature rest selectors) :
    ∃ back : String → String, ∀ other ∈ variablesIn rest, back (naming other) = other :=
  ⟨Function.invFunOn naming _, fun _ member => idle.apart.leftInvOn_invFunOn member⟩

theorem atomOf_widen (idle : HasIdle naming name signature rest selectors) {other : String}
    (member : other ∈ variablesIn rest) (choice : String × Substitution) :
    (widen naming name selectors choice).atomOf other = choice.2.atomOf (naming other) := by
  rw [widen, Substitution.atomOf_cutTo (idle.mem_variablesIn_iff.mpr (Or.inr member)),
    Function.update_of_ne (idle.ne_of_mem member)]

theorem atomOf_widen_self (idle : HasIdle naming name signature rest selectors)
    (choice : String × Substitution) :
    (widen naming name selectors choice).atomOf name = choice.1 := by
  rw [widen, Substitution.atomOf_cutTo (idle.mem_variablesIn_iff.mpr (Or.inl rfl)),
    Function.update_self]

theorem holdUnder_widen_iff (idle : HasIdle naming name signature rest selectors) (atom : String)
    (atomOf : String → String) :
    HoldUnder world selectors (Function.update (fun other => atomOf (naming other)) name atom) ↔
      atom ∈ world.atomsOf signature ∧
        HoldUnder world (rest.map (Selector.rename naming)) atomOf := by
  have elsewhere : ∀ other ∈ variablesIn rest,
      Function.update (fun other => atomOf (naming other)) name atom other =
        atomOf (naming other) :=
    fun other member => Function.update_of_ne (idle.ne_of_mem member) _ _
  rw [idle.holdUnder_iff, Function.update_self, holdUnder_map_rename_iff]
  refine and_congr_right fun _ => ⟨HoldUnder.congr elsewhere, HoldUnder.congr ?_⟩
  exact fun other member => (elsewhere other member).symm

theorem mem_substitutions_iff (idle : HasIdle naming name signature rest selectors)
    (found : substitutionsOf schema world selectors = .ok substitutions)
    (foundShorter : substitutionsOf schema world (rest.map (Selector.rename naming)) = .ok shorter)
    {substitution : Substitution} :
    substitution ∈ substitutions ↔ ∃ choice ∈ (world.atomsOf signature).eraseDups ×ˢ shorter,
      widen naming name selectors choice = substitution := by
  rw [mem_substitutionsOf_iff_cutTo found]
  constructor
  · intro given
    obtain ⟨atomOf, hold, rfl⟩ := given
    obtain ⟨back, returns⟩ := idle.exists_back
    have holdBack : HoldUnder world (rest.map (Selector.rename naming))
        (fun other => atomOf (back other)) := by
      rw [holdUnder_map_rename_iff]
      apply (idle.holdUnder_iff.mp hold).2.congr
      intro other member
      rw [returns other member]
    refine ⟨(atomOf name, .cutTo (variablesIn (rest.map (Selector.rename naming)))
      (fun other => atomOf (back other))), ?_, ?_⟩
    · apply List.mem_product.mpr
      constructor
      · exact List.mem_eraseDups.mpr (idle.holdUnder_iff.mp hold).1
      · exact (mem_substitutionsOf_iff_cutTo foundShorter).mpr ⟨_, holdBack, rfl⟩
    · apply Substitution.cutTo_eq_cutTo_iff.mpr
      intro other occurs
      rcases idle.mem_variablesIn_iff.mp occurs with rfl | member
      · rw [Function.update_self]
      · have renamed : naming other ∈ variablesIn (rest.map (Selector.rename naming)) := by
          rw [variablesIn_map_rename]
          exact List.mem_map_of_mem member
        rw [Function.update_of_ne (idle.ne_of_mem member), Substitution.atomOf_cutTo renamed,
          returns other member]
  · intro given
    obtain ⟨⟨atom, chosen⟩, member, rfl⟩ := given
    obtain ⟨isAtom, isChosen⟩ := List.mem_product.mp member
    refine ⟨_, ?_, rfl⟩
    rw [idle.holdUnder_widen_iff]
    refine ⟨List.mem_eraseDups.mp isAtom, ?_⟩
    obtain ⟨atomOf, hold, rfl⟩ := (mem_substitutionsOf_iff_cutTo foundShorter).mp isChosen
    apply hold.congr
    intro other occurs
    rw [Substitution.atomOf_cutTo occurs]

theorem widen_injective (idle : HasIdle naming name signature rest selectors)
    (foundShorter : substitutionsOf schema world (rest.map (Selector.rename naming)) = .ok shorter)
    {first second : String × Substitution} (isFirst : first.2 ∈ shorter)
    (isSecond : second.2 ∈ shorter)
    (same : widen naming name selectors first = widen naming name selectors second) :
    first = second := by
  obtain ⟨firstOf, _, firstCut⟩ := (mem_substitutionsOf_iff_cutTo foundShorter).mp isFirst
  obtain ⟨secondOf, _, secondCut⟩ := (mem_substitutionsOf_iff_cutTo foundShorter).mp isSecond
  apply Prod.ext
  · rw [← idle.atomOf_widen_self first, same, idle.atomOf_widen_self]
  · rw [firstCut, secondCut]
    apply Substitution.cutTo_eq_cutTo_iff.mpr
    intro renamed occurs
    have firstAtom : first.2.atomOf renamed = firstOf renamed := by
      rw [firstCut, Substitution.atomOf_cutTo occurs]
    have secondAtom : second.2.atomOf renamed = secondOf renamed := by
      rw [secondCut, Substitution.atomOf_cutTo occurs]
    rw [← firstAtom, ← secondAtom]
    rw [variablesIn_map_rename] at occurs
    obtain ⟨other, member, rfl⟩ := List.mem_map.mp occurs
    rw [← idle.atomOf_widen member first, same, idle.atomOf_widen member]

theorem perm_substitutions (idle : HasIdle naming name signature rest selectors)
    (found : substitutionsOf schema world selectors = .ok substitutions)
    (foundShorter : substitutionsOf schema world (rest.map (Selector.rename naming)) = .ok shorter) :
    substitutions.Perm (((world.atomsOf signature).eraseDups ×ˢ shorter).map
      (widen naming name selectors)) := by
  have choices : ((world.atomsOf signature).eraseDups ×ˢ shorter).Nodup :=
    (nodup_eraseDups _).product (nodup_substitutionsOf foundShorter)
  have distinct : (((world.atomsOf signature).eraseDups ×ˢ shorter).map
      (widen naming name selectors)).Nodup := by
    apply choices.map_on
    intro first isFirst second isSecond same
    exact idle.widen_injective foundShorter (List.mem_product.mp isFirst).2
      (List.mem_product.mp isSecond).2 same
  rw [List.perm_ext_iff_of_nodup (nodup_substitutionsOf found) distinct]
  intro substitution
  rw [idle.mem_substitutions_iff found foundShorter, List.mem_map]

theorem perm_ground (idle : HasIdle naming name signature rest selectors)
    (found : substitutionsOf schema world selectors = .ok substitutions)
    (foundShorter : substitutionsOf schema world (rest.map (Selector.rename naming)) = .ok shorter)
    {terminal : Template} (known : ∀ operand ∈ terminal.operands, operand ∈ variablesIn rest)
    (id : String) :
    (substitutions.map fun substitution => terminal.ground id substitution.atomOf).Perm
      (List.replicate (world.atomsOf signature).eraseDups.length
        (shorter.map fun substitution =>
          (terminal.rename naming).ground id substitution.atomOf)).flatten := by
  have said (choice : String × Substitution) :
      terminal.ground id (widen naming name selectors choice).atomOf =
        (terminal.rename naming).ground id choice.2.atomOf := by
    rw [Template.ground_rename]
    apply Template.ground_congr
    intro operand occurs
    exact idle.atomOf_widen (known operand occurs) choice
  have repeated : (((world.atomsOf signature).eraseDups ×ˢ shorter).map
      (widen naming name selectors)).map (fun substitution => terminal.ground id substitution.atomOf) =
        (List.replicate (world.atomsOf signature).eraseDups.length
          (shorter.map fun substitution =>
            (terminal.rename naming).ground id substitution.atomOf)).flatten := by
    rw [← map_snd_product, List.map_map]
    exact List.map_congr_left fun choice _ => said choice
  rw [← repeated]
  exact (idle.perm_substitutions found foundShorter).map _

end HasIdle

/-! ### Rules -/

/-- A rule is another one without the selector of an idle variable, and with other names. -/
structure Rule.Shortens (naming : String → String) (name signature : String) (rest : List Selector)
    (shorter rule : Rule) : Prop extends HasIdle naming name signature rest rule.selectors where
  selectors : shorter.selectors = rest.map (Selector.rename naming)
  terminal : shorter.terminal = rule.terminal.rename naming
  operands : ∀ operand ∈ rule.terminal.operands, operand ∈ variablesIn rest

namespace Rule.Shortens

variable {shorter rule : Rule}

theorem complexity_lt (shortens : Rule.Shortens naming name signature rest shorter rule) :
    shorter.complexity < rule.complexity := by
  have length : rule.complexity = rest.length + 1 := shortens.whole.length_eq
  have shorterLength : shorter.complexity = rest.length :=
    (congrArg List.length shortens.selectors).trans (List.length_map _)
  omega

theorem exists_layouts (shortens : Rule.Shortens naming name signature rest shorter rule)
    {schema : Schema} {world : Instance} {number : Nat} {layouts : List GroundLayout}
    (compiled : rule.compile schema world number = .ok layouts) {substitutions : List Substitution}
    (foundShorter : substitutionsOf schema world shorter.selectors = .ok substitutions) :
    ∃ once, shorter.compile schema world number = .ok once ∧
      layouts.Perm (List.replicate (world.atomsOf signature).eraseDups.length once).flatten := by
  obtain ⟨longer, found, instantiated⟩ := Rule.compile_eq_ok_iff.mp compiled
  have known : ∀ operand ∈ rule.terminal.operands, operand ∈ variablesIn rule.selectors :=
    fun operand occurs => shortens.mem_variablesIn_iff.mpr (Or.inr (shortens.operands operand occurs))
  have knownShorter : ∀ operand ∈ shorter.terminal.operands,
      operand ∈ variablesIn shorter.selectors := by
    rw [shortens.terminal, shortens.selectors, Template.operands_rename, variablesIn_map_rename]
    intro renamed occurs
    obtain ⟨operand, isOperand, rfl⟩ := List.mem_map.mp occurs
    exact List.mem_map_of_mem (shortens.operands operand isOperand)
  rw [Template.instantiateAll_eq_map found known] at instantiated
  cases instantiated
  refine ⟨_, Rule.compile_eq_ok_iff.mpr
    ⟨substitutions, foundShorter, Template.instantiateAll_eq_map foundShorter knownShorter⟩, ?_⟩
  rw [shortens.selectors] at foundShorter
  rw [shortens.terminal]
  exact shortens.perm_ground found foundShorter shortens.operands _

end Rule.Shortens

/-! ### Shorter rules in the search space -/

def numberedBy (names : List String) (name : String) : String :=
  "v" ++ Nat.repr (names.idxOf name)

theorem injOn_numberedBy (names : List String) :
    Set.InjOn (numberedBy names) {name | name ∈ names} := by
  intro first isFirst second isSecond same
  exact (List.idxOf_inj isFirst).mp (numbered_injective "v" same)

theorem numberedBy_mem_variablePool {names : List String} (member : name ∈ names) {length : Nat}
    (below : names.length ≤ length) : numberedBy names name ∈ TypedChain.variablePool length := by
  apply List.mem_map_of_mem
  rw [List.mem_range]
  exact Nat.lt_of_lt_of_le (List.idxOf_lt_length_of_mem member) below

theorem variablesIn_ofParts (types : List TypedVariable) (predicates : List Selector) :
    variablesIn (types.map Selector.ofEntry ++ predicates) =
      types.map Prod.fst ++ variablesIn predicates := by
  induction types with
  | nil => rfl
  | cons entry types ih => exact congrArg (List.cons entry.1) ih

theorem Selector.Fits.rename {schema : Schema} {types others : List TypedVariable}
    {selector : Selector} (fits : selector.Fits schema types)
    (kept : ∀ argument ∈ selector.variableNames, ∀ signature, (argument, signature) ∈ types →
      (naming argument, signature) ∈ others) : (selector.rename naming).Fits schema others := by
  obtain ⟨predicate, declared, arguments, typed, rfl⟩ := fits
  refine ⟨predicate, declared, arguments.map naming, ?_, rfl⟩
  rw [List.forall₂_map_left_iff, List.forall₂_iff_get]
  refine ⟨typed.length_eq, fun index inArguments inSignatures => ?_⟩
  exact kept _ (List.get_mem _ _) _ (typed.get inArguments inSignatures)

theorem map_fst_renamed (types : List TypedVariable) :
    (types.map (Prod.map naming id)).map Prod.fst = (types.map Prod.fst).map naming := by
  rw [List.map_map, List.map_map]
  rfl

section Drop

variable {schema : Schema} {pool others : List String} {earlier later : List TypedVariable}
  {entry : TypedVariable} {predicates : List Selector}

theorem mem_of_mem_middle {item : TypedVariable} (member : item ∈ earlier ++ entry :: later)
    (different : item.1 ≠ entry.1) : item ∈ earlier ++ later := by
  rw [List.perm_middle.mem_iff, List.mem_cons] at member
  exact member.resolve_left fun same => different (congrArg Prod.fst same)

theorem IsTyped.mem_names_of_unmentioned
    (typed : IsTyped schema pool (earlier ++ entry :: later) predicates)
    (unmentioned : entry.1 ∉ variablesIn predicates) {name : String}
    (member : name ∈ variablesIn predicates) : name ∈ (earlier ++ later).map Prod.fst := by
  obtain ⟨selector, inPredicates, occurs⟩ := mem_variablesIn.mp member
  obtain ⟨item, inTypes, rfl⟩ :=
    List.mem_map.mp (Selector.mem_names_of_fits (typed.fits selector inPredicates) occurs)
  have different : item.1 ≠ entry.1 := fun same => unmentioned (same ▸ member)
  exact List.mem_map_of_mem (mem_of_mem_middle inTypes different)

theorem IsTyped.not_mem_names (typed : IsTyped schema pool (earlier ++ entry :: later) predicates) :
    entry.1 ∉ (earlier ++ later).map Prod.fst := by
  have distinct := (List.perm_middle.map Prod.fst).nodup_iff.mp typed.distinct
  exact (List.nodup_cons.mp distinct).1

theorem IsTyped.mem_variablesIn_iff
    (typed : IsTyped schema pool (earlier ++ entry :: later) predicates)
    (unmentioned : entry.1 ∉ variablesIn predicates) {name : String} :
    name ∈ variablesIn ((earlier ++ later).map Selector.ofEntry ++ predicates) ↔
      name ∈ (earlier ++ later).map Prod.fst := by
  rw [variablesIn_ofParts, List.mem_append, or_iff_left_iff_imp]
  exact typed.mem_names_of_unmentioned unmentioned

/-- A chain stays typed without an entry that its predicate selectors do not mention, under other
names. -/
theorem IsTyped.drop (typed : IsTyped schema pool (earlier ++ entry :: later) predicates)
    (unmentioned : entry.1 ∉ variablesIn predicates)
    (apart : Set.InjOn naming {name | name ∈ (earlier ++ later).map Prod.fst})
    (named : ∀ name ∈ (earlier ++ later).map Prod.fst, naming name ∈ others) :
    IsTyped schema others ((earlier ++ later).map (Prod.map naming id))
      (predicates.map (Selector.rename naming)) := by
  have fewer : (earlier ++ later).Sublist (earlier ++ entry :: later) :=
    (List.Sublist.refl earlier).append (List.sublist_cons_self entry later)
  constructor
  · rw [map_fst_renamed]
    have distinct := typed.distinct.sublist (fewer.map Prod.fst)
    exact distinct.map_on fun first isFirst second isSecond => apart isFirst isSecond
  · intro renamed member
    obtain ⟨original, inTypes, rfl⟩ := List.mem_map.mp member
    exact ⟨named _ (List.mem_map_of_mem inTypes), (typed.declared _ (fewer.subset inTypes)).2⟩
  · have known {selector : Selector} (member : selector ∈ predicates) :
        ∀ name ∈ selector.variableNames, name ∈ (earlier ++ later).map Prod.fst :=
      fun name occurs => typed.mem_names_of_unmentioned unmentioned
        (mem_variablesIn.mpr ⟨selector, member, occurs⟩)
    apply typed.predicatesDistinct.map_on
    intro first isFirst second isSecond
    exact Selector.eq_of_rename_eq apart (known isFirst) (known isSecond)
  · intro renamed member
    obtain ⟨selector, inPredicates, rfl⟩ := List.mem_map.mp member
    apply (typed.fits selector inPredicates).rename
    intro name occurs signature inTypes
    have different : name ≠ entry.1 := by
      intro same
      exact unmentioned (mem_variablesIn.mpr ⟨selector, inPredicates, same ▸ occurs⟩)
    exact List.mem_map_of_mem (mem_of_mem_middle inTypes different)

end Drop

theorem Template.operands_ne_nil (terminal : Template) : terminal.operands ≠ [] := by
  cases terminal <;> exact List.cons_ne_nil _ _

theorem Template.Over.of_operands {names others : List String} {terminal : Template}
    (inScope : Template.Over names terminal)
    (known : ∀ operand ∈ terminal.operands, operand ∈ others) : Template.Over others terminal := by
  cases inScope with
  | unary option _ => exact .unary option (known _ List.mem_cons_self)
  | binary option _ _ different =>
      exact .binary option (known _ List.mem_cons_self)
        (known _ (List.mem_cons_of_mem _ List.mem_cons_self)) different

theorem Template.Over.rename {names : List String} {terminal : Template}
    (inScope : Template.Over names terminal) (apart : Set.InjOn naming {name | name ∈ names}) :
    Template.Over (names.map naming) (terminal.rename naming) := by
  cases inScope with
  | unary option known => exact .unary option (List.mem_map_of_mem known)
  | binary option knownFirst knownSecond different =>
      apply Template.Over.binary option (List.mem_map_of_mem knownFirst)
        (List.mem_map_of_mem knownSecond)
      exact fun same => different (apart knownFirst knownSecond same)

theorem Rule.exists_of_selectors {selectors : List Selector} (some : selectors ≠ [])
    (terminal : Template) : ∃ rule : Rule, rule.selectors = selectors ∧ rule.terminal = terminal := by
  obtain ⟨first, rest, rfl⟩ := List.exists_cons_of_ne_nil some
  exact ⟨{ chain := { first := first, rest := rest }, terminal := terminal }, rfl, rfl⟩

theorem Rule.InSearchSpace.exists_unmentioned {schema : Schema} {bound : Nat} {rule : Rule}
    (inSpace : rule.InSearchSpace schema bound)
    (introduced : .signature name signature ∈ rule.selectors)
    (notOperand : name ∉ rule.terminal.operands)
    (notArgument : ∀ predicate arguments, .predicate predicate arguments ∈ rule.selectors →
      name ∉ arguments) :
    ∃ earlier later predicates,
      rule.selectors =
        (earlier ++ (name, signature) :: later).map Selector.ofEntry ++ predicates ∧
      rule.selectors.length ≤ bound ∧
      IsTyped schema (TypedChain.variablePool rule.selectors.length)
        (earlier ++ (name, signature) :: later) predicates ∧
      name ∉ variablesIn predicates ∧
      Template.Over ((earlier ++ later).map Prod.fst) rule.terminal := by
  obtain ⟨types, predicates, _, selectors, below, typed, inScope⟩ := inSpace
  have inTypes : (name, signature) ∈ types := by
    rw [selectors] at introduced
    rcases List.mem_append.mp introduced with isType | isPredicate
    · obtain ⟨entry, member, same⟩ := List.mem_map.mp isType
      cases same
      exact member
    · exact absurd (typed.fits _ isPredicate) (Selector.not_fits_ofEntry (name, signature))
  obtain ⟨earlier, later, rfl⟩ := List.append_of_mem inTypes
  refine ⟨earlier, later, predicates, selectors, below, typed, ?_, ?_⟩
  · intro member
    obtain ⟨selector, inPredicates, occurs⟩ := mem_variablesIn.mp member
    obtain ⟨predicate, _, arguments, _, rfl⟩ := typed.fits selector inPredicates
    apply notArgument predicate.name arguments _ occurs
    rw [selectors]
    exact List.mem_append_right _ inPredicates
  · apply inScope.of_operands
    intro operand occurs
    obtain ⟨item, member, rfl⟩ := List.mem_map.mp (inScope.operands_subset operand occurs)
    have different : item.1 ≠ name := fun same => notOperand (same ▸ occurs)
    exact List.mem_map_of_mem (mem_of_mem_middle member different)

/-- A rule of the search space with an idle variable has a shorter one there. -/
theorem Rule.InSearchSpace.exists_shortens {schema : Schema} {bound : Nat} {rule : Rule}
    (inSpace : rule.InSearchSpace schema bound)
    (introduced : .signature name signature ∈ rule.selectors)
    (notOperand : name ∉ rule.terminal.operands)
    (notArgument : ∀ predicate arguments, .predicate predicate arguments ∈ rule.selectors →
      name ∉ arguments) :
    ∃ naming rest shorter, Rule.Shortens naming name signature rest shorter rule ∧
      shorter.InSearchSpace schema bound := by
  obtain ⟨earlier, later, predicates, selectors, below, typed, unmentioned, inScope⟩ :=
    inSpace.exists_unmentioned introduced notOperand notArgument
  let naming := numberedBy ((earlier ++ later).map Prod.fst)
  have apart := injOn_numberedBy ((earlier ++ later).map Prod.fst)
  have someEntry : (earlier ++ later).map (Prod.map naming id) ≠ [] := by
    intro none
    obtain ⟨operand, occurs⟩ := List.exists_mem_of_ne_nil _ rule.terminal.operands_ne_nil
    have member := inScope.operands_subset operand occurs
    rw [List.map_eq_nil_iff.mp none] at member
    exact List.not_mem_nil member
  have renamed : ((earlier ++ later).map Selector.ofEntry ++ predicates).map
      (Selector.rename naming) = ((earlier ++ later).map (Prod.map naming id)).map Selector.ofEntry ++
        predicates.map (Selector.rename naming) := by
    rw [List.map_append, List.map_map, List.map_map]
    rfl
  have someSelector : ((earlier ++ later).map (Prod.map naming id)).map Selector.ofEntry ++
      predicates.map (Selector.rename naming) ≠ [] :=
    List.append_ne_nil_of_left_ne_nil (mt List.map_eq_nil_iff.mp someEntry) _
  obtain ⟨shorter, shorterSelectors, terminal⟩ :=
    Rule.exists_of_selectors someSelector (rule.terminal.rename naming)
  have whole : rule.selectors.Perm (.signature name signature ::
      ((earlier ++ later).map Selector.ofEntry ++ predicates)) := by
    rw [selectors]
    exact (List.perm_middle.map Selector.ofEntry).append_right predicates
  refine ⟨naming, _, shorter,
    ⟨⟨whole, ?_, ?_⟩, shorterSelectors.trans renamed.symm, terminal, ?_⟩, ?_⟩
  · rw [typed.mem_variablesIn_iff unmentioned]
    exact typed.not_mem_names
  · simp only [typed.mem_variablesIn_iff unmentioned]
    exact apart
  · intro operand occurs
    exact (typed.mem_variablesIn_iff unmentioned).mpr (inScope.operands_subset operand occurs)
  · have length : shorter.selectors.length = (earlier ++ later).length + predicates.length := by
      rw [shorterSelectors, List.length_append, List.length_map, List.length_map, List.length_map]
    have longer := whole.length_eq
    rw [List.length_cons, List.length_append, List.length_map] at longer
    refine ⟨_, _, someEntry, shorterSelectors, ?_, ?_, ?_⟩
    · omega
    · apply typed.drop unmentioned apart
      intro other member
      apply numberedBy_mem_variablePool member
      rw [length, List.length_map]
      exact Nat.le_add_right _ _
    · rw [map_fst_renamed, terminal]
      exact inScope.rename apart

/-! ### Searches -/

variable {α : Type} [Scalar α]

theorem Evidence.Accepts.exists_shorter [ExactScoring α] {evidence : Evidence α}
    {candidate : InferredRule α} {layouts : List GroundLayout}
    (accepts : evidence.Accepts candidate layouts) {shorter : Rule}
    (shortens : Rule.Shortens naming name signature rest shorter candidate.rule)
    {substitutions : List Substitution}
    (found : substitutionsOf evidence.schema evidence.world shorter.selectors = .ok substitutions) :
    ∃ simpler : InferredRule α, simpler.rule = shorter ∧ simpler.key = candidate.key ∧
      ∃ once, evidence.Accepts simpler once := by
  obtain ⟨once, compiled, repeated⟩ := shortens.exists_layouts accepts.compiled found
  have members (layout : GroundLayout) : layout ∈ layouts ↔
      (evidence.world.atomsOf signature).eraseDups.length ≠ 0 ∧ layout ∈ once := by
    simp only [repeated.mem_iff, List.mem_flatten, List.mem_replicate, and_assoc, exists_and_left,
      exists_eq_left]
  obtain ⟨layout, member⟩ := List.exists_mem_of_ne_nil layouts accepts.matched
  obtain ⟨someAtom, isOnce⟩ := (members layout).mp member
  have sameMean : geometricMean (layouts.map (Layout.scoreOrZero evidence.diagram)) =
      geometricMean (once.map (Layout.scoreOrZero evidence.diagram)) := by
    apply ExactScoring.geometricMean_repeated (Nat.pos_of_ne_zero someAtom)
    rw [← List.map_replicate, ← List.map_flatten]
    exact repeated.map _
  refine ⟨{ rule := shorter, confidence := candidate.confidence
            footprints := GroundLayout.canonicalize once }, rfl, ?_, once, ?_⟩
  · rw [InferredRule.key, InferredRule.key, accepts.footprints]
    apply FootprintKey.ofFootprints_congr
    intro text
    simp only [GroundLayout.canonicalize, List.mem_flatMap, members, someAtom, ne_eq,
      not_false_eq_true, true_and]
  · constructor
    · exact compiled
    · exact List.ne_nil_of_mem isOnce
    · exact fun other isOther => accepts.scored other ((members other).mpr ⟨someAtom, isOther⟩)
    · exact accepts.confidence.trans sameMean
    · exact accepts.exceeds
    · rfl

/-- In exact arithmetic every variable that a rule found gives a signature is an operand of its
terminal or an argument of one of its predicate selectors. -/
theorem infer_mentions_variables [ExactScoring α] {evidence : Evidence α} {bound : Nat}
    {rules : List (InferredRule α)} (inferred : evidence.infer bound = .ok rules) :
    ∀ found ∈ rules, ∀ name signature, .signature name signature ∈ found.rule.selectors →
      name ∈ found.rule.terminal.operands ∨
        ∃ predicate arguments, .predicate predicate arguments ∈ found.rule.selectors ∧
          name ∈ arguments := by
  intro found member name signature introduced
  by_contra idle
  rw [not_or] at idle
  obtain ⟨notOperand, notArgument⟩ := idle
  obtain ⟨inSpace, layouts, accepts⟩ := Evidence.accepts_of_mem_infer inferred member
  obtain ⟨naming, rest, shorter, shortens, shorterInSpace⟩ :=
    inSpace.exists_shortens introduced notOperand fun predicate arguments selected occurs =>
      notArgument ⟨predicate, arguments, selected, occurs⟩
  obtain ⟨substitutions, substituted⟩ := Evidence.exists_substitutionsOf inferred shorterInSpace
  obtain ⟨simpler, rfl, simplerKey, once, simplerAccepts⟩ :=
    accepts.exists_shorter shortens substituted
  -- The search keeps no rule that is more complex than another one with its footprints.
  obtain ⟨kept, isKept, keptKey, below⟩ := simplerAccepts.exists_found shorterInSpace inferred
  have same := Evidence.eq_of_key_eq inferred isKept member (keptKey.trans simplerKey)
  have shorterComplexity : simpler.complexity < found.complexity := shortens.complexity_lt
  rw [same] at below
  omega

/-- Two apples leave no variable idle. -/
theorem infer_mentions_variables_apples :
    ∃ rules, appleEvidence.infer 3 = .ok rules ∧ rules ≠ [] ∧
      ∀ found ∈ rules, ∀ name signature, .signature name signature ∈ found.rule.selectors →
        name ∈ found.rule.terminal.operands ∨
          ∃ predicate arguments, .predicate predicate arguments ∈ found.rule.selectors ∧
            name ∈ arguments := by
  obtain ⟨rules, inferred⟩ := Evidence.exists_infer appleEvidence_agrees
  exact ⟨rules, inferred, appleEvidence_finds inferred, infer_mentions_variables inferred⟩

end RelationalLayout
