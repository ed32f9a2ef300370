/-
Reading accepts exactly the grammar.

A draft stands for the tokens that were read into it: no step drops a token or makes
one up. So a program that a draft makes up is written with just the tokens that were
read, and two programs are never written with the same ones.
-/

import Mathlib.Logic.Function.Defs
import RelationalLayout.Proofs.Success
import RelationalLayout.Proofs.Text.Program

namespace RelationalLayout

/-! ### Token sequences -/

theorem argumentTokens_append_singleton (earlier : List String) (latest : String) :
    argumentTokens (earlier ++ [latest]) =
      earlier.flatMap (fun argument => [.identifier argument, .comma]) ++ [.identifier latest] := by
  induction earlier with
  | nil => rfl
  | cons argument earlier ih =>
      cases earlier with
      | nil => rfl
      | cons next earlier =>
          simp only [List.cons_append] at ih
          simp only [List.cons_append, argumentTokens, ih, List.flatMap_cons, List.nil_append]

theorem Program.tokens_append_singleton (finished : Program) (rule : Rule) :
    Program.tokens (finished ++ [rule]) = Program.tokens finished ++ rule.tokens := by
  simp [Program.tokens]

/-! ### Selectors -/

namespace SelectorDraft

def tokens : SelectorDraft → List Token
  | .start => []
  | .named name => [.identifier name]
  | .typing variableName => [.identifier variableName, .colon]
  | .opened predicateName => [.identifier predicateName, .openParen]
  | .argument predicateName earlier latest =>
      .identifier predicateName :: .openParen :: argumentTokens (earlier ++ [latest])
  | .comma predicateName earlier =>
      .identifier predicateName :: .openParen ::
        earlier.flatMap (fun argument => [.identifier argument, .comma])
  | .closed selector => selector.tokens

theorem tokens_step {draft next : SelectorDraft} {token : Token}
    (leads : draft.step token = some next) : next.tokens = draft.tokens ++ [token] := by
  unfold step at leads
  split at leads <;> cases leads <;>
    simp [tokens, Selector.tokens, argumentTokens, argumentTokens_append_singleton]

end SelectorDraft

/-! ### Terminals and separations -/

namespace TerminalDraft

def tokens : TerminalDraft → List Token
  | .start => []
  | .cycle => [.keyword .cycle]
  | .cycleFrom first => [.keyword .cycle, .identifier first]
  | .cycleTowards first option => [.keyword .cycle, .identifier first, .cyclic option]
  | .group => [.keyword .group]
  | .operand name => [.identifier name]
  | .relation first option => [.identifier first, .binary option]

theorem tokens_step {draft : TerminalDraft} {result : TerminalDraft ⊕ Template} {token : Token}
    (leads : draft.step token = some result) :
    result.elim tokens Template.tokens = draft.tokens ++ [token] := by
  unfold step at leads
  split at leads <;> cases leads <;> rfl

end TerminalDraft

namespace SeparationDraft

/-- The tokens of a separation from its opening parenthesis on. -/
def tokens : SeparationDraft → List Token
  | .start => [.openParen]
  | .named => [.openParen, .keyword .separation]
  | .atLeast => [.openParen, .keyword .separation, .keyword .atWord]
  | .atLeastDistance => [.openParen, .keyword .separation, .keyword .atWord, .keyword .least]
  | .exactlyDistance => [.openParen, .keyword .separation, .keyword .exactly]
  | .measured separation => separation.tokens.dropLast

def Measured : SeparationDraft → Prop
  | .measured separation => separation ≠ .unspecified
  | _ => True

theorem tokens_step {draft : SeparationDraft} {result : SeparationDraft ⊕ Separation}
    {token : Token} (measured : draft.Measured) (leads : draft.step token = some result) :
    result.elim tokens Separation.tokens = draft.tokens ++ [token] ∧
      result.elim Measured (· ≠ .unspecified) := by
  unfold step at leads
  split at leads <;> cases leads
  case h_7 separation =>
      cases separation with
      | unspecified => exact absurd rfl measured
      | atLeast distance => exact ⟨rfl, measured⟩
      | exactly distance => exact ⟨rfl, measured⟩
  all_goals simp [tokens, Measured, Separation.tokens]

end SeparationDraft

theorem Template.tokens_withSeparation {terminal : Template}
    (takes : Template.takesSeparation terminal = true) (separation : Separation) :
    Template.tokens (terminal.withSeparation separation) =
      Template.tokens terminal ++ separation.tokens := by
  unfold takesSeparation at takes
  split at takes
  · simp [Layout.withSeparation, Template.tokens, Separation.tokens]
  · simp [Layout.withSeparation, Template.tokens, Separation.tokens]
  · cases takes

/-! ### Programs -/

theorem Chain.toList_push (outer : Option Chain) (selector : Selector) :
    (Chain.push outer selector).toList = (outer.map Chain.toList).getD [] ++ [selector] := by
  cases outer <;> rfl

namespace Draft

def tokens : Draft → List Token
  | .complete finished => Program.tokens finished
  | .extendable finished latest => Program.tokens finished ++ latest.tokens
  | .selecting finished outer inner =>
      Program.tokens finished ++ chainTokens ((outer.map Chain.toList).getD []) ++
        .keyword .ifWord :: inner.tokens
  | .placing finished chain terminal =>
      Program.tokens finished ++ chainTokens chain.toList ++ terminal.tokens
  | .separating finished latest separation =>
      Program.tokens finished ++ latest.tokens ++ separation.tokens

def Extendable : Draft → Prop
  | .extendable _ latest => Template.takesSeparation latest.terminal = true
  | .separating _ latest separation =>
      Template.takesSeparation latest.terminal = true ∧ separation.Measured
  | _ => True

theorem tokens_afterTerminal (finished : Program) (rule : Rule) :
    (afterTerminal finished rule).tokens = Program.tokens finished ++ rule.tokens ∧
      (afterTerminal finished rule).Extendable := by
  unfold afterTerminal
  split
  · rename_i takes
    exact ⟨rfl, takes⟩
  · exact ⟨Program.tokens_append_singleton finished rule, trivial⟩

/-- Reading a token adds it to the tokens of a draft. -/
theorem tokens_step {draft next : Draft} {token : Token} (extendable : draft.Extendable)
    (leads : draft.step token = some next) :
    next.tokens = draft.tokens ++ [token] ∧ next.Extendable := by
  revert leads
  -- A case for each rule of the step; those that refuse the token have nothing to show.
  fun_cases step draft token with
  | case1 finished =>
      intro leads
      cases leads
      exact ⟨by simp [tokens, chainTokens, SelectorDraft.tokens], trivial⟩
  | case2 =>
      intro leads
      cases leads
  | case3 finished latest =>
      intro leads
      cases leads
      refine ⟨?_, trivial⟩
      simp [tokens, chainTokens, SelectorDraft.tokens, Program.tokens_append_singleton]
  | case4 finished latest =>
      intro leads
      cases leads
      exact ⟨by simp [tokens, SeparationDraft.tokens], extendable, trivial⟩
  | case5 =>
      intro leads
      cases leads
  | case6 finished outer selector =>
      intro leads
      cases leads
      refine ⟨?_, trivial⟩
      simp [tokens, Chain.toList_push, chainTokens, SelectorDraft.tokens, TerminalDraft.tokens]
  | case7 finished outer inner =>
      intro leads
      obtain ⟨longer, stepped, rfl⟩ := Option.map_eq_some_iff.mp leads
      exact ⟨by simp [tokens, SelectorDraft.tokens_step stepped], trivial⟩
  | case8 finished chain =>
      intro leads
      cases leads
      exact ⟨by simp [tokens, SelectorDraft.tokens, TerminalDraft.tokens], trivial⟩
  | case9 finished chain terminal =>
      intro leads
      obtain ⟨result, stepped, rfl⟩ := Option.map_eq_some_iff.mp leads
      have read := TerminalDraft.tokens_step stepped
      cases result with
      | inl longer =>
          simp only [Sum.elim_inl] at read
          exact ⟨by simp [tokens, read], trivial⟩
      | inr template =>
          simp only [Sum.elim_inr] at read
          obtain ⟨placed, stillExtendable⟩ := tokens_afterTerminal finished ⟨chain, template⟩
          refine ⟨placed.trans ?_, stillExtendable⟩
          simp [tokens, Rule.tokens, Rule.selectors, read]
  | case10 finished latest separation =>
      intro leads
      obtain ⟨takes, measured⟩ := extendable
      obtain ⟨result, stepped, rfl⟩ := Option.map_eq_some_iff.mp leads
      obtain ⟨read, stillMeasured⟩ := SeparationDraft.tokens_step measured stepped
      cases result with
      | inl longer =>
          simp only [Sum.elim_inl] at read stillMeasured
          exact ⟨by simp [tokens, read], takes, stillMeasured⟩
      | inr given =>
          simp only [Sum.elim_inr] at read
          refine ⟨?_, trivial⟩
          simp [tokens, Program.tokens_append_singleton, Rule.tokens, Rule.selectors,
            Template.tokens_withSeparation takes, read]

theorem tokens_run {draft final : Draft} {read : List Token} (extendable : draft.Extendable)
    (leads : draft.run read = some final) : final.tokens = draft.tokens ++ read := by
  induction read generalizing draft with
  | nil =>
      cases leads
      simp
  | cons token read ih =>
      rw [run, List.foldlM_cons] at leads
      cases stepped : draft.step token with
      | none =>
          rw [stepped] at leads
          cases leads
      | some next =>
          rw [stepped] at leads
          obtain ⟨added, stillExtendable⟩ := tokens_step extendable stepped
          rw [ih stillExtendable leads, added, List.append_assoc, List.singleton_append]

theorem tokens_of_program? {draft : Draft} {program : Program}
    (makesUp : draft.program? = some program) : draft.tokens = Program.tokens program := by
  cases draft with
  | complete finished =>
      cases makesUp
      rfl
  | extendable finished latest =>
      cases makesUp
      exact (Program.tokens_append_singleton finished latest).symm
  | _ => cases makesUp

/-- The token sequences that make up a program are those it is written with. -/
theorem makesUp_iff {read : List Token} {program : Program} :
    (∃ final, (complete []).run read = some final ∧ final.program? = some program) ↔
      read = Program.tokens program := by
  constructor
  · rintro ⟨final, leads, makesUp⟩
    have started : (complete []).Extendable := trivial
    have whole := tokens_run started leads
    rw [tokens_of_program? makesUp] at whole
    exact whole.symm
  · rintro rfl
    have started : (complete []).program? = some [] := rfl
    exact run_program started program

theorem advance_eq_iff {place : Type} {draft final : Draft} {placed : List (Token × place)} :
    draft.advance placed = (final, []) ↔ draft.run (placed.map Prod.fst) = some final := by
  refine ⟨fun advanced => ?_, advance_of_run⟩
  induction placed generalizing draft with
  | nil =>
      cases advanced
      rfl
  | cons token placed ih =>
      rw [advance] at advanced
      cases stepped : draft.step token.1 with
      | none =>
          rw [stepped] at advanced
          cases advanced
      | some next =>
          rw [stepped] at advanced
          rw [List.map_cons, run_step stepped]
          exact ih advanced

end Draft

/-! ### Reading -/

theorem readTokens_eq_ok_iff {source : String} {tokens : List (Token × Span)} :
    readTokens source = .ok tokens ↔
      unrecognizedStretches (Lexeme.place 0 (Lexeme.cut source.toList)) = [] ∧
        tokens = placedTokens (Lexeme.place 0 (Lexeme.cut source.toList)) := by
  simp only [readTokens]
  split
  · rename_i none
    simp only [none, Except.ok.injEq, true_and, eq_comm]
  · rename_i some
    exact iff_of_false (fun impossible => by cases impossible) (fun given => some given.1)

theorem Program.tokens_injective : Function.Injective Program.tokens := by
  intro left right same
  obtain ⟨final, leads, makesLeft⟩ := Draft.makesUp_iff.mpr (rfl : Program.tokens left = _)
  obtain ⟨other, leadsToo, makesRight⟩ := Draft.makesUp_iff.mpr same
  cases leads.symm.trans leadsToo
  exact Option.some.inj (makesLeft.symm.trans makesRight)

theorem readProgram_eq_ok_iff_run {source : String} {program : Program} :
    readProgram source = .ok program ↔
      ∃ placed, readTokens source = .ok placed ∧
        ∃ final, (Draft.complete []).run (placed.map Prod.fst) = some final ∧
          final.program? = some program := by
  constructor
  · intro read
    obtain ⟨placed, tokenized, _⟩ := bind_eq_ok_iff.mp read
    rcases stops : Draft.advance (.complete []) placed with ⟨stopped, left⟩
    by_cases whole : left = [] ∧ stopped.program? ≠ none
    · obtain ⟨rfl, complete⟩ := whole
      obtain ⟨other, makesUp⟩ := Option.ne_none_iff_exists'.mp complete
      cases read.symm.trans (readProgram_of_makesUp tokenized stops makesUp)
      exact ⟨placed, tokenized, stopped, Draft.advance_eq_iff.mp stops, makesUp⟩
    · have incomplete (ended : left = []) : stopped.program? = none :=
        not_not.mp (fun complete => whole ⟨ended, complete⟩)
      cases read.symm.trans (readProgram_of_stops tokenized stops incomplete)
  · rintro ⟨placed, tokenized, final, leads, makesUp⟩
    exact readProgram_of_makesUp tokenized (Draft.advance_of_run leads) makesUp

/-- A text is read as a program exactly when its tokens are those the program is written with,
and different programs are written with different tokens. -/
theorem readProgram_accepts :
    (∀ (source : String) (program : Program),
      readProgram source = .ok program ↔
        ∃ placed, readTokens source = .ok placed ∧
          placed.map Prod.fst = Program.tokens program) ∧
      Function.Injective Program.tokens := by
  refine ⟨fun source program => ?_, Program.tokens_injective⟩
  rw [readProgram_eq_ok_iff_run]
  simp only [Draft.makesUp_iff]

end RelationalLayout
