/-
The first token that is refused is the first impossible one.

Every draft can be completed, whatever tokens it was read from. So the tokens that lead
to a draft begin a program, and behind them a token is refused exactly when no program
goes on with it.
-/

import RelationalLayout.Proofs.Text.Acceptance

namespace RelationalLayout

def BeginsProgram (tokens : List Token) : Prop := ∃ program : Program, tokens <+: Program.tokens program

/-! ### Completing a draft -/

namespace SelectorDraft

def completion : SelectorDraft → List Token
  | .start => [.identifier "", .colon, .identifier ""]
  | .named _ => [.colon, .identifier ""]
  | .typing _ => [.identifier ""]
  | .opened _ => [.closeParen]
  | .argument _ _ _ => [.closeParen]
  | .comma _ _ => [.identifier "", .closeParen]
  | .closed _ => []

theorem run_completion (draft : SelectorDraft) :
    ∃ selector, draft.run draft.completion = some (.closed selector) := by
  cases draft <;> exact ⟨_, rfl⟩

end SelectorDraft

def TerminalDraft.completion : TerminalDraft → List Token
  | .start => [.keyword .group, .identifier ""]
  | .cycle => [.identifier "", .cyclic .clockwise, .identifier ""]
  | .cycleFrom _ => [.cyclic .clockwise, .identifier ""]
  | .cycleTowards _ _ => [.identifier ""]
  | .group => [.identifier ""]
  | .operand _ => [.unary .leftOfCenter]
  | .relation _ _ => [.identifier ""]

def SeparationDraft.completion : SeparationDraft → List Token
  | .start => [.keyword .separation, .keyword .exactly, .number 0, .closeParen]
  | .named => [.keyword .exactly, .number 0, .closeParen]
  | .atLeast => [.keyword .least, .number 0, .closeParen]
  | .atLeastDistance => [.number 0, .closeParen]
  | .exactlyDistance => [.number 0, .closeParen]
  | .measured _ => [.closeParen]

namespace Draft

def completion : Draft → List Token
  | .complete _ => []
  | .extendable _ _ => []
  | .selecting _ _ inner =>
      inner.completion ++ .keyword .thenWord :: TerminalDraft.start.completion
  | .placing _ _ terminal => terminal.completion
  | .separating _ _ separation => separation.completion

theorem run_completion_placing (finished : Program) (chain : Chain) (terminal : TerminalDraft) :
    ∃ final program, (placing finished chain terminal).run terminal.completion = some final ∧
      final.program? = some program := by
  cases terminal <;> exact ⟨_, _, rfl, rfl⟩

theorem run_completion (draft : Draft) :
    ∃ final program, draft.run draft.completion = some final ∧ final.program? = some program := by
  cases draft with
  | complete finished => exact ⟨_, _, rfl, rfl⟩
  | extendable finished latest => exact ⟨_, _, rfl, rfl⟩
  | selecting finished outer inner =>
      obtain ⟨selector, closed⟩ := inner.run_completion
      have placed : (selecting finished outer (.closed selector)).step (.keyword .thenWord) =
          some (.placing finished (Chain.push outer selector) .start) := rfl
      rw [completion, run_append (run_selecting closed), run_step placed]
      exact run_completion_placing finished (Chain.push outer selector) .start
  | placing finished chain terminal => exact run_completion_placing finished chain terminal
  | separating finished latest separation => cases separation <;> exact ⟨_, _, rfl, rfl⟩

end Draft

theorem beginsProgram_iff_run {tokens : List Token} :
    BeginsProgram tokens ↔ ∃ draft, (Draft.complete []).run tokens = some draft := by
  constructor
  · rintro ⟨program, later, whole⟩
    obtain ⟨final, leads, _⟩ := Draft.makesUp_iff.mpr whole
    rw [Draft.run, List.foldlM_append] at leads
    obtain ⟨draft, read, _⟩ := Option.bind_eq_some_iff.mp leads
    exact ⟨draft, read⟩
  · rintro ⟨draft, read⟩
    obtain ⟨final, program, leads, makesUp⟩ := draft.run_completion
    refine ⟨program, draft.completion, Draft.makesUp_iff.mp ⟨final, ?_, makesUp⟩⟩
    rw [Draft.run_append read, leads]

/-! ### Where reading stops -/

namespace Draft

variable {place : Type} {draft stopped : Draft} {placed left : List (Token × place)}

theorem run_of_advance_eq_cons {token : Token × place}
    (advanced : draft.advance placed = (stopped, token :: left)) :
    ∃ read, placed = read ++ token :: left ∧ draft.run (read.map Prod.fst) = some stopped ∧
      stopped.step token.1 = none := by
  induction placed generalizing draft with
  | nil => cases advanced
  | cons first placed ih =>
      rw [advance] at advanced
      cases stepped : draft.step first.1 with
      | none =>
          rw [stepped] at advanced
          cases advanced
          exact ⟨[], rfl, rfl, stepped⟩
      | some next =>
          rw [stepped] at advanced
          obtain ⟨read, rfl, leads, refused⟩ := ih advanced
          refine ⟨first :: read, rfl, ?_, refused⟩
          rw [List.map_cons, run_step stepped, leads]

theorem not_beginsProgram_of_step {read : List Token} {token : Token}
    (leads : (complete []).run read = some stopped) (refused : stopped.step token = none) :
    ¬BeginsProgram (read ++ [token]) := by
  rw [beginsProgram_iff_run, run_append leads, run, List.foldlM_cons, refused]
  rintro ⟨_, impossible⟩
  cases impossible

end Draft

/-- A text that is no program has stretches that are no tokens, or a first token that is
impossible, or too few tokens. -/
theorem readProgram_eq_error_cases {source : String} {errors : List SyntaxError}
    (refused : readProgram source = .error errors) :
    readTokens source = .error errors ∨
      ∃ placed, readTokens source = .ok placed ∧
        ((∃ read token left expected, placed = read ++ token :: left ∧
          BeginsProgram (read.map Prod.fst) ∧ ¬BeginsProgram (read.map Prod.fst ++ [token.1]) ∧
          errors = [{ span := token.2, fault := .unexpected (some token.1) expected }]) ∨
        (∃ expected, BeginsProgram (placed.map Prod.fst) ∧
          (∀ program, placed.map Prod.fst ≠ Program.tokens program) ∧
          errors = [{ span := endSpan source placed, fault := .unexpected none expected }])) := by
  cases tokenized : readTokens source with
  | error stretches =>
      rw [readProgram, tokenized] at refused
      cases refused
      exact Or.inl rfl
  | ok placed =>
      refine Or.inr ⟨placed, rfl, ?_⟩
      rcases stops : Draft.advance (.complete []) placed with ⟨stopped, left⟩
      cases left with
      | cons token left =>
          cases refused.symm.trans
            (readProgram_of_stops tokenized stops (fun ended => by cases ended))
          obtain ⟨read, split, leads, refuses⟩ := Draft.run_of_advance_eq_cons stops
          exact Or.inl ⟨read, token, left, _, split, beginsProgram_iff_run.mpr ⟨stopped, leads⟩,
            Draft.not_beginsProgram_of_step leads refuses, rfl⟩
      | nil =>
          have leads := Draft.advance_eq_iff.mp stops
          cases incomplete : stopped.program? with
          | some program =>
              cases refused.symm.trans (readProgram_of_makesUp tokenized stops incomplete)
          | none =>
              cases refused.symm.trans (readProgram_of_stops tokenized stops (fun _ => incomplete))
              refine Or.inr ⟨_, beginsProgram_iff_run.mpr ⟨stopped, leads⟩, ?_, rfl⟩
              intro program whole
              obtain ⟨final, leadsToo, makesUp⟩ := Draft.makesUp_iff.mpr whole
              cases leads.symm.trans leadsToo
              cases incomplete.symm.trans makesUp

end RelationalLayout
