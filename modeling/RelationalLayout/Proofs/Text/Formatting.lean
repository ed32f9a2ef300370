/-
Formatting a program that was read.

A program that is written again spells the tokens it was read from, but for numbers
that are not finite: they are written as words, and no program has a word where a
distance stands. So formatting keeps a program exactly when every literal of its text
is small enough to be read as a finite number.
-/

import RelationalLayout.Proofs.Text.Acceptance
import RelationalLayout.Proofs.Text.Literal

namespace RelationalLayout

namespace Draft

theorem step_identifier_of_step_number {draft next : Draft} {value : Float} (name : String)
    (leads : draft.step (.number value) = some next) : draft.step (.identifier name) = none := by
  cases draft with
  | complete finished => rfl
  | extendable finished latest => rfl
  | selecting finished outer inner => cases inner <;> cases leads
  | placing finished chain terminal => cases terminal <;> cases leads
  | separating finished latest separation =>
      cases separation with
      | atLeastDistance => rfl
      | exactlyDistance => rfl
      | _ => cases leads

theorem readBack_of_step {draft next other : Draft} {token : Token}
    (leads : draft.step token = some next) (leadsBack : draft.step token.readBack = some other) :
    token.readBack = token := by
  cases token with
  | number value =>
      by_cases finite : value.isFinite = true
      · exact Token.readBack_number.mpr finite
      · rw [Token.readBack, if_neg finite, step_identifier_of_step_number _ leads] at leadsBack
        cases leadsBack
  | _ => rfl

theorem readBack_of_run {draft final other : Draft} {tokens : List Token}
    (leads : draft.run tokens = some final)
    (leadsBack : draft.run (tokens.map Token.readBack) = some other) :
    ∀ token ∈ tokens, token.readBack = token := by
  induction tokens generalizing draft with
  | nil =>
      intro token member
      cases member
  | cons token tokens ih =>
      rw [run, List.foldlM_cons] at leads
      rw [List.map_cons, run, List.foldlM_cons] at leadsBack
      obtain ⟨next, stepped, onward⟩ := Option.bind_eq_some_iff.mp leads
      obtain ⟨nextBack, steppedBack, onwardBack⟩ := Option.bind_eq_some_iff.mp leadsBack
      have same := readBack_of_step stepped steppedBack
      rw [same, stepped] at steppedBack
      cases steppedBack
      intro found member
      rcases List.mem_cons.mp member with rfl | later
      · exact same
      · exact ih onward onwardBack found later

end Draft

theorem tokens_cut_of_readProgram {source : String} {program : Program}
    (read : readProgram source = .ok program) :
    Lexeme.tokens (Lexeme.cut source.toList) = Program.tokens program := by
  obtain ⟨placed, tokenized, ran⟩ := readProgram_eq_ok_iff_run.mp read
  rw [← Draft.makesUp_iff.mp ran, (readTokens_eq_ok_iff.mp tokenized).2, map_fst_placedTokens_place]

/-- A program is read from its own text exactly when its distances are finite, and no other
program ever is. -/
theorem readProgram_text_iff {program other : Program} :
    readProgram (Program.text program) = .ok other ↔
      other = program ∧ ∀ rule ∈ program, rule.DistancesFinite := by
  constructor
  · intro read
    have written := (Program.written_text program).readBack
    rw [tokens_cut_of_readProgram read] at written
    obtain ⟨final, leads, _⟩ := Draft.makesUp_iff.mpr (rfl : Program.tokens program = _)
    obtain ⟨finalBack, leadsBack, _⟩ := Draft.makesUp_iff.mpr written.symm
    have same := Draft.readBack_of_run leads leadsBack
    rw [List.map_congr_left same, List.map_id'] at written
    exact ⟨Program.tokens_injective written, Program.readBack_tokens.mp same⟩
  · rintro ⟨rfl, finite⟩
    exact readProgram_of_spells (Program.spells_text other finite)

/-- Whatever literals, names, comments and blanks a text has: the program that is read from it
comes back from its own text when every literal is below the overflow, and otherwise that text
is read as no program at all. -/
theorem readProgram_formatted {source : String} {program : Program}
    (read : readProgram source = .ok program) (other : Program) :
    readProgram (Program.text program) = .ok other ↔
      other = program ∧ ∀ literal ∈ literals source, literal.rational < Binary64.overflow := by
  rw [readProgram_text_iff, literals_lt_overflow_iff, tokens_cut_of_readProgram read,
    Program.readBack_tokens]

def paddedText : String :=
  "IF\t\"IF\"(a , b)THEN // two\n a LeftOf b(separation exactly -00.250)"

def paddedProgram : Program :=
  [{ chain := { first := .predicate "IF" ["a", "b"], rest := [] }
     terminal := .binary .leftOf (.exactly (-0.25)) "a" "b" }]

theorem readProgram_formatted_padded :
    readProgram paddedText = .ok paddedProgram ∧
      readProgram (Program.text paddedProgram) = .ok paddedProgram := by
  have read : readProgram paddedText = .ok paddedProgram := by decide +kernel
  have small : ∀ literal ∈ literals paddedText, literal.rational < Binary64.overflow := by
    decide +kernel
  exact ⟨read, (readProgram_formatted read paddedProgram).mpr ⟨rfl, small⟩⟩

def longText : List Char :=
  "IF a : T THEN a LeftOfCenter (separation at least 1".toList ++ List.replicate 309 '0' ++ [')']

def longProgram : Program :=
  [{ chain := { first := .signature "a" "T", rest := [] }
     terminal := .unary .leftOfCenter (.atLeast (1 / 0)) "a" }]

/-- Infinity is written as a word, and a word is no distance. -/
theorem not_readProgram_formatted_long :
    ¬ ∀ (source : String) (program : Program), readProgram source = .ok program →
      readProgram (Program.text program) = .ok program := by
  intro formatted
  have spells : Spells (String.ofList longText).toList (Program.tokens longProgram) := by
    rw [String.toList_ofList]
    decide +kernel
  have same := formatted _ longProgram (readProgram_of_spells spells)
  revert same
  decide +kernel

end RelationalLayout
