/-
Program text reads back as the program it was written from.

Writing spells the tokens of the program, and reading needs nothing but these
tokens. So the two meet at the token sequence of the grammar.
-/

import RelationalLayout.Proofs.Text.Grammar
import RelationalLayout.Proofs.Text.Syntax
import RelationalLayout.Text.Program

namespace RelationalLayout

theorem unrecognizedStretches_place_eq_nil_iff {lexemes : List Lexeme} (start : Nat) :
    unrecognizedStretches (Lexeme.place start lexemes) = [] ↔
      ∀ lexeme ∈ lexemes, ∀ stretch, lexeme ≠ .unrecognized stretch := by
  induction lexemes generalizing start with
  | nil => exact iff_of_true rfl fun _ impossible => by cases impossible
  | cons lexeme lexemes ih =>
      rw [List.forall_mem_cons]
      have remaining := ih (start + byteWidth lexeme.text)
      cases lexeme with
      | unrecognized stretch =>
          refine iff_of_false (fun impossible => by cases impossible) ?_
          exact fun given => given.1 stretch rfl
      | blank | comment | token =>
          exact remaining.trans (iff_and_self.mpr fun _ _ => Lexeme.noConfusion)

theorem map_fst_placedTokens_place (start : Nat) (lexemes : List Lexeme) :
    (placedTokens (Lexeme.place start lexemes)).map Prod.fst = Lexeme.tokens lexemes := by
  induction lexemes generalizing start with
  | nil => rfl
  | cons lexeme lexemes ih =>
      have remaining := ih (start + byteWidth lexeme.text)
      cases lexeme with
      | token token stretch => exact congrArg (token :: ·) remaining
      | _ => exact remaining

section Reading

variable {source : String} {placed left : List (Token × Span)} {stopped : Draft}

theorem readProgram_of_makesUp {program : Program} (tokenized : readTokens source = .ok placed)
    (stops : (Draft.complete []).advance placed = (stopped, []))
    (makesUp : stopped.program? = some program) : readProgram source = .ok program := by
  have ends := endsProgram_program placed
  simp only [readProgram, tokenized, bind, Except.bind]
  generalize Parser.program placed = attempt at ends
  cases ends with
  | accepted reads found =>
      cases stops.symm.trans reads
      cases makesUp.symm.trans found
      rfl
  | refused reads incomplete =>
      cases stops.symm.trans reads
      cases makesUp.symm.trans (incomplete rfl)

theorem readProgram_of_stops (tokenized : readTokens source = .ok placed)
    (stops : (Draft.complete []).advance placed = (stopped, left))
    (incomplete : left = [] → stopped.program? = none) :
    readProgram source = .error [Refusal.error source placed ⟨left, stopped.expected⟩] := by
  have ends := endsProgram_program placed
  simp only [readProgram, tokenized, bind, Except.bind]
  generalize Parser.program placed = attempt at ends
  cases ends with
  | accepted reads makesUp =>
      cases stops.symm.trans reads
      cases makesUp.symm.trans (incomplete rfl)
  | refused reads _ =>
      cases stops.symm.trans reads
      rfl

end Reading

theorem readProgram_of_spells {source : String} {program : Program}
    (spells : Spells source.toList (Program.tokens program)) :
    readProgram source = .ok program := by
  obtain ⟨recognized, same⟩ := spells
  have started : (Draft.complete []).program? = some [] := rfl
  obtain ⟨final, leads, makesUp⟩ := Draft.run_program started program
  rw [← same, ← map_fst_placedTokens_place 0] at leads
  have read := Draft.advance_of_run leads
  have tokenized : readTokens source =
      .ok (placedTokens (Lexeme.place 0 (Lexeme.cut source.toList))) := by
    simp only [readTokens, (unrecognizedStretches_place_eq_nil_iff 0).mpr recognized]
  exact readProgram_of_makesUp tokenized read makesUp

def awkwardProgram : Program :=
  [{ chain := { first := .predicate "IF" ["", "a\\b", "say \"no\""], rest := [.signature "7" "// x\ny"] }
     terminal := .binary .directlyAbove (.atLeast 0.1) "" "7" },
   { chain := { first := .predicate "LeftOf" [], rest := [] }
     terminal := .unary .leftOfCenter (.exactly (-1e-7)) "THEN" },
   { chain := { first := .signature "x" "S", rest := [] }
     terminal := .cyclic .clockwise "x" "at" () }]

/-- Every program is read back from its own text. -/
theorem readProgram_text (program : Program)
    (finite : ∀ rule ∈ program, rule.DistancesFinite) :
    readProgram (Program.text program) = .ok program :=
  readProgram_of_spells (Program.spells_text program finite)

/-- Keywords, digits, quotes, comment markers and line feeds may all be names, and the shortest
digits of a distance are read back exactly. -/
theorem readProgram_text_awkward :
    readProgram (Program.text awkwardProgram) = .ok awkwardProgram :=
  readProgram_text awkwardProgram (by decide +kernel)

end RelationalLayout
