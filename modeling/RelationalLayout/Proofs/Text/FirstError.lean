/-
The one error of tokens that no program is written with.

Reading goes on as long as some program begins with the tokens read, so the error names
the first token behind which none does. Where there is no such token, all of them begin a
program, and the end of the text is what was not expected.
-/

import RelationalLayout.Proofs.Text.Refusal

namespace RelationalLayout

/-! ### Beginnings of programs -/

theorem BeginsProgram.of_prefix {earlier tokens : List Token} (begins : BeginsProgram tokens)
    (leading : earlier <+: tokens) : BeginsProgram earlier := by
  obtain ⟨program, goesOn⟩ := begins
  exact ⟨program, leading.trans goesOn⟩

/-- The first of some tokens with which no program goes on. -/
structure FirstImpossible (tokens : List Token) (index : Nat) : Prop where
  impossible : ¬BeginsProgram (tokens.take (index + 1))
  first : ∀ earlier < index, BeginsProgram (tokens.take (earlier + 1))

theorem firstImpossible_append {read left : List Token} {token : Token}
    (begins : BeginsProgram read) (impossible : ¬BeginsProgram (read ++ [token])) :
    FirstImpossible (read ++ token :: left) read.length where
  impossible := by
    rw [List.take_length_add_append]
    exact impossible
  first := by
    intro earlier before
    rw [List.take_append_of_le_length before]
    exact begins.of_prefix (List.take_prefix _ read)

instance (tokens : List Token) : Decidable (BeginsProgram tokens) :=
  decidable_of_iff (((Draft.complete []).run tokens).isSome = true)
    (Option.isSome_iff_exists.trans beginsProgram_iff_run.symm)

/-! ### Errors -/

/-- Tokens that no program is written with have one error. It is found at the first token with
which no program goes on and names that token, or there is none and it names the end. -/
theorem readProgram_error_exact {source : String} {placed : List (Token × Span)}
    (tokenized : readTokens source = .ok placed)
    (foreign : ∀ program, placed.map Prod.fst ≠ Program.tokens program) :
    ∃ error, readProgram source = .error [error] ∧
      ((∃ (index : Nat) (token : Token) (span : Span), placed[index]? = some (token, span) ∧
          FirstImpossible (placed.map Prod.fst) index ∧ error.span = span ∧
          error.message = "Unexpected " ++ token.description) ∨
        ((∀ count, BeginsProgram ((placed.map Prod.fst).take count)) ∧
          error.message = "Unexpected end of input")) := by
  cases outcome : readProgram source with
  | ok program =>
      obtain ⟨found, foundToo, final, leads, makesUp⟩ := readProgram_eq_ok_iff_run.mp outcome
      cases tokenized.symm.trans foundToo
      exact absurd (Draft.makesUp_iff.mp ⟨final, leads, makesUp⟩) (foreign program)
  | error errors =>
      rcases readProgram_eq_error_cases outcome with stretches | ⟨found, foundToo, errorCases⟩
      · cases tokenized.symm.trans stretches
      · cases tokenized.symm.trans foundToo
        rcases errorCases with ⟨read, ⟨token, span⟩, left, expected, rfl, begins, impossible, rfl⟩ |
          ⟨expected, begins, _, rfl⟩
        · refine ⟨_, rfl, Or.inl ⟨read.length, token, span, by simp, ?_, rfl, rfl⟩⟩
          rw [List.map_append, List.map_cons, ← List.length_map (f := Prod.fst)]
          exact firstImpossible_append begins impossible
        · exact ⟨_, rfl, Or.inr ⟨fun count => begins.of_prefix (List.take_prefix count _), rfl⟩⟩

/-- The word `THEN` is missing, so the second name is impossible. -/
theorem readProgram_error_exact_missing :
    let source := "IF v0 : Apple v0 AboveCenter"
    ∃ placed, readTokens source = .ok placed ∧
      (∀ program, placed.map Prod.fst ≠ Program.tokens program) ∧
      ∃ error, readProgram source = .error [error] ∧
        ((∃ (index : Nat) (token : Token) (span : Span), placed[index]? = some (token, span) ∧
            FirstImpossible (placed.map Prod.fst) index ∧ error.span = span ∧
            error.message = "Unexpected " ++ token.description) ∨
          ((∀ count, BeginsProgram ((placed.map Prod.fst).take count)) ∧
            error.message = "Unexpected end of input")) := by
  intro source
  have tokenizes : (readTokens source).toOption.any (fun placed =>
      decide (¬BeginsProgram (placed.map Prod.fst))) = true := by decide +kernel
  cases tokenized : readTokens source with
  | error stretches =>
      rw [tokenized] at tokenizes
      cases tokenizes
  | ok placed =>
      rw [tokenized] at tokenizes
      have stray : ¬BeginsProgram (placed.map Prod.fst) := of_decide_eq_true tokenizes
      have foreign (program : Program) : placed.map Prod.fst ≠ Program.tokens program :=
        fun same => stray ⟨program, same ▸ List.prefix_refl _⟩
      exact ⟨placed, rfl, foreign, readProgram_error_exact tokenized foreign⟩

end RelationalLayout
