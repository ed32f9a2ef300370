/-
Where the errors of a text lie.

The lexemes of a text lie one behind another, from its first byte to its last. A stretch
that is no token, and a token that is refused, is reported exactly where it lies. An error
behind the text starts at the end of the text but stops at the end of the last token, so
it runs backwards when anything is skipped there.
-/

import Mathlib.Data.List.DropRight
import RelationalLayout.Proofs.Text.Refusal

namespace RelationalLayout

theorem byteWidth_nil : byteWidth [] = 0 := rfl

theorem byteWidth_append (before behind : List Char) :
    byteWidth (before ++ behind) = byteWidth before + byteWidth behind := by
  induction before with
  | nil => rw [List.nil_append, byteWidth, Nat.zero_add]
  | cons letter before ih => rw [List.cons_append, byteWidth, byteWidth, ih, Nat.add_assoc]

/-! ### Places -/

/-- A byte of a text at which a letter starts, or its end. -/
def IsBoundary (source : List Char) (byte : Nat) : Prop :=
  ∃ before, before <+: source ∧ byteWidth before = byte

namespace Span

def behind (before text : List Char) : Span :=
  { start := byteWidth before, stop := byteWidth (before ++ text) }

structure IsValid (source : List Char) (span : Span) : Prop where
  ordered : span.start ≤ span.stop
  within : span.stop ≤ byteWidth source
  starts : IsBoundary source span.start
  stops : IsBoundary source span.stop

theorem isValid_behind (before text rest : List Char) :
    (behind before text).IsValid (before ++ text ++ rest) where
  ordered := by
    rw [behind, byteWidth_append]
    exact Nat.le_add_right _ _
  within := by
    rw [behind, byteWidth_append (before ++ text)]
    exact Nat.le_add_right _ _
  starts := by
    refine ⟨before, ?_, rfl⟩
    rw [List.append_assoc]
    exact List.prefix_append _ _
  stops := ⟨before ++ text, List.prefix_append _ _, rfl⟩

end Span

namespace Lexeme

theorem place_cons (before : List Char) (lexeme : Lexeme) (rest : List Lexeme) :
    place (byteWidth before) (lexeme :: rest) =
      (lexeme, Span.behind before lexeme.text) ::
        place (byteWidth (before ++ lexeme.text)) rest := by
  rw [place, Span.behind, byteWidth_append]

theorem place_append (start : Nat) (earlier later : List Lexeme) :
    place start (earlier ++ later) =
      place start earlier ++ place (start + byteWidth (earlier.flatMap text)) later := by
  induction earlier generalizing start with
  | nil => rfl
  | cons lexeme earlier ih =>
      rw [List.cons_append, place, place, ih, List.cons_append, List.flatMap_cons, byteWidth_append,
        Nat.add_assoc]

theorem place_concat (before : List Char) (earlier : List Lexeme) (latest : Lexeme) :
    place (byteWidth before) (earlier ++ [latest]) =
      place (byteWidth before) earlier ++
        [(latest, Span.behind (before ++ earlier.flatMap text) latest.text)] := by
  rw [place_append, ← byteWidth_append, place_cons, place]

theorem of_place_eq_append_cons (before : List Char) {lexemes : List Lexeme} {lexeme : Lexeme}
    {span : Span} {placed left : List (Lexeme × Span)}
    (split : place (byteWidth before) lexemes = placed ++ (lexeme, span) :: left) :
    ∃ earlier later, lexemes = earlier ++ lexeme :: later ∧
      placed = place (byteWidth before) earlier ∧
      span = Span.behind (before ++ earlier.flatMap text) lexeme.text := by
  induction placed generalizing before lexemes with
  | nil =>
      cases lexemes with
      | nil => cases split
      | cons first rest =>
          rw [place_cons] at split
          cases split
          refine ⟨[], rest, rfl, rfl, ?_⟩
          rw [List.flatMap_nil, List.append_nil]
  | cons item placed ih =>
      cases lexemes with
      | nil => cases split
      | cons first rest =>
          rw [place_cons, List.cons_append] at split
          obtain ⟨rfl, remaining⟩ := List.cons.inj split
          obtain ⟨earlier, later, rfl, rfl, rfl⟩ := ih _ remaining
          refine ⟨first :: earlier, later, rfl, ?_, ?_⟩
          · rw [place_cons]
          · rw [List.flatMap_cons, List.append_assoc]

theorem isValid_of_cut {source : List Char} {earlier later : List Lexeme} {lexeme : Lexeme}
    (cuts : cut source = earlier ++ lexeme :: later) :
    (Span.behind (earlier.flatMap text) lexeme.text).IsValid source := by
  have whole := flatMap_text_cut source
  rw [cuts, List.flatMap_append, List.flatMap_cons, ← List.append_assoc] at whole
  have valid := Span.isValid_behind (earlier.flatMap text) lexeme.text (later.flatMap text)
  rw [whole] at valid
  exact valid

/-- What stands behind the last token: blanks and comments, when the text has no other
stretches. -/
def skippedAtEnd (lexemes : List Lexeme) : List Char :=
  (lexemes.rtakeWhile (fun lexeme => lexeme.token?.isNone)).flatMap text

theorem skippedAtEnd_concat (earlier : List Lexeme) (latest : Lexeme) :
    skippedAtEnd (earlier ++ [latest]) =
      if latest.token?.isNone then skippedAtEnd earlier ++ latest.text else [] := by
  rw [skippedAtEnd, List.rtakeWhile_concat]
  split
  · rw [List.flatMap_append, List.flatMap_singleton, skippedAtEnd]
  · rw [List.flatMap_nil]

end Lexeme

theorem placedTokens_concat (earlier : List Lexeme) (latest : Lexeme) :
    placedTokens (Lexeme.place 0 (earlier ++ [latest])) =
      placedTokens (Lexeme.place 0 earlier) ++
        (latest.token?.map (fun token =>
          (token, Span.behind (earlier.flatMap Lexeme.text) latest.text))).toList := by
  have placed := Lexeme.place_concat [] earlier latest
  rw [byteWidth_nil, List.nil_append] at placed
  rw [placed, placedTokens, List.filterMap_append, ← placedTokens]
  cases read : latest.token? with
  | none => rw [List.filterMap_cons_none (by rw [read]; rfl)]; rfl
  | some token => rw [List.filterMap_cons_some (by rw [read]; rfl)]; rfl

theorem endSpan_stop_add (source : String) (lexemes : List Lexeme) :
    (endSpan source (placedTokens (Lexeme.place 0 lexemes))).stop +
        byteWidth (Lexeme.skippedAtEnd lexemes) =
      byteWidth (lexemes.flatMap Lexeme.text) := by
  -- A token at the end puts the stop there; any other lexeme leaves it and is skipped.
  induction lexemes using List.reverseRecOn with
  | nil => rfl
  | append_singleton earlier latest ih =>
      rw [placedTokens_concat, Lexeme.skippedAtEnd_concat, List.flatMap_append,
        List.flatMap_singleton]
      cases read : latest.token? with
      | none =>
          rw [Option.map_none, Option.toList_none, List.append_nil, Option.isNone_none,
            if_pos rfl, byteWidth_append, byteWidth_append, ← ih, Nat.add_assoc]
      | some token =>
          rw [Option.map_some, Option.toList_some, endSpan, List.getLast?_concat,
            Option.isNone_some, if_neg Bool.false_ne_true]
          rfl

/-! ### Faults -/

namespace SyntaxFault

/-- The stretch of a text that a fault is about. -/
inductive IsFoundAt (source : List Char) : SyntaxFault → Span → Prop where
  | unrecognized {earlier later : List Lexeme} {stretch : List Char}
      (cuts : Lexeme.cut source = earlier ++ .unrecognized stretch :: later) :
      IsFoundAt source (.unrecognized (String.ofList stretch))
        (Span.behind (earlier.flatMap Lexeme.text) stretch)
  | unexpected {earlier later : List Lexeme} {token : Token} {stretch : List Char}
      {expected : List Expectation}
      (cuts : Lexeme.cut source = earlier ++ .token token stretch :: later)
      (begins : BeginsProgram (Lexeme.tokens earlier))
      (impossible : ¬BeginsProgram (Lexeme.tokens earlier ++ [token])) :
      IsFoundAt source (.unexpected (some token) expected)
        (Span.behind (earlier.flatMap Lexeme.text) stretch)
  | ending {expected : List Expectation}
      (begins : BeginsProgram (Lexeme.tokens (Lexeme.cut source)))
      (incomplete : ∀ program, Lexeme.tokens (Lexeme.cut source) ≠ Program.tokens program) :
      IsFoundAt source (.unexpected none expected) (Span.behind source [])

/-- How many bytes an error stops before its stretch does. -/
def lag (source : List Char) : SyntaxFault → Nat
  | .unexpected none _ => byteWidth (Lexeme.skippedAtEnd (Lexeme.cut source))
  | _ => 0

variable {source : List Char} {fault : SyntaxFault} {span : Span}

theorem IsFoundAt.isValid (found : fault.IsFoundAt source span) : span.IsValid source := by
  cases found with
  | unrecognized cuts => exact Lexeme.isValid_of_cut cuts
  | unexpected cuts begins impossible => exact Lexeme.isValid_of_cut cuts
  | ending begins incomplete =>
      have valid := Span.isValid_behind source [] []
      rw [List.append_nil, List.append_nil] at valid
      exact valid

theorem IsFoundAt.lag_eq_zero_or (found : fault.IsFoundAt source span) :
    fault.lag source = 0 ∨ span.stop = span.start := by
  cases found with
  | unrecognized => exact Or.inl rfl
  | unexpected => exact Or.inl rfl
  | ending =>
      refine Or.inr ?_
      rw [Span.behind, List.append_nil]

end SyntaxFault

theorem isFoundAt_of_mem_unrecognizedStretches {source : List Char} {error : SyntaxError}
    (member : error ∈ unrecognizedStretches (Lexeme.place 0 (Lexeme.cut source))) :
    error.fault.IsFoundAt source error.span ∧ error.fault.lag source = 0 := by
  obtain ⟨⟨lexeme, span⟩, placed, stretches⟩ := List.mem_filterMap.mp member
  cases lexeme with
  | unrecognized stretch =>
      cases stretches
      obtain ⟨before, left, split⟩ := List.append_of_mem placed
      obtain ⟨earlier, later, cuts, -, rfl⟩ := Lexeme.of_place_eq_append_cons [] split
      exact ⟨.unrecognized cuts, rfl⟩
  | _ => cases stretches

theorem isFoundAt_of_placedTokens {source : List Char} {read left : List (Token × Span)}
    {token : Token × Span} {expected : List Expectation}
    (split : placedTokens (Lexeme.place 0 (Lexeme.cut source)) = read ++ token :: left)
    (begins : BeginsProgram (read.map Prod.fst))
    (impossible : ¬BeginsProgram (read.map Prod.fst ++ [token.1])) :
    (SyntaxFault.unexpected (some token.1) expected).IsFoundAt source token.2 := by
  obtain ⟨front, back, whole, rfl, fromBack⟩ := List.filterMap_eq_append_iff.mp split
  obtain ⟨skipped, ⟨lexeme, span⟩, rest, rfl, noTokens, found, -⟩ :=
    List.filterMap_eq_cons_iff.mp fromBack
  rw [← List.append_assoc] at whole
  obtain ⟨earlier, later, cuts, placed, rfl⟩ := Lexeme.of_place_eq_append_cons [] whole
  have tokensBefore : (placedTokens front).map Prod.fst = Lexeme.tokens earlier := by
    rw [← map_fst_placedTokens_place 0 earlier, placedTokens, placedTokens]
    rw [byteWidth_nil] at placed
    rw [← placed, List.filterMap_append, List.filterMap_eq_nil_iff.mpr noTokens, List.append_nil]
  cases lexeme with
  | token read stretch =>
      cases found
      rw [← placedTokens, tokensBefore] at begins impossible
      exact .unexpected cuts begins impossible
  | _ => cases found

/-! ### Errors -/

theorem readTokens_eq_error_iff {source : String} {errors : List SyntaxError} :
    readTokens source = .error errors ↔
      errors ≠ [] ∧ errors = unrecognizedStretches (Lexeme.place 0 (Lexeme.cut source.toList)) := by
  simp only [readTokens]
  split
  · rename_i none
    simp [none]
  · rename_i some
    simp only [Except.error.injEq]
    constructor
    · rintro rfl
      exact ⟨some, rfl⟩
    · exact fun given => given.2.symm

theorem SyntaxError.exists_isFoundAt {source : String} {errors : List SyntaxError}
    (refused : readProgram source = .error errors) {error : SyntaxError} (member : error ∈ errors) :
    ∃ right : Span, error.fault.IsFoundAt source.toList right ∧
      error.span.start = right.start ∧
      error.span.stop + error.fault.lag source.toList = right.stop := by
  rcases readProgram_eq_error_cases refused with
    stretches | ⟨placed, tokenized, ⟨read, token, left, expected, split, begins, impossible, rfl⟩ |
      ⟨expected, begins, incomplete, rfl⟩⟩
  · rw [(readTokens_eq_error_iff.mp stretches).2] at member
    obtain ⟨found, punctual⟩ := isFoundAt_of_mem_unrecognizedStretches member
    refine ⟨error.span, found, rfl, ?_⟩
    rw [punctual, Nat.add_zero]
  · rw [List.mem_singleton] at member
    subst member
    rw [(readTokens_eq_ok_iff.mp tokenized).2] at split
    exact ⟨token.2, isFoundAt_of_placedTokens split begins impossible, rfl, rfl⟩
  · rw [List.mem_singleton] at member
    subst member
    obtain ⟨_, rfl⟩ := readTokens_eq_ok_iff.mp tokenized
    rw [map_fst_placedTokens_place] at begins incomplete
    refine ⟨_, .ending begins incomplete, rfl, ?_⟩
    rw [SyntaxFault.lag, endSpan_stop_add, Lexeme.flatMap_text_cut, Span.behind, List.append_nil]

/-- Every error starts where its stretch does, and is a stretch of the text itself unless it lies
behind the text and something is skipped there: then it runs backwards over what is skipped. -/
theorem readProgram_spans_exact {source : String} {errors : List SyntaxError}
    (refused : readProgram source = .error errors) :
    ∀ error ∈ errors, ∃ right : Span,
      error.fault.IsFoundAt source.toList right ∧ right.IsValid source.toList ∧
        error.span.start = right.start ∧
        error.span.stop + error.fault.lag source.toList = right.stop ∧
        (error.span.IsValid source.toList ↔ error.fault.lag source.toList = 0) := by
  intro error member
  obtain ⟨right, found, starts, stops⟩ := SyntaxError.exists_isFoundAt refused member
  refine ⟨right, found, found.isValid, starts, stops, ?_⟩
  constructor
  · intro valid
    have ordered := valid.ordered
    rcases found.lag_eq_zero_or with punctual | empty
    · exact punctual
    · rw [empty, ← starts] at stops
      omega
  · intro punctual
    rw [punctual, Nat.add_zero] at stops
    have same : error.span = right := by
      cases right
      cases starts
      cases stops
      rfl
    rw [same]
    exact found.isValid

def strayName : SyntaxError :=
  { span := { start := 8, stop := 9 }
    fault := .unexpected (some (.identifier "x")) [.token .openParen, .token .colon] }

/-- The quoted letter is two bytes wide, and what follows the token is no part of its place. -/
theorem readProgram_spans_exact_quoted :
    readProgram "IF \"é\" x // é" = .error [strayName] ∧
      ∀ error ∈ [strayName], ∃ right : Span,
        error.fault.IsFoundAt "IF \"é\" x // é".toList right ∧
          right.IsValid "IF \"é\" x // é".toList ∧ error.span.start = right.start ∧
          error.span.stop + error.fault.lag "IF \"é\" x // é".toList = right.stop ∧
          (error.span.IsValid "IF \"é\" x // é".toList ↔
            error.fault.lag "IF \"é\" x // é".toList = 0) := by
  have refused : readProgram "IF \"é\" x // é" = .error [strayName] := by decide +kernel
  exact ⟨refused, readProgram_spans_exact refused⟩

/-- A blank behind the last token is enough. -/
theorem readProgram_span_backwards :
    ∃ error, readProgram "IF " = .error [error] ∧ ¬error.span.IsValid "IF ".toList := by
  refine ⟨{ span := { start := 3, stop := 2 }, fault := .unexpected none [.identifier] }, ?_, ?_⟩
  · decide +kernel
  · intro valid
    exact absurd valid.ordered (by decide)

end RelationalLayout
