/-
Strings are read back from their written form.

Writing turns each letter into itself, into a short escape or into the unit of a control
character, and reading makes one piece of what it was turned into.
-/

import RelationalLayout.Json
import RelationalLayout.Json.Lexeme

namespace RelationalLayout

namespace JsonQuoted

theorem hexValue?_hexDigit {value : Nat} (small : value < 16) :
    hexValue? (Json.hexDigit value) = some value := by
  have all : ∀ digit < 16, hexValue? (Json.hexDigit digit) = some digit := by decide
  exact all value small

theorem hexUnit?_of_control {letter : Char} (control : letter.toNat < 32) :
    hexUnit? '0' '0' (Json.hexDigit (letter.toNat / 16)) (Json.hexDigit (letter.toNat % 16)) =
      some letter.toNat := by
  have zero : hexValue? '0' = some 0 := by decide
  have high : hexValue? (Json.hexDigit (letter.toNat / 16)) = some (letter.toNat / 16) :=
    hexValue?_hexDigit (by omega)
  have low : hexValue? (Json.hexDigit (letter.toNat % 16)) = some (letter.toNat % 16) :=
    hexValue?_hexDigit (by omega)
  simp only [hexUnit?, zero, high, low, Option.bind_eq_bind, Option.bind_some, Option.some.injEq]
  omega

theorem longEscape?_of_shortEscape? {letter short : Char}
    (escaped : Json.shortEscape? letter = some short) :
    longEscape? short = some letter ∧ short ≠ 'u' := by
  unfold Json.shortEscape? at escaped
  repeat' split at escaped
  all_goals cases escaped <;> subst_vars <;> decide

theorem letters_unit {value : Nat} (small : value < 32) (rest : List Char) (ending : Ending)
    (later : List Piece) :
    letters ending (.unit value rest :: later) =
      (letters ending later).map (Char.ofNat value :: ·) := by
  -- A unit is looked at together with the one behind it, if there is one.
  have notLow : isLowSurrogate value = false := by simp [isLowSurrogate]; omega
  have notHigh : isHighSurrogate value = false := by simp [isHighSurrogate]; omega
  rw [letters.eq_def]
  split <;> rename_i same <;> cases same
  · simp only [notLow, notHigh, Bool.false_eq_true, if_false]
    rfl
  · simp only [notLow, notHigh, Bool.false_eq_true, if_false]
    rfl

theorem pieces_escapeLetter (letter : Char) (text : List Char) :
    ∃ piece, pieces (Json.escapeLetter letter ++ text) =
        (piece :: (pieces text).1, (pieces text).2) ∧
      ∀ ending later, letters ending (piece :: later) =
        (letters ending later).map (letter :: ·) := by
  unfold Json.escapeLetter
  cases escaped : Json.shortEscape? letter with
  | some short =>
      obtain ⟨long, notUnit⟩ := longEscape?_of_shortEscape? escaped
      refine ⟨.escaped letter, ?_, fun _ _ => rfl⟩
      simp [pieces, long, notUnit]
  | none =>
      by_cases control : letter.toNat < 32
      · refine ⟨.unit letter.toNat text, ?_, fun ending later => ?_⟩
        · simp [pieces, control, hexUnit?_of_control control]
        · rw [letters_unit control, Char.ofNat_toNat]
      · have plain : letter ≠ '"' ∧ letter ≠ '\\' := by
          constructor <;> (rintro rfl; cases escaped)
        refine ⟨.letter letter, ?_, fun _ _ => rfl⟩
        simp [pieces, control, plain]

/-- The text between the quotes ends at the second one, and its letters are those written. -/
theorem pieces_stringText (text rest : List Char) :
    ∃ found, pieces (text.flatMap Json.escapeLetter ++ '"' :: rest) = (found, .closed rest) ∧
      letters (.closed rest) found = .ok text := by
  induction text with
  | nil => exact ⟨[], by simp [pieces], rfl⟩
  | cons letter text ih =>
      obtain ⟨found, read, same⟩ := ih
      obtain ⟨piece, first, alone⟩ :=
        pieces_escapeLetter letter (text.flatMap Json.escapeLetter ++ '"' :: rest)
      refine ⟨piece :: found, ?_, ?_⟩
      · rw [List.flatMap_cons, List.append_assoc, first, read]
      · rw [alone, same]
        rfl

end JsonQuoted

/-- A written string is cut off as one token, whatever follows it. -/
theorem JsonToken.cut_stringText (text : String) (rest : List Char) :
    cut (Json.stringText text ++ rest) =
      (.string (.ok text), Json.stringText text ++ rest, rest) :: cut rest := by
  obtain ⟨found, read, same⟩ := JsonQuoted.pieces_stringText text.toList rest
  have whole : Json.stringText text ++ rest =
      '"' :: (text.toList.flatMap Json.escapeLetter ++ '"' :: rest) := by
    simp [Json.stringText]
  have first : first '"' (text.toList.flatMap Json.escapeLetter ++ '"' :: rest) =
      (.string (.ok text), rest) := by
    simp [JsonToken.first, punctuation?, ofString, read, same, Except.map]
  rw [whole, cut, first]
  rfl

end RelationalLayout
