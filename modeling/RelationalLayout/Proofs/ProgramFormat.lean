/-
The format of a program text is never guessed wrong.

JSON and program text have the same four blanks, which are white space of any script. A JSON
text that is an array has its bracket behind nothing but them. A program text has no bracket
outside of quotes and comments, and no other white space there. So a text whose first visible
letter is a bracket can only be JSON, and any other text can only be program text.

So a program is loaded from either of its texts: from its rules as it is, and from its JSON text
with each distance read for itself.
-/

import RelationalLayout.Proofs.Document.Distance
import RelationalLayout.Proofs.Text.Acceptance

namespace RelationalLayout

/-! ### Arrays start with their bracket -/

def JsonFrame.isObject : JsonFrame → Bool
  | .array _ _ => false
  | .object _ _ _ => true

def WrittenJson.isArray : WrittenJson → Bool
  | .array _ _ => true
  | _ => false

/-- The outermost of some open containers is an object. -/
def InObject (frames : List JsonFrame) : Prop := frames.getLast?.any JsonFrame.isObject = true

theorem inObject_cons_cons {inner outer : JsonFrame} {frames : List JsonFrame} :
    InObject (inner :: outer :: frames) ↔ InObject (outer :: frames) := by
  rw [InObject, List.getLast?_cons_cons, InObject]

theorem InObject.of_isObject {inner other : JsonFrame} {outer : List JsonFrame}
    (inside : InObject (inner :: outer)) (same : inner.isObject = other.isObject) :
    InObject (other :: outer) := by
  cases outer with
  | nil => exact same.symm.trans inside
  | cons next outer => exact inObject_cons_cons.mpr (inObject_cons_cons.mp inside)

def JsonProgress.NoArray : JsonProgress → Prop
  | .reading reader => InObject reader.frames
  | .complete value => value.isArray = false
  | .stopped value => value.isArray = false

namespace JsonReader

theorem noArray_place {frames : List JsonFrame} (inside : InObject frames) (value : WrittenJson) :
    (place frames value).NoArray := by
  cases frames with
  | nil => cases inside
  | cons frame outer => cases frame <;> exact InObject.of_isObject inside rfl

theorem noArray_stopAround {frames : List JsonFrame} (inside : InObject frames)
    (text : List Char) (value : WrittenJson) : (stopAround text value frames).NoArray := by
  induction frames generalizing value with
  | nil => cases inside
  | cons frame outer ih =>
      cases outer with
      | nil =>
          cases frame with
          | array start earlier => cases inside
          | object start earlier key => rfl
      | cons next outer =>
          have around := ih (inObject_cons_cons.mp inside)
          cases frame <;> exact around _

theorem noArray_stopBetween {reader : JsonReader} (inside : InObject reader.frames)
    (start text : List Char) (stop : JsonBreak) : (reader.stopBetween start text stop).NoArray := by
  obtain ⟨frames, wait⟩ := reader
  cases frames with
  | nil => cases inside
  | cons frame outer =>
      cases outer with
      | nil =>
          cases frame with
          | array opening earlier => cases inside
          | object opening earlier key => rfl
      | cons next outer =>
          have around := noArray_stopAround (inObject_cons_cons.mp inside) text
          cases frame <;> exact around _

theorem noArray_closeFrame {reader : JsonReader} (inside : InObject reader.frames)
    (token : JsonToken) (text rest : List Char) : (reader.closeFrame token text rest).NoArray := by
  unfold closeFrame
  split
  · rename_i start earlier outer frames
    rw [frames] at inside
    cases outer with
    | nil => cases inside
    | cons next outer => exact noArray_place (inObject_cons_cons.mp inside) _
  · rename_i start earlier key outer frames
    rw [frames] at inside
    cases outer with
    | nil => rfl
    | cons next outer => exact noArray_place (inObject_cons_cons.mp inside) _
  · exact noArray_stopBetween inside _ _ _

theorem noArray_readValue {reader : JsonReader} (inside : InObject reader.frames)
    (token : JsonToken) (text rest : List Char) : (reader.readValue token text rest).NoArray := by
  have opened (frame : JsonFrame) (wait : JsonWait) : (reader.openFrame frame wait).NoArray := by
    obtain ⟨frames, due⟩ := reader
    cases frames with
    | nil => cases inside
    | cons outer frames => exact inObject_cons_cons.mpr inside
  cases token with
  | openArray => exact opened _ _
  | openObject => exact opened _ _
  | string value => exact noArray_place inside _
  | scalar value => exact noArray_place inside _
  | _ => exact noArray_stopAround inside _ _

theorem noArray_readKey {reader : JsonReader} (inside : InObject reader.frames)
    (start : List Char) (token : JsonToken) (text : List Char) :
    (reader.readKey start token text).NoArray := by
  cases token with
  | string key => exact inside
  | _ => exact noArray_stopBetween inside _ _ _

theorem noArray_readColon {reader : JsonReader} (inside : InObject reader.frames)
    (start : List Char) (key : Except JsonFault String) (token : JsonToken)
    (text rest : List Char) : (reader.readColon start key token text rest).NoArray := by
  unfold readColon
  split
  · rename_i opening earlier before outer frames
    rw [frames] at inside
    have renamed (key : JsonKey) : InObject (.object opening earlier key :: outer) :=
      InObject.of_isObject inside rfl
    cases token with
    | colon => exact renamed _
    | _ => exact noArray_stopAround (renamed _) _ _
  · exact noArray_stopBetween inside _ _ _

/-- A step inside an object stays in it, or ends with a value that is no array. -/
theorem noArray_step {reader : JsonReader} (inside : InObject reader.frames) (token : JsonToken)
    (text rest : List Char) : (reader.step token text rest).NoArray := by
  unfold step
  split
  · exact noArray_readValue inside _ _ _
  · exact noArray_closeFrame inside _ _ _
  · exact noArray_readValue inside _ _ _
  · exact noArray_closeFrame inside _ _ _
  · exact noArray_readKey inside _ _ _
  · exact noArray_readKey inside _ _ _
  · exact noArray_readColon inside _ _ _ _ _
  · exact inside
  · exact noArray_closeFrame inside _ _ _

theorem noArray_finish {reader : JsonReader} (inside : InObject reader.frames) :
    reader.finish.NoArray := by
  unfold finish
  split
  · exact noArray_stopAround inside _ _
  · exact noArray_stopBetween inside _ _ _
  · exact noArray_readColon inside _ _ _ _ _
  · exact noArray_stopBetween inside _ _ _

theorem isArray_run {reader : JsonReader} (inside : InObject reader.frames)
    (tokens : List (JsonToken × List Char × List Char)) :
    (reader.run tokens).1.isArray = false := by
  induction tokens generalizing reader with
  | nil =>
      have ends := noArray_finish inside
      rw [run]
      split
      · rename_i value stops
        rw [stops] at ends
        exact ends
      · rfl
  | cons token later ih =>
      obtain ⟨token, text, rest⟩ := token
      have steps := noArray_step inside token text rest
      rw [run]
      split
      · rename_i next reads
        rw [reads] at steps
        exact ih steps
      · rename_i value stops
        rw [stops] at steps
        exact steps
      · rename_i value completes
        rw [completes] at steps
        split <;> exact steps

theorem exists_openArray_of_run {tokens : List (JsonToken × List Char × List Char)}
    (isArray : (start.run tokens).1.isArray = true) :
    ∃ text rest later, tokens = (.openArray, text, rest) :: later := by
  cases tokens with
  | nil => cases isArray
  | cons token later =>
      obtain ⟨token, text, rest⟩ := token
      cases token with
      | openArray => exact ⟨text, rest, later, rfl⟩
      | openObject =>
          let reader : JsonReader := { frames := [.object text [] default], wait := .firstKey }
          have inside : InObject reader.frames := rfl
          exact absurd isArray (Bool.eq_false_iff.mp (isArray_run inside later))
      | string _ => cases later <;> cases isArray
      | scalar _ => cases later <;> cases isArray
      | _ => cases isArray

end JsonReader

namespace JsonToken

theorem ofString_ne_openArray (text : List Char) : (ofString text).1 ≠ .openArray := by
  intro opens
  unfold ofString at opens
  split at opens
  · cases opens
  · split at opens <;> cases opens

theorem ofNumber_ne_openArray (negative : Bool) (text : List Char) :
    (ofNumber negative text).1 ≠ .openArray := by
  intro opens
  unfold ofNumber at opens
  split at opens <;> cases opens

theorem literal_ne_openArray (value : Json) (expected text : List Char) :
    (literal value expected text).1 ≠ .openArray := by
  intro opens
  induction expected generalizing text with
  | nil => cases opens
  | cons letter expected ih =>
      cases text with
      | nil => cases opens
      | cons actual rest =>
          unfold literal at opens
          split at opens
          · exact ih rest opens
          · cases opens

theorem eq_bracket_of_first {letter : Char} {rest : List Char}
    (opens : (first letter rest).1 = .openArray) : letter = '[' := by
  unfold first at opens
  split at opens
  · rename_i mark
    unfold punctuation? at mark
    split at mark <;> cases mark <;> first | rfl | cases opens
  · split at opens
    · exact absurd opens (ofString_ne_openArray rest)
    · split at opens
      · exact absurd opens (ofNumber_ne_openArray true rest)
      · split at opens
        · exact absurd opens (ofNumber_ne_openArray false _)
        · split at opens
          · exact absurd opens (literal_ne_openArray _ _ rest)
          · cases opens

theorem isWhiteSpace_of_isBlank {letter : Char} (blank : isBlank letter = true) :
    isWhiteSpace letter = true := by
  rcases eq_of_isBlank blank with rfl | rfl | rfl | rfl <;> decide

theorem firstIs_bracket_of_cut {source text rest : List Char}
    {later : List (JsonToken × List Char × List Char)}
    (opens : cut source = (.openArray, text, rest) :: later) :
    Lexeme.firstIs (· = '[') (source.dropWhile isWhiteSpace) = true := by
  induction source with
  | nil =>
      rw [cut] at opens
      cases opens
  | cons letter source ih =>
      rw [cut] at opens
      split at opens
      · rename_i blank
        rw [List.dropWhile_cons_of_pos (isWhiteSpace_of_isBlank blank)]
        exact ih opens
      · have bracket : letter = '[' := by
          apply eq_bracket_of_first
          exact congrArg Prod.fst (List.cons.inj opens).1
        subst bracket
        rfl

end JsonToken

/-- A document that is read as a program is taken for one. -/
theorem isJsonProgram_of_readDocument {source : String} {program : Program}
    (read : readDocument Program.decode source = .ok program) : isJsonProgram source = true := by
  have isArray : (readJson source.toList).1.isArray = true := by
    unfold readDocument at read
    generalize readJson source.toList = result at read ⊢
    obtain ⟨document, trailing⟩ := result
    cases document with
    | array start items => rfl
    | scalar start value rest => cases value <;> cases read
    | _ => cases read
  obtain ⟨text, rest, later, opens⟩ := JsonReader.exists_openArray_of_run isArray
  exact JsonToken.firstIs_bracket_of_cut opens

/-! ### No program text starts with a bracket -/

namespace Lexeme

theorem noWord_of_isWhiteSpace {letter : Char} (white : isWhiteSpace letter = true) :
    startsWord letter = false ∧ letter.isDigit = false := by
  have place : (9 ≤ letter.toNat ∧ letter.toNat ≤ 13) ∨ letter.toNat = 32 ∨ 127 < letter.toNat := by
    simp only [isWhiteSpace, List.mem_cons, List.not_mem_nil, or_false, Bool.or_eq_true,
      Bool.and_eq_true, decide_eq_true_eq] at white
    omega
  constructor
  · apply Bool.eq_false_iff.mpr
    intro starts
    unfold startsWord Char.isAlpha Char.isUpper Char.isLower at starts
    simp only [Bool.or_eq_true, Bool.and_eq_true, decide_eq_true_eq,
      UInt32.le_iff_toNat_le] at starts
    rcases starts with (⟨least, most⟩ | ⟨least, most⟩) | rfl
    · change 65 ≤ letter.toNat at least
      change letter.toNat ≤ 90 at most
      omega
    · change 97 ≤ letter.toNat at least
      change letter.toNat ≤ 122 at most
      omega
    · revert place
      decide
  · apply Bool.eq_false_iff.mpr
    intro digit
    simp only [Char.isDigit, Bool.and_eq_true, decide_eq_true_eq, UInt32.le_iff_toNat_le] at digit
    obtain ⟨least, most⟩ := digit
    change 48 ≤ letter.toNat at least
    change letter.toNat ≤ 57 at most
    omega

/-- White space is only skipped when it is a blank. -/
theorem first_of_isWhiteSpace {letter : Char} (white : isWhiteSpace letter = true)
    (noBlank : isBlank letter = false) (rest : List Char) :
    first letter rest = .unrecognized [letter] := by
  obtain ⟨noWord, noDigit⟩ := noWord_of_isWhiteSpace white
  have other (mark : Char) (visible : isWhiteSpace mark = false) : letter ≠ mark := by
    rintro rfl
    cases white.symm.trans visible
  have noMark : mark? letter = none := by
    simp [mark?, other '(' rfl, other ')' rfl, other ',' rfl, other ':' rfl]
  simp [first, noBlank, noWord, noDigit, noMark, other '/' rfl, other '"' rfl, other '-' rfl]

theorem isBlank_eq (letter : Char) : isBlank letter = JsonToken.isBlank letter := by
  rw [isBlank, JsonToken.isBlank, Bool.or_right_comm (decide (letter = ' '))]

/-- Behind the blanks, either the bracket itself or white space before it is no token. -/
theorem exists_unrecognized_behind {text : List Char}
    (bracket : firstIs (· = '[') (text.dropWhile isWhiteSpace) = true) :
    ∃ stretch, .unrecognized stretch ∈ cut (text.dropWhile isBlank) := by
  induction text with
  | nil => cases bracket
  | cons letter rest ih =>
      cases blank : isBlank letter with
      | true =>
          have white := JsonToken.isWhiteSpace_of_isBlank ((isBlank_eq letter).symm.trans blank)
          rw [List.dropWhile_cons_of_pos white] at bracket
          rw [List.dropWhile_cons_of_pos blank]
          exact ih bracket
      | false =>
          have stray : first letter rest = .unrecognized [letter] := by
            cases white : isWhiteSpace letter with
            | true => exact first_of_isWhiteSpace white blank rest
            | false =>
                rw [List.dropWhile_cons_of_neg (by simp [white])] at bracket
                cases of_decide_eq_true bracket
                rfl
          obtain ⟨_, behind, _, _, cuts⟩ := cut_cons_first letter rest
          rw [List.dropWhile_cons_of_neg (by simp [blank]), cuts, stray]
          exact ⟨[letter], List.mem_cons_self⟩

theorem mem_cut_of_mem_cut_dropBlanks {text : List Char} {lexeme : Lexeme}
    (member : lexeme ∈ cut (text.dropWhile isBlank)) : lexeme ∈ cut text := by
  cases text with
  | nil => exact member
  | cons letter rest =>
      rw [List.dropWhile_cons] at member
      split at member
      · rename_i blank
        rw [Written.cut_blank blank]
        exact List.mem_cons_of_mem _ member
      · exact member

end Lexeme

theorem isJsonProgram_eq_false_of_readProgram {source : String} {program : Program}
    (read : readProgram source = .ok program) : isJsonProgram source = false := by
  obtain ⟨placed, tokenized, _⟩ := readProgram_eq_ok_iff_run.mp read
  have recognized :=
    (unrecognizedStretches_place_eq_nil_iff 0).mp (readTokens_eq_ok_iff.mp tokenized).1
  apply Bool.eq_false_iff.mpr
  intro bracket
  obtain ⟨stretch, behind⟩ := Lexeme.exists_unrecognized_behind bracket
  exact recognized _ (Lexeme.mem_cut_of_mem_cut_dropBlanks behind) stretch rfl

/-! ### Programs in either format -/

theorem loadProgram_eq_ok_iff {path source : String} {program : Program} :
    loadProgram path source = .ok program ↔
      readProgram source = .ok program ∨ readDocument Program.decode source = .ok program := by
  cases format : isJsonProgram source with
  | true =>
      have noText : readProgram source ≠ .ok program := by
        intro read
        cases format.symm.trans (isJsonProgram_eq_false_of_readProgram read)
      rw [loadProgram, if_pos format, loadDocument, or_iff_right noText]
      cases readDocument Program.decode source <;> simp
  | false =>
      have noDocument : readDocument Program.decode source ≠ .ok program := by
        intro read
        cases format.symm.trans (isJsonProgram_of_readDocument read)
      rw [loadProgram, if_neg (Bool.eq_false_iff.mp format), or_iff_left noDocument]
      cases readProgram source <;> simp

theorem loadProgram_reread {program : Program} (finite : ∀ rule ∈ program, rule.DistancesFinite)
    (nesting : (Program.document program).depth ≤ JsonReader.depthLimit) (path : String) :
    loadProgram path (Program.document program).compact =
      .ok (program.map (Rule.mapDistance Json.reread)) :=
  loadProgram_eq_ok_iff.mpr (Or.inr (Program.readDocument_reread finite nesting))

theorem loadProgram_compact_iff {program : Program}
    (finite : ∀ rule ∈ program, rule.DistancesFinite)
    (nesting : (Program.document program).depth ≤ JsonReader.depthLimit) (path : String) :
    loadProgram path (Program.document program).compact = .ok program ↔
      ∀ rule ∈ program, rule.DistancesReadBack := by
  rw [loadProgram_reread finite nesting, Except.ok.injEq]
  exact Program.map_reread_eq_self_iff finite

/-- A text is a program in one format or the other, never in both, and it is loaded as what it is
in its own format. A program with finite distances is loaded from the text of its rules as it is,
and from its JSON text, unless that is nested too deep, with each distance as it is read alone:
it is the same program just when all of them are read back. -/
theorem loadProgram_either_format (path source : String) (program : Program) :
    (loadProgram path source = .ok program ↔
      readProgram source = .ok program ∨ readDocument Program.decode source = .ok program) ∧
    (readProgram source = .ok program → ∀ other, readDocument Program.decode source ≠ .ok other) ∧
    ((∀ rule ∈ program, rule.DistancesFinite) →
      loadProgram path (Program.text program) = .ok program ∧
      ((Program.document program).depth ≤ JsonReader.depthLimit →
        loadProgram path (Program.document program).compact =
            .ok (program.map (Rule.mapDistance Json.reread)) ∧
          (loadProgram path (Program.document program).compact = .ok program ↔
            ∀ rule ∈ program, rule.DistancesReadBack))) := by
  refine ⟨loadProgram_eq_ok_iff, fun read other readToo => ?_, fun finite => ⟨?_, fun nesting =>
    ⟨loadProgram_reread finite nesting path, loadProgram_compact_iff finite nesting path⟩⟩⟩
  · have text := isJsonProgram_eq_false_of_readProgram read
    cases text.symm.trans (isJsonProgram_of_readDocument readToo)
  · have read := readProgram_of_spells (Program.spells_text program finite)
    exact loadProgram_eq_ok_iff.mpr (Or.inl read)

theorem loadProgram_either_format_awkward :
    loadProgram "" (Program.text awkwardProgram) = .ok awkwardProgram ∧
      loadProgram "" (Program.document awkwardProgram).compact = .ok awkwardProgram ∧
      readDocument Program.decode (Program.text awkwardProgram) ≠ .ok awkwardProgram := by
  obtain ⟨_, apart, formats⟩ :=
    loadProgram_either_format "" (Program.text awkwardProgram) awkwardProgram
  have finite : ∀ rule ∈ awkwardProgram, rule.DistancesFinite := by decide +kernel
  have nesting : (Program.document awkwardProgram).depth ≤ JsonReader.depthLimit := by decide +kernel
  have readsBack : ∀ rule ∈ awkwardProgram, rule.DistancesReadBack := by decide +kernel
  obtain ⟨text, document⟩ := formats finite
  obtain ⟨_, exact⟩ := document nesting
  have read := readProgram_of_spells (Program.spells_text awkwardProgram finite)
  exact ⟨text, exact.mpr readsBack, apart read awkwardProgram⟩

/-- Seventeen digits are more than are read exactly. -/
theorem not_loadProgram_compact_inexact :
    let rule : Rule :=
      { chain := { first := .signature "v0" "A", rest := [] }
        terminal := .unary .leftOfCenter (.atLeast 31.245270191439438) "v0" }
    rule.DistancesFinite ∧ (Program.document [rule]).depth ≤ JsonReader.depthLimit ∧
      loadProgram "p.json" (Program.document [rule]).compact ≠ .ok [rule] := by
  intro rule
  have finite : rule.DistancesFinite := by decide +kernel
  have nesting : (Program.document [rule]).depth ≤ JsonReader.depthLimit := by decide +kernel
  have inexact : ¬rule.DistancesReadBack := by decide +kernel
  refine ⟨finite, nesting, fun loads => ?_⟩
  rw [loadProgram_compact_iff (List.forall_mem_singleton.mpr finite) nesting] at loads
  exact inexact (List.forall_mem_singleton.mp loads)

end RelationalLayout
