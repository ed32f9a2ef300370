/-
Names in program text.

Whatever letters a name has, what is written for it is read as that one identifier, from
the first byte of the text to the last. Quotes stand only around names that need them:
those that are no word, and those that are reserved.
-/

import RelationalLayout.Proofs.Text.Program

namespace RelationalLayout

open Lexeme

/-! ### Words -/

def IsWordStart (letter : Char) : Prop :=
  'a' ≤ letter ∧ letter ≤ 'z' ∨ 'A' ≤ letter ∧ letter ≤ 'Z' ∨ letter = '_'

def IsWordLetter (letter : Char) : Prop :=
  IsWordStart letter ∨ '0' ≤ letter ∧ letter ≤ '9' ∨ letter = '$' ∨ letter = '/'

theorem startsWord_iff {letter : Char} : startsWord letter = true ↔ IsWordStart letter := by
  have spelled : startsWord letter = (decide ('A' ≤ letter ∧ letter ≤ 'Z') ||
      (decide ('a' ≤ letter) && decide (letter ≤ 'z')) || decide (letter = '_')) := rfl
  rw [spelled, IsWordStart]
  simp only [Bool.or_eq_true, Bool.and_eq_true, decide_eq_true_eq]
  tauto

theorem continuesWord_iff {letter : Char} : continuesWord letter = true ↔ IsWordLetter letter := by
  have spelled : continuesWord letter = (startsWord letter ||
      (decide ('0' ≤ letter) && decide (letter ≤ '9')) || decide (letter = '$') ||
      decide (letter = '/')) := rfl
  rw [spelled, IsWordLetter]
  simp only [Bool.or_eq_true, Bool.and_eq_true, decide_eq_true_eq, startsWord_iff, or_assoc]

theorem isWord_iff {text : List Char} :
    isWord text = true ↔
      ∃ letter rest, text = letter :: rest ∧ IsWordStart letter ∧
        ∀ other ∈ rest, IsWordLetter other := by
  cases text with
  | nil => simp [isWord]
  | cons letter rest =>
      rw [isWord, Bool.and_eq_true, startsWord_iff, List.all_eq_true]
      simp only [continuesWord_iff]
      constructor
      · exact fun given => ⟨letter, rest, rfl, given⟩
      · rintro ⟨_, _, same, given⟩
        obtain ⟨rfl, rfl⟩ := List.cons.inj same
        exact given

structure IsUnreserved (word : String) : Prop where
  keyword : ∀ keyword : Keyword, keyword.name ≠ word
  unary : ∀ option : UnaryOption, option.name ≠ word
  binary : ∀ option : BinaryOption, option.name ≠ word
  cyclic : ∀ option : CyclicOption, option.name ≠ word

theorem Token.ofWord_eq_identifier_iff {word : String} :
    Token.ofWord word = .identifier word ↔ IsUnreserved word := by
  constructor
  · intro itself
    constructor
    · rintro keyword rfl
      cases (ofWord_keyword keyword).symm.trans itself
    · rintro option rfl
      cases (ofWord_unary option).symm.trans itself
    · rintro option rfl
      cases (ofWord_binary option).symm.trans itself
    · rintro option rfl
      cases (ofWord_cyclic option).symm.trans itself
  · intro unreserved
    rw [ofWord]
    cases found : reserved.lookup word with
    | none => rfl
    | some token =>
        have member := SortedMap.mem_of_lookup_eq_some found
        simp only [reserved, List.mem_append, List.mem_map, Prod.mk.injEq] at member
        rcases member with ((⟨keyword, _, same, _⟩ | ⟨option, _, same, _⟩) | ⟨option, _, same, _⟩) |
          ⟨option, _, same, _⟩
        · exact absurd same (unreserved.keyword keyword)
        · exact absurd same (unreserved.unary option)
        · exact absurd same (unreserved.binary option)
        · exact absurd same (unreserved.cyclic option)

/-! ### Written names -/

namespace Name

def escaped (letter : Char) : List Char :=
  if letter = '"' ∨ letter = '\\' then ['\\', letter] else [letter]

theorem escape_eq_flatMap (letters : List Char) : escape letters = letters.flatMap escaped := by
  induction letters with
  | nil => rfl
  | cons letter rest ih =>
      rw [escape, List.flatMap_cons, escaped, ← ih]
      split
      · rfl
      · rfl

theorem render_of_not_isBare {name : String} (quoted : isBare name = false) :
    render name = String.ofList ('"' :: (name.toList.flatMap escaped ++ ['"'])) := by
  rw [render, quoted, if_neg Bool.false_ne_true, escape_eq_flatMap]

theorem length_le_length_flatMap_escaped (letters : List Char) :
    letters.length ≤ (letters.flatMap escaped).length := by
  induction letters with
  | nil => exact Nat.le_refl 0
  | cons letter rest ih =>
      rw [List.flatMap_cons, List.length_append, escaped, List.length_cons]
      split <;> simp only [List.length_cons, List.length_nil] <;> omega

theorem render_eq_self_iff {name : String} : render name = name ↔ isBare name = true := by
  constructor
  · intro same
    by_contra quoted
    rw [render_of_not_isBare (Bool.eq_false_iff.mpr quoted)] at same
    have lengths := congrArg (fun text => text.toList.length) same
    have longer := length_le_length_flatMap_escaped name.toList
    simp only [String.toList_ofList, List.length_cons, List.length_append] at lengths
    omega
  · intro bare
    rw [render, if_pos bare]

theorem cut_render (name : String) :
    cut (render name).toList = [.token (.identifier name) (render name).toList] := by
  obtain ⟨letter, tail, same, read⟩ := Begins.name name ends_nil
  have cuts := cut_cons read rfl
  rw [← same, List.append_nil, cut] at cuts
  rw [List.append_nil, List.append_nil] at same
  rw [cuts, same]

/-- Every name is written as one identifier, quoted unless it is an unreserved word. -/
theorem render_exact (name : String) :
    readTokens (render name) =
        .ok [(.identifier name, { start := 0, stop := byteWidth (render name).toList })] ∧
      (render name = name ↔
        (∃ letter rest, name.toList = letter :: rest ∧ IsWordStart letter ∧
          ∀ other ∈ rest, IsWordLetter other) ∧ IsUnreserved name) ∧
      (render name ≠ name →
        render name = String.ofList ('"' :: (name.toList.flatMap escaped ++ ['"']))) := by
  refine ⟨?_, ?_, fun quoted => ?_⟩
  · rw [readTokens, cut_render]
    simp only [place, Nat.zero_add, Lexeme.text]
    rfl
  · rw [render_eq_self_iff, isBare_iff, isWord_iff, Token.ofWord_eq_identifier_iff]
  · exact render_of_not_isBare (Bool.eq_false_iff.mpr (mt render_eq_self_iff.mpr quoted))

theorem render_exact_inner_quote :
    render "a\"\\" ≠ "a\"\\" ∧ render "a\"\\" = "\"a\\\"\\\\\"" := by
  have quoted : render "a\"\\" ≠ "a\"\\" := by decide +kernel
  exact ⟨quoted, ((render_exact _).2.2 quoted).trans (by decide +kernel)⟩

end Name

end RelationalLayout
