/-
Cutting a text that was written token by token.

The lexemes of a text partition it, whatever the text is. A text that starts with
a word, a quoted name, a numeral or a mark starts with that token, provided that
what follows cannot be swallowed by it.
-/

import RelationalLayout.Proofs.SortedMap
import RelationalLayout.Text.Lexeme

namespace RelationalLayout

/-! ### Reserved words -/

namespace Token

def isReserved : Token → Bool
  | .keyword _ => true
  | .unary _ => true
  | .binary _ => true
  | .cyclic _ => true
  | _ => false

theorem isReserved_of_mem_reserved {entry : String × Token} (member : entry ∈ reserved) :
    entry.2.isReserved = true := by
  simp only [reserved, List.mem_append, List.mem_map] at member
  rcases member with ((⟨word, _, rfl⟩ | ⟨option, _, rfl⟩) | ⟨option, _, rfl⟩) | ⟨option, _, rfl⟩ <;>
    rfl

theorem ofWord_cases (word : String) :
    (ofWord word).isReserved = true ∨ ofWord word = .identifier word := by
  unfold ofWord
  cases found : reserved.lookup word with
  | none => exact Or.inr rfl
  | some token =>
      exact Or.inl (isReserved_of_mem_reserved (SortedMap.mem_of_lookup_eq_some found))

theorem eq_of_ofWord_eq_identifier {word name : String} (read : ofWord word = .identifier name) :
    name = word := by
  rcases ofWord_cases word with isReserved | itself
  · rw [read] at isReserved
    cases isReserved
  · rw [read] at itself
    exact Token.identifier.inj itself

theorem ofWord_ne_number (word : String) (value : Float) : ofWord word ≠ .number value := by
  intro read
  rcases ofWord_cases word with isReserved | itself
  · rw [read] at isReserved
    cases isReserved
  · rw [read] at itself
    cases itself

theorem ofWord_keyword (word : Keyword) : ofWord word.name = .keyword word := by
  cases word <;> rfl

theorem ofWord_unary (option : UnaryOption) : ofWord option.name = .unary option := by
  cases option <;> rfl

theorem ofWord_binary (option : BinaryOption) : ofWord option.name = .binary option := by
  cases option <;> rfl

theorem ofWord_cyclic (option : CyclicOption) : ofWord option.name = .cyclic option := by
  cases option <;> rfl

end Token

namespace Lexeme

/-! ### Every text is the sequence of its lexemes -/

theorem quoted_fst_isPrefix (text : List Char) : (quoted text).1 <+: text := by
  fun_induction quoted text with
  | case1 => exact List.prefix_rfl
  | case2 rest => exact ⟨rest, rfl⟩
  | case3 => exact List.nil_prefix
  | case4 escaped rest _ stretch name read ih =>
      rw [read] at ih
      exact (List.prefix_cons_inj _).mpr ((List.prefix_cons_inj _).mpr ih)
  | case5 => exact List.nil_prefix
  | case6 letter rest _ _ _ stretch name read ih =>
      rw [read] at ih
      exact (List.prefix_cons_inj _).mpr ih

theorem fractionDigits_eq_nil_or (text : List Char) :
    fractionDigits text = [] ∨ '.' :: fractionDigits text <+: text := by
  cases text with
  | nil => exact Or.inl rfl
  | cons letter rest =>
      by_cases point : letter = '.'
      · subst point
        exact Or.inr ((List.prefix_cons_inj _).mpr (List.takeWhile_prefix _))
      · refine Or.inl ?_
        unfold fractionDigits
        split
        · rename_i same
          exact absurd (List.cons.inj same).1 point
        · rfl

theorem numeral_fst_isPrefix (text : List Char) : (numeral text).1 <+: text := by
  have whole := List.takeWhile_append_dropWhile (p := Char.isDigit) (l := text)
  simp only [numeral]
  rcases fractionDigits_eq_nil_or (text.dropWhile Char.isDigit) with none | ⟨rest, some⟩
  · rw [none, List.isEmpty_nil, if_pos rfl]
    exact List.takeWhile_prefix _
  · split
    · exact List.takeWhile_prefix _
    · refine ⟨rest, ?_⟩
      rw [List.append_assoc, some, whole]

theorem numeral_fst_ne_nil {letter : Char} (digit : letter.isDigit = true) (rest : List Char) :
    ∃ tail, (numeral (letter :: rest)).1 = letter :: tail := by
  simp only [numeral, List.takeWhile_cons, digit, if_true]
  split
  · exact ⟨_, rfl⟩
  · exact ⟨_, rfl⟩

theorem text_first (letter : Char) (rest : List Char) :
    ∃ tail, (first letter rest).text = letter :: tail ∧ tail <+: rest := by
  unfold first
  split
  · exact ⟨_, rfl, List.takeWhile_prefix _⟩
  split
  · exact ⟨_, rfl, List.takeWhile_prefix _⟩
  split
  · exact ⟨_, rfl, List.takeWhile_prefix _⟩
  split
  · have stretch := quoted_fst_isPrefix rest
    split
    · rename_i read
      rw [read] at stretch
      exact ⟨_, rfl, stretch⟩
    · rename_i read
      rw [read] at stretch
      exact ⟨_, rfl, stretch⟩
  split
  · rename_i digit
    obtain ⟨tail, starts⟩ := numeral_fst_ne_nil digit rest
    have stretch := numeral_fst_isPrefix (letter :: rest)
    rw [starts] at stretch
    exact ⟨tail, starts, (List.prefix_cons_inj _).mp stretch⟩
  split
  · exact ⟨_, rfl, numeral_fst_isPrefix rest⟩
  split
  · exact ⟨[], rfl, List.nil_prefix⟩
  · exact ⟨[], rfl, List.nil_prefix⟩

theorem cut_cons {letter : Char} {tail rest : List Char} {lexeme : Lexeme}
    (read : first letter (tail ++ rest) = lexeme) (spelled : lexeme.text = letter :: tail) :
    cut (letter :: tail ++ rest) = lexeme :: cut rest := by
  rw [List.cons_append, cut, read, spelled, List.length_cons, Nat.add_sub_cancel, List.drop_left]

theorem cut_cons_first (letter : Char) (rest : List Char) :
    ∃ tail behind, rest = tail ++ behind ∧ (first letter rest).text = letter :: tail ∧
      cut (letter :: rest) = first letter rest :: cut behind := by
  obtain ⟨tail, spelled, behind, split⟩ := text_first letter rest
  refine ⟨tail, behind, split.symm, spelled, ?_⟩
  rw [← split] at spelled ⊢
  exact cut_cons rfl spelled

theorem flatMap_text_cut (text : List Char) : (cut text).flatMap Lexeme.text = text := by
  induction length : text.length using Nat.strongRecOn generalizing text with
  | ind size ih =>
      cases text with
      | nil => rw [cut, List.flatMap_nil]
      | cons letter rest =>
          obtain ⟨tail, behind, split, spelled, cuts⟩ := cut_cons_first letter rest
          have shorter : behind.length < size := by
            rw [← length, split, List.length_cons, List.length_append]
            omega
          rw [cuts, List.flatMap_cons, spelled, ih _ shorter behind rfl, split, List.cons_append]

theorem exists_first_of_mem_cut {text : List Char} {lexeme : Lexeme} (member : lexeme ∈ cut text) :
    ∃ letter rest, lexeme = first letter rest := by
  induction length : text.length using Nat.strongRecOn generalizing text with
  | ind size ih =>
      cases text with
      | nil =>
          rw [cut] at member
          cases member
      | cons letter rest =>
          obtain ⟨tail, behind, split, _, cuts⟩ := cut_cons_first letter rest
          have shorter : behind.length < size := by
            rw [← length, split, List.length_cons, List.length_append]
            omega
          rw [cuts] at member
          rcases List.mem_cons.mp member with here | later
          · exact ⟨letter, rest, here⟩
          · exact ih _ shorter later rfl

/-! ### Tokens with something behind them -/

/-- Nothing at the start of a text can be swallowed by a token before it. -/
def Ends (text : List Char) : Prop :=
  ∀ letter ∈ text.head?, continuesWord letter = false ∧ letter ≠ '.'

theorem ends_nil : Ends [] := by
  intro letter atHead
  cases atHead

theorem ends_cons {letter : Char} (stops : continuesWord letter = false) (noPoint : letter ≠ '.')
    (rest : List Char) : Ends (letter :: rest) := by
  intro found atHead
  cases atHead
  exact ⟨stops, noPoint⟩

theorem takeWhile_append_of_all {test : Char → Bool} {text rest : List Char}
    (all : ∀ letter ∈ text, test letter = true)
    (stops : ∀ letter ∈ rest.head?, test letter = false) :
    (text ++ rest).takeWhile test = text := by
  rw [List.takeWhile_append_of_pos all]
  cases rest with
  | nil => rw [List.takeWhile_nil, List.append_nil]
  | cons letter behind =>
      rw [List.takeWhile_cons, stops letter rfl, if_neg Bool.false_ne_true, List.append_nil]

theorem dropWhile_append_of_all {test : Char → Bool} {text rest : List Char}
    (all : ∀ letter ∈ text, test letter = true)
    (stops : ∀ letter ∈ rest.head?, test letter = false) :
    (text ++ rest).dropWhile test = rest := by
  rw [List.dropWhile_append_of_pos all]
  cases rest with
  | nil => rw [List.dropWhile_nil]
  | cons letter behind =>
      rw [List.dropWhile_cons, stops letter rfl, if_neg Bool.false_ne_true]

theorem isDigit_eq_false_of_ends {rest : List Char} (ends : Ends rest) :
    ∀ letter ∈ rest.head?, letter.isDigit = false := by
  intro letter atHead
  obtain ⟨stops, -⟩ := ends letter atHead
  simp only [continuesWord, Bool.or_eq_false_iff] at stops
  exact stops.1.1.2

/-- A word is a letter or an underscore and the word letters behind it. -/
def isWord : List Char → Bool
  | [] => false
  | letter :: rest => startsWord letter && rest.all continuesWord

theorem isBlank_eq_false_of_continuesWord {letter : Char} (continues : continuesWord letter = true) :
    isBlank letter = false := by
  refine Bool.eq_false_iff.mpr (fun blank => ?_)
  simp only [isBlank, Bool.or_eq_true, decide_eq_true_eq] at blank
  rcases blank with ((rfl | rfl) | rfl) | rfl <;> revert continues <;> decide

theorem continuesWord_of_startsWord {letter : Char} (starts : startsWord letter = true) :
    continuesWord letter = true := by
  simp only [continuesWord, starts, Bool.true_or]

theorem continuesWord_of_isDigit {letter : Char} (digit : letter.isDigit = true) :
    continuesWord letter = true := by
  simp only [continuesWord, digit, Bool.or_true, Bool.true_or]

theorem first_of_startsWord {letter : Char} (starts : startsWord letter = true) (rest : List Char) :
    first letter rest =
      .token (Token.ofWord (String.ofList (letter :: rest.takeWhile continuesWord)))
        (letter :: rest.takeWhile continuesWord) := by
  have noBlank := isBlank_eq_false_of_continuesWord (continuesWord_of_startsWord starts)
  rw [first, noBlank, if_neg Bool.false_ne_true, starts, if_pos rfl]

theorem first_word {letter : Char} {tail rest : List Char} (word : isWord (letter :: tail) = true)
    (ends : Ends rest) :
    first letter (tail ++ rest) =
      .token (Token.ofWord (String.ofList (letter :: tail))) (letter :: tail) := by
  obtain ⟨starts, continues⟩ := Bool.and_eq_true_iff.mp word
  rw [first_of_startsWord starts,
    takeWhile_append_of_all (List.all_eq_true.mp continues) (fun found atHead => (ends found atHead).1)]

theorem first_quote {rest text name : List Char} (read : quoted rest = (text, some name)) :
    first '"' rest = .token (.identifier (String.ofList name)) ('"' :: text) := by
  have noBlank : isBlank '"' = false := by decide
  have noWord : startsWord '"' = false := by decide
  rw [first, noBlank, if_neg Bool.false_ne_true, noWord, if_neg Bool.false_ne_true, if_neg (by simp),
    if_pos rfl, read]

theorem first_mark {letter : Char} {mark : Token} (isMark : mark? letter = some mark)
    (rest : List Char) : first letter rest = .token mark [letter] := by
  revert isMark
  unfold mark?
  split <;> intro same <;> cases same <;> rfl

/-! ### Numerals -/

def EndsNumeral (text : List Char) : Prop :=
  ∀ letter ∈ text.head?, letter.isDigit = false ∧ letter ≠ '.'

theorem Ends.numeral {text : List Char} (ends : Ends text) : EndsNumeral text :=
  fun letter atHead => ⟨isDigit_eq_false_of_ends ends letter atHead, (ends letter atHead).2⟩

theorem fractionDigits_of_ends {rest : List Char} (ends : EndsNumeral rest) :
    fractionDigits rest = [] := by
  unfold fractionDigits
  split
  · exact absurd rfl (ends '.' rfl).2
  · rfl

theorem numeral_whole {digits rest : List Char} (whole : ∀ letter ∈ digits, letter.isDigit = true)
    (ends : EndsNumeral rest) :
    numeral (digits ++ rest) =
      (digits, ({ digits := digitsValue digits, exponent := 0 } : Decimal).nearest) := by
  have stops letter (atHead : letter ∈ rest.head?) := (ends letter atHead).1
  simp only [numeral, takeWhile_append_of_all whole stops, dropWhile_append_of_all whole stops,
    fractionDigits_of_ends ends, List.isEmpty_nil, if_true, List.append_nil, List.length_nil]
  rfl

theorem numeral_point {digits fraction rest : List Char}
    (whole : ∀ letter ∈ digits, letter.isDigit = true)
    (behind : ∀ letter ∈ fraction, letter.isDigit = true) (some : fraction ≠ [])
    (ends : EndsNumeral rest) :
    numeral (digits ++ '.' :: fraction ++ rest) =
      (digits ++ '.' :: fraction,
        ({ digits := digitsValue (digits ++ fraction), exponent := -fraction.length } :
          Decimal).nearest) := by
  have point : ∀ letter ∈ ('.' :: (fraction ++ rest)).head?, letter.isDigit = false := by
    intro letter atHead
    cases atHead
    decide
  have digitsBehind : fractionDigits ('.' :: (fraction ++ rest)) = fraction :=
    takeWhile_append_of_all behind (fun letter atHead => (ends letter atHead).1)
  have visible : fraction.isEmpty = false := List.isEmpty_eq_false_iff.mpr some
  simp only [numeral, List.append_assoc, List.cons_append, takeWhile_append_of_all whole point,
    dropWhile_append_of_all whole point, digitsBehind, visible, if_neg Bool.false_ne_true]

theorem isDigit_of_mem_fractionDigits (text : List Char) :
    ∀ letter ∈ fractionDigits text, letter.isDigit = true := by
  unfold fractionDigits
  split
  · exact List.all_eq_true.mp List.all_takeWhile
  · exact fun letter member => absurd member List.not_mem_nil

theorem digits_or_point_of_numeral {text : List Char} (complete : (numeral text).1 = text) :
    (∀ letter ∈ text, letter.isDigit = true) ∨
      ∃ digits fraction, (∀ letter ∈ digits, letter.isDigit = true) ∧
        (∀ letter ∈ fraction, letter.isDigit = true) ∧ fraction ≠ [] ∧
        text = digits ++ '.' :: fraction := by
  have whole : ∀ letter ∈ text.takeWhile Char.isDigit, letter.isDigit = true :=
    List.all_eq_true.mp List.all_takeWhile
  have behind := isDigit_of_mem_fractionDigits (text.dropWhile Char.isDigit)
  simp only [numeral] at complete
  split at complete
  · rw [complete] at whole
    exact Or.inl whole
  · rename_i some
    rw [List.isEmpty_iff] at some
    exact Or.inr ⟨_, _, whole, behind, some, complete.symm⟩

theorem numeral_append {text rest : List Char} (complete : (numeral text).1 = text)
    (ends : EndsNumeral rest) : numeral (text ++ rest) = numeral text := by
  rcases digits_or_point_of_numeral complete with whole | ⟨digits, fraction, whole, behind, some, rfl⟩
  · have alone := numeral_whole whole ends_nil.numeral
    rw [List.append_nil] at alone
    rw [numeral_whole whole ends, alone]
  · have alone := numeral_point whole behind some ends_nil.numeral
    rw [List.append_nil] at alone
    rw [numeral_point whole behind some ends, alone]

theorem startsWord_eq_false_of_isDigit {letter : Char} (digit : letter.isDigit = true) :
    startsWord letter = false := by
  refine Bool.eq_false_iff.mpr (fun starts => ?_)
  unfold startsWord Char.isAlpha Char.isUpper Char.isLower at starts
  simp only [Bool.or_eq_true, Bool.and_eq_true, decide_eq_true_eq] at starts
  simp only [Char.isDigit, Bool.and_eq_true, decide_eq_true_eq] at digit
  obtain ⟨_, most⟩ := digit
  rcases starts with (⟨least, _⟩ | ⟨least, _⟩) | rfl
  · exact absurd (UInt32.le_trans least most) (by decide)
  · exact absurd (UInt32.le_trans least most) (by decide)
  · revert most
    decide

theorem firstIs_append {test : Char → Bool} {text : List Char} (rest : List Char)
    (begins : firstIs test text = true) : firstIs test (text ++ rest) = true := by
  cases text with
  | nil => cases begins
  | cons letter text => exact begins

theorem first_digits {letter : Char} {tail rest : List Char} {value : Float}
    (digit : letter.isDigit = true) (read : numeral (letter :: rest) = (letter :: tail, value)) :
    first letter rest = .token (.number value) (letter :: tail) := by
  have noBlank := isBlank_eq_false_of_continuesWord (continuesWord_of_isDigit digit)
  have noSlash : letter ≠ '/' := by
    intro same
    subst same
    revert digit
    decide
  have noQuote : letter ≠ '"' := by
    intro same
    subst same
    revert digit
    decide
  rw [first, noBlank, if_neg Bool.false_ne_true,
    startsWord_eq_false_of_isDigit digit, if_neg Bool.false_ne_true,
    if_neg (by simp only [noSlash, decide_false, Bool.false_and, Bool.false_eq_true,
      not_false_eq_true]), if_neg noQuote, if_pos digit, read]

theorem first_minus {text rest : List Char} {value : Float}
    (digits : firstIs Char.isDigit rest = true) (read : numeral rest = (text, value)) :
    first '-' rest = .token (.number (-value)) ('-' :: text) := by
  have noBlank : isBlank '-' = false := by decide
  have noWord : startsWord '-' = false := by decide
  have noDigit : ¬('-'.isDigit = true) := by decide
  rw [first, noBlank, if_neg Bool.false_ne_true, noWord, if_neg Bool.false_ne_true,
    if_neg (by simp), if_neg (by decide), if_neg noDigit, if_pos (by rw [digits]; rfl), read]

/-! ### Tokens at the start of a text -/

theorem mem_marks_of_mark? {letter : Char} {mark : Token} (isMark : mark? letter = some mark) :
    mark ∈ [Token.openParen, .closeParen, .comma, .colon] := by
  unfold mark? at isMark
  split at isMark <;> cases isMark <;> decide

inductive FirstToken (letter : Char) (rest : List Char) (token : Token) (stretch : List Char) :
    Prop where
  | word (isWord : isWord stretch = true) (same : token = Token.ofWord (String.ofList stretch))
  | quoted {text name : List Char} (isQuote : letter = '"') (read : quoted rest = (text, some name))
      (same : token = .identifier (String.ofList name)) (spelled : stretch = letter :: text)
  | digits (digit : letter.isDigit = true) (same : token = .number (numeral (letter :: rest)).2)
      (spelled : stretch = (numeral (letter :: rest)).1)
  | minus (isMinus : letter = '-') (visible : firstIs Char.isDigit rest = true)
      (same : token = .number (-(numeral rest).2)) (spelled : stretch = letter :: (numeral rest).1)
  | mark (isMark : mark? letter = some token) (spelled : stretch = [letter])

theorem firstToken_of_first {letter : Char} {rest stretch : List Char} {token : Token}
    (read : first letter rest = .token token stretch) : FirstToken letter rest token stretch := by
  unfold first at read
  split at read
  · cases read
  split at read
  · rename_i starts
    cases read
    refine .word ?_ rfl
    rw [isWord, starts, List.all_takeWhile]
    rfl
  split at read
  · cases read
  split at read
  · rename_i isQuote
    split at read
    · rename_i quotedRead
      cases read
      exact .quoted isQuote quotedRead rfl rfl
    · cases read
  split at read
  · rename_i digit
    cases read
    exact .digits digit rfl rfl
  split at read
  · rename_i minus
    obtain ⟨isMinus, visible⟩ := Bool.and_eq_true_iff.mp minus
    cases read
    exact .minus (of_decide_eq_true isMinus) visible rfl rfl
  split at read
  · rename_i isMark
    cases read
    exact .mark isMark rfl
  · cases read

end Lexeme

end RelationalLayout
