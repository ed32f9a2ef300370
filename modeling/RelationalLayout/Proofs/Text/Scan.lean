/-
What cutting a text finds in it.

The rules for tokens are given by the texts that they match. From the left to the
right a text is one lexeme behind another: blanks, comments up to the end of their
line, tokens that are the longest matches at their places, and stretches at whose
start no rule matches. Tokens and unrecognized stretches are reported where they lie;
everything else is skipped, and nothing else is.
-/

import RelationalLayout.Proofs.Text.Span
import RelationalLayout.Proofs.Text.Spelling

namespace RelationalLayout

open Lexeme

/-! ### Rules for tokens -/

/-- What spells a decimal: digits, or digits around a point. -/
inductive IsNumeral : List Char → Decimal → Prop where
  | whole {digits : List Char} (some : digits ≠ [])
      (whole : ∀ letter ∈ digits, letter.isDigit = true) :
      IsNumeral digits { digits := digitsValue digits, exponent := 0 }
  | point {digits fraction : List Char} (some : digits ≠ [])
      (whole : ∀ letter ∈ digits, letter.isDigit = true) (someBehind : fraction ≠ [])
      (behind : ∀ letter ∈ fraction, letter.isDigit = true) :
      IsNumeral (digits ++ '.' :: fraction)
        { digits := digitsValue (digits ++ fraction), exponent := -fraction.length }

/-- The texts that each rule for tokens matches. A text may be matched both as a reserved word and
as a name. -/
inductive TokenRule : List Char → Token → Prop where
  | reserved {word : String} {token : Token} (member : (word, token) ∈ Token.reserved) :
      TokenRule word.toList token
  | word {text : List Char} (isWord : isWord text = true) :
      TokenRule text (.identifier (String.ofList text))
  | quoted (name : List Char) :
      TokenRule ('"' :: (Name.escape name ++ ['"'])) (.identifier (String.ofList name))
  | number {text : List Char} {decimal : Decimal} (numeral : IsNumeral text decimal) :
      TokenRule text (.number decimal.nearest)
  | negative {text : List Char} {decimal : Decimal} (numeral : IsNumeral text decimal) :
      TokenRule ('-' :: text) (.number (-decimal.nearest))
  | mark {letter : Char} {token : Token} (isMark : mark? letter = some token) :
      TokenRule [letter] token

/-- No rule matches more of what stands at this place, and a reserved word is no name. -/
structure LongestToken (text behind : List Char) (token : Token) : Prop where
  rule : TokenRule text token
  longest : ∀ other found, TokenRule other found → other <+: text ++ behind →
    other.length ≤ text.length
  reservedFirst : ∀ word found, (word, found) ∈ Token.reserved → word.toList = text → found = token

/-! ### Lexemes at their places -/

/-- A name in quotes comes to no closing quote: the text ends, or a backslash stands before
something that it does not escape. -/
def Unclosed (behind : List Char) : Prop :=
  behind = [] ∨ ∃ tail, behind = '\\' :: tail ∧ ∀ letter ∈ tail.head?, letter ≠ '"' ∧ letter ≠ '\\'

/-- How far a stretch goes that is no token: one letter, or a name in quotes that is not closed. -/
inductive IsStray : List Char → List Char → Prop where
  | letter {letter : Char} {behind : List Char} (visible : isBlank letter = false)
      (noComment : ¬['/', '/'] <+: letter :: behind) (noQuote : letter ≠ '"') :
      IsStray [letter] behind
  | quote {name behind : List Char} (unclosed : Unclosed behind) :
      IsStray ('"' :: Name.escape name) behind

namespace Lexeme

inductive Fits : Lexeme → List Char → Prop where
  | blank {text behind : List Char} (some : text ≠ [])
      (blanks : ∀ letter ∈ text, isBlank letter = true) : Fits (.blank text) behind
  | comment {text behind : List Char} (inLine : '\n' ∉ text)
      (ends : ∀ letter ∈ behind.head?, letter = '\n') : Fits (.comment ('/' :: '/' :: text)) behind
  | token {token : Token} {text behind : List Char} (longest : LongestToken text behind token) :
      Fits (.token token text) behind
  | unrecognized {text behind : List Char} (stray : IsStray text behind)
      (none : ∀ other found, TokenRule other found → ¬other <+: text ++ behind) :
      Fits (.unrecognized text) behind

end Lexeme

def Span.Covers (span : Span) (byte : Nat) : Prop := span.start ≤ byte ∧ byte < span.stop

/-- A text is these lexemes one behind another, the first of which starts at a byte. -/
inductive Scans : Nat → List Char → List (Lexeme × Span) → Prop where
  | nil (start : Nat) : Scans start [] []
  | cons {start : Nat} {lexeme : Lexeme} {behind : List Char} {placed : List (Lexeme × Span)}
      (fits : lexeme.Fits behind) (later : Scans (start + byteWidth lexeme.text) behind placed) :
      Scans start (lexeme.text ++ behind)
        ((lexeme, { start := start, stop := start + byteWidth lexeme.text }) :: placed)

/-! ### Reserved words -/

theorem Token.ofWord_of_mem_reserved {word : String} {token : Token}
    (member : (word, token) ∈ reserved) : ofWord word = token := by
  simp only [reserved, List.mem_append, List.mem_map, Prod.mk.injEq] at member
  rcases member with ((⟨keyword, _, rfl, rfl⟩ | ⟨option, _, rfl, rfl⟩) | ⟨option, _, rfl, rfl⟩) |
    ⟨option, _, rfl, rfl⟩
  · exact ofWord_keyword keyword
  · exact ofWord_unary option
  · exact ofWord_binary option
  · exact ofWord_cyclic option

theorem Token.isWord_of_mem_reserved : ∀ entry ∈ reserved, isWord entry.1.toList = true := by
  decide

theorem Token.rule_ofWord {text : List Char} (isWord : isWord text = true) :
    TokenRule text (ofWord (String.ofList text)) := by
  unfold ofWord
  cases found : reserved.lookup (String.ofList text) with
  | none => exact .word isWord
  | some token =>
      have member := SortedMap.mem_of_lookup_eq_some found
      have rule := TokenRule.reserved member
      rw [String.toList_ofList] at rule
      exact rule

/-! ### Numerals -/

theorem isNumeral_numeral {letter : Char} (digit : letter.isDigit = true) (rest : List Char) :
    ∃ decimal, IsNumeral (numeral (letter :: rest)).1 decimal ∧
      (numeral (letter :: rest)).2 = decimal.nearest := by
  have some : (letter :: rest).takeWhile Char.isDigit ≠ [] := by
    rw [List.takeWhile_cons_of_pos digit]
    exact List.cons_ne_nil _ _
  have whole : ∀ found ∈ (letter :: rest).takeWhile Char.isDigit, found.isDigit = true :=
    List.all_eq_true.mp List.all_takeWhile
  have behind := isDigit_of_mem_fractionDigits ((letter :: rest).dropWhile Char.isDigit)
  simp only [numeral]
  split
  · rename_i none
    rw [List.isEmpty_iff] at none
    refine ⟨_, .whole some whole, ?_⟩
    rw [none, List.append_nil]
    rfl
  · rename_i someBehind
    rw [List.isEmpty_iff] at someBehind
    exact ⟨_, .point some whole someBehind behind, rfl⟩

theorem prefix_takeWhile {test : Char → Bool} {text rest : List Char}
    (all : ∀ letter ∈ text, test letter = true) (begins : text <+: rest) :
    text <+: rest.takeWhile test := by
  obtain ⟨later, rfl⟩ := begins
  rw [List.takeWhile_append_of_pos all]
  exact List.prefix_append _ _

/-- A numeral takes all digits that it can, and a point only with a digit behind it. -/
theorem IsNumeral.length_le {text rest : List Char} {decimal : Decimal}
    (isNumeral : IsNumeral text decimal) (begins : text <+: rest) :
    text.length ≤ (numeral rest).1.length := by
  have taken : rest.takeWhile Char.isDigit <+: (numeral rest).1 := by
    simp only [numeral]
    split
    · exact List.prefix_rfl
    · exact List.prefix_append _ _
  cases isNumeral with
  | whole _ whole => exact ((prefix_takeWhile whole begins).trans taken).length_le
  | @point digits fraction _ whole someBehind behind =>
      obtain ⟨later, rfl⟩ := begins
      have point : ∀ letter ∈ ('.' :: (fraction ++ later)).head?, letter.isDigit = false := by
        intro letter atHead
        cases atHead
        decide
      have within := prefix_takeWhile behind (List.prefix_append fraction later)
      have some : ((fraction ++ later).takeWhile Char.isDigit).isEmpty = false :=
        List.isEmpty_eq_false_iff.mpr fun none => someBehind (List.prefix_nil.mp (none ▸ within))
      have longer := within.length_le
      simp only [numeral, List.append_assoc, List.cons_append, takeWhile_append_of_all whole point,
        dropWhile_append_of_all whole point, fractionDigits, some, if_neg Bool.false_ne_true,
        List.length_append, List.length_cons]
      omega

theorem IsNumeral.exists_digit {text : List Char} {decimal : Decimal}
    (isNumeral : IsNumeral text decimal) :
    ∃ letter tail, text = letter :: tail ∧ letter.isDigit = true := by
  have first {digits : List Char} (some : digits ≠ [])
      (whole : ∀ letter ∈ digits, letter.isDigit = true) :
      ∃ letter tail, digits = letter :: tail ∧ letter.isDigit = true := by
    obtain ⟨letter, tail, rfl⟩ := List.exists_cons_of_ne_nil some
    exact ⟨letter, tail, rfl, whole letter List.mem_cons_self⟩
  cases isNumeral with
  | whole some whole => exact first some whole
  | point some whole =>
      obtain ⟨letter, tail, rfl, digit⟩ := first some whole
      exact ⟨letter, _, rfl, digit⟩

/-! ### Quoted names -/

theorem escape_cons_of_escapable {letter : Char} (escapable : letter = '"' ∨ letter = '\\')
    (name : List Char) : Name.escape (letter :: name) = '\\' :: letter :: Name.escape name := by
  rw [Name.escape, if_pos escapable]

theorem escape_cons_of_plain {letter : Char} (noQuote : letter ≠ '"') (noBackslash : letter ≠ '\\')
    (name : List Char) : Name.escape (letter :: name) = letter :: Name.escape name := by
  rw [Name.escape, if_neg (not_or.mpr ⟨noQuote, noBackslash⟩)]

/-- What is behind a quote is a name up to its closing quote, or up to where it is not closed. -/
theorem quoted_exact (text : List Char) :
    (∃ name behind, text = Name.escape name ++ '"' :: behind ∧
      quoted text = (Name.escape name ++ ['"'], some name)) ∨
    ∃ name behind, text = Name.escape name ++ behind ∧ Unclosed behind ∧
      quoted text = (Name.escape name, none) := by
  fun_induction quoted text with
  | case1 => exact Or.inr ⟨[], [], rfl, Or.inl rfl, rfl⟩
  | case2 rest => exact Or.inl ⟨[], rest, rfl, rfl⟩
  | case3 => exact Or.inr ⟨[], _, rfl, Or.inr ⟨[], rfl, by simp⟩, rfl⟩
  | case4 escaped rest escapable stretch found read ih =>
      have written := escape_cons_of_escapable escapable
      rw [read] at ih
      rcases ih with ⟨name, behind, rfl, same⟩ | ⟨name, behind, rfl, unclosed, same⟩
      · cases same
        refine Or.inl ⟨escaped :: name, behind, ?_, ?_⟩ <;> rw [written] <;> rfl
      · cases same
        refine Or.inr ⟨escaped :: name, behind, ?_, unclosed, ?_⟩ <;> rw [written] <;> rfl
  | case5 escaped rest notEscapable =>
      refine Or.inr ⟨[], _, rfl, Or.inr ⟨_, rfl, ?_⟩, rfl⟩
      intro letter atHead
      cases atHead
      exact not_or.mp notEscapable
  | case6 letter rest noQuote noEnd noEscape stretch found read ih =>
      have noBackslash : letter ≠ '\\' := by
        intro same
        cases rest with
        | nil => exact noEnd same rfl
        | cons escaped rest => exact noEscape escaped rest same rfl
      have written := escape_cons_of_plain noQuote noBackslash
      rw [read] at ih
      rcases ih with ⟨name, behind, rfl, same⟩ | ⟨name, behind, rfl, unclosed, same⟩
      · cases same
        refine Or.inl ⟨letter :: name, behind, ?_, ?_⟩ <;> rw [written] <;> rfl
      · cases same
        refine Or.inr ⟨letter :: name, behind, ?_, unclosed, ?_⟩ <;> rw [written] <;> rfl

/-! ### The longest match -/

/-- Wherever a rule matches, a token is found, and it is at least as long. -/
theorem TokenRule.exists_first {text rest : List Char} {letter : Char} {token : Token}
    (rule : TokenRule text token) (begins : text <+: letter :: rest) :
    ∃ found stretch, first letter rest = .token found stretch ∧ text.length ≤ stretch.length := by
  have ofWord {text : List Char} (word : isWord text = true) (begins : text <+: letter :: rest) :
      ∃ found stretch, first letter rest = .token found stretch ∧
        text.length ≤ stretch.length := by
    cases text with
    | nil => cases word
    | cons first tail =>
        obtain ⟨rfl, behind⟩ := List.cons_prefix_cons.mp begins
        obtain ⟨starts, continues⟩ := Bool.and_eq_true_iff.mp word
        refine ⟨_, _, first_of_startsWord starts rest, ?_⟩
        exact Nat.succ_le_succ (prefix_takeWhile (List.all_eq_true.mp continues) behind).length_le
  cases rule with
  | reserved member => exact ofWord (Token.isWord_of_mem_reserved _ member) begins
  | word isWord => exact ofWord isWord begins
  | quoted name =>
      obtain ⟨rfl, later, rfl⟩ := List.cons_prefix_cons.mp begins
      rw [List.append_assoc, List.singleton_append]
      exact ⟨_, _, first_quote (Name.quoted_escape name later), Nat.le_refl _⟩
  | number numeral =>
      obtain ⟨digit, tail, rfl, isDigit⟩ := numeral.exists_digit
      obtain ⟨rfl, _⟩ := List.cons_prefix_cons.mp begins
      obtain ⟨later, taken⟩ := numeral_fst_ne_nil isDigit rest
      have read := first_digits isDigit (Prod.ext taken rfl)
      exact ⟨_, _, read, taken ▸ numeral.length_le begins⟩
  | negative numeral =>
      obtain ⟨rfl, behind⟩ := List.cons_prefix_cons.mp begins
      obtain ⟨digit, tail, rfl, isDigit⟩ := numeral.exists_digit
      have visible : firstIs Char.isDigit rest = true := by
        obtain ⟨later, rfl⟩ := behind
        exact isDigit
      exact ⟨_, _, first_minus visible rfl, Nat.succ_le_succ (numeral.length_le behind)⟩
  | mark isMark =>
      obtain ⟨rfl, _⟩ := List.cons_prefix_cons.mp begins
      exact ⟨_, _, first_mark isMark rest, Nat.le_refl _⟩

theorem rule_of_first {letter : Char} {rest stretch : List Char} {token : Token}
    (read : first letter rest = .token token stretch) : TokenRule stretch token := by
  cases firstToken_of_first read with
  | word isWord same =>
      rw [same]
      exact Token.rule_ofWord isWord
  | quoted isQuote quotedRead same spelled =>
      rcases quoted_exact rest with ⟨name, _, _, closed⟩ | ⟨name, _, _, _, unclosed⟩
      · cases quotedRead.symm.trans closed
        rw [isQuote] at spelled
        rw [same, spelled]
        exact .quoted _
      · cases quotedRead.symm.trans unclosed
  | digits digit same spelled =>
      obtain ⟨decimal, isNumeral, value⟩ := isNumeral_numeral digit rest
      rw [same, spelled, value]
      exact .number isNumeral
  | minus isMinus visible same spelled =>
      cases rest with
      | nil => cases visible
      | cons digit rest =>
          obtain ⟨decimal, isNumeral, value⟩ := isNumeral_numeral visible rest
          rw [same, spelled, isMinus, value]
          exact .negative isNumeral
  | mark isMark spelled =>
      rw [spelled]
      exact .mark isMark

theorem eq_of_first_reserved {letter : Char} {rest stretch : List Char} {token : Token}
    (read : first letter rest = .token token stretch) {word : String} {other : Token}
    (member : (word, other) ∈ Token.reserved) (same : word.toList = stretch) : other = token := by
  have isWord := Token.isWord_of_mem_reserved _ member
  obtain ⟨tail, spelled, _⟩ := text_first letter rest
  rw [read] at spelled
  have starts : startsWord letter = true := by
    rw [same, show stretch = letter :: tail from spelled] at isWord
    exact (Bool.and_eq_true_iff.mp isWord).1
  have found := first_of_startsWord starts rest
  rw [read] at found
  obtain ⟨isToken, isText⟩ := Lexeme.token.inj found
  rw [isToken, ← isText, ← same, String.ofList_toList]
  exact (Token.ofWord_of_mem_reserved member).symm

theorem longestToken_of_first {letter : Char} {tail behind : List Char} {token : Token}
    (read : first letter (tail ++ behind) = .token token (letter :: tail)) :
    LongestToken (letter :: tail) behind token where
  rule := rule_of_first read
  longest := by
    intro other found rule begins
    obtain ⟨_, _, alsoRead, longer⟩ := rule.exists_first begins
    cases read.symm.trans alsoRead
    exact longer
  reservedFirst := fun _ _ => eq_of_first_reserved read

/-! ### What is behind a lexeme -/

theorem takeWhile_append_eq_iff {test : Char → Bool} {text behind : List Char} :
    (text ++ behind).takeWhile test = text ↔
      (∀ letter ∈ text, test letter = true) ∧ ∀ letter ∈ behind.head?, test letter = false := by
  refine ⟨fun taken => ?_, fun given => takeWhile_append_of_all given.1 given.2⟩
  have all : ∀ letter ∈ text, test letter = true := by
    rw [← taken]
    exact List.all_eq_true.mp List.all_takeWhile
  refine ⟨all, ?_⟩
  intro letter atHead
  obtain ⟨later, rfl⟩ := List.head?_eq_some_iff.mp atHead
  rw [List.takeWhile_append_of_pos all, List.takeWhile_cons] at taken
  split at taken
  · exact absurd taken (by simp)
  · rename_i stops
    exact Bool.eq_false_iff.mpr stops

theorem blank_of_first {letter : Char} {rest stretch : List Char}
    (read : first letter rest = .blank stretch) :
    isBlank letter = true ∧ stretch = letter :: rest.takeWhile isBlank := by
  unfold first at read
  split at read
  · rename_i blank
    cases read
    exact ⟨blank, rfl⟩
  · repeat' split at read
    all_goals cases read

theorem ne_lineFeed_iff {text : List Char} :
    (∀ letter ∈ text, decide (letter ≠ '\n') = true) ↔ '\n' ∉ text := by
  constructor
  · exact fun all inside => of_decide_eq_true (all _ inside) rfl
  · intro inLine letter member
    refine decide_eq_true ?_
    rintro rfl
    exact inLine member

theorem comment_of_first {letter : Char} {rest stretch : List Char}
    (read : first letter rest = .comment stretch) :
    ['/', '/'] <+: letter :: rest ∧ stretch = letter :: rest.takeWhile (· ≠ '\n') := by
  unfold first at read
  split at read
  · cases read
  split at read
  · cases read
  split at read
  · rename_i slashes
    obtain ⟨isSlash, again⟩ := Bool.and_eq_true_iff.mp slashes
    obtain rfl := of_decide_eq_true isSlash
    cases rest with
    | nil => cases again
    | cons second rest =>
        obtain rfl := of_decide_eq_true again
        cases read
        exact ⟨⟨rest, rfl⟩, rfl⟩
  · repeat' split at read
    all_goals cases read

theorem unrecognized_of_first {letter : Char} {tail behind : List Char}
    (read : first letter (tail ++ behind) = .unrecognized (letter :: tail)) :
    IsStray (letter :: tail) behind := by
  unfold first at read
  split at read
  · cases read
  rename_i visible
  split at read
  · cases read
  split at read
  · cases read
  rename_i noComment
  have noSlashes : ¬['/', '/'] <+: letter :: (tail ++ behind) := by
    rintro ⟨rest, slashes⟩
    obtain ⟨rfl, again⟩ := List.cons.inj slashes
    rw [← again] at noComment
    exact noComment rfl
  split at read
  · rename_i isQuote
    subst isQuote
    rcases quoted_exact (tail ++ behind) with ⟨name, _, _, same⟩ | ⟨name, other, split, unclosed, same⟩
    · rw [same] at read
      cases read
    · rw [same] at read
      cases read
      rw [List.append_cancel_left split]
      exact .quote unclosed
  rename_i noQuote
  split at read
  · cases read
  split at read
  · cases read
  split at read
  · cases read
  · cases read
    exact .letter (Bool.eq_false_iff.mpr visible) noSlashes noQuote

theorem fits_first {letter : Char} {tail behind : List Char}
    (spelled : (first letter (tail ++ behind)).text = letter :: tail) :
    (first letter (tail ++ behind)).Fits behind := by
  cases read : first letter (tail ++ behind) with
  | token token stretch =>
      rw [read] at spelled
      cases spelled
      exact .token (longestToken_of_first read)
  | blank stretch =>
      obtain ⟨blank, same⟩ := blank_of_first read
      rw [same]
      exact .blank (List.cons_ne_nil _ _)
        (List.forall_mem_cons.mpr ⟨blank, List.all_eq_true.mp List.all_takeWhile⟩)
  | comment stretch =>
      obtain ⟨slashes, same⟩ := comment_of_first read
      rw [read] at spelled
      have taken := (List.cons.inj (same.symm.trans spelled)).2
      obtain ⟨inLine, stops⟩ := takeWhile_append_eq_iff.mp taken
      have ends : ∀ found ∈ behind.head?, found = '\n' := fun found atHead =>
        not_not.mp (of_decide_eq_false (stops found atHead))
      rw [show stretch = letter :: tail from spelled]
      obtain ⟨rest, split⟩ := slashes
      obtain ⟨rfl, again⟩ := List.cons.inj split
      -- The second slash is part of the comment, since only a line feed may be behind it.
      cases tail with
      | nil => cases ends '/' (by rw [← List.nil_append behind, ← again]; rfl)
      | cons second text =>
          obtain ⟨rfl, _⟩ := List.cons.inj again
          exact .comment (ne_lineFeed_iff.mp (List.forall_mem_cons.mp inLine).2) ends
  | unrecognized stretch =>
      rw [read] at spelled
      cases spelled
      refine .unrecognized (unrecognized_of_first read) ?_
      intro other found rule begins
      obtain ⟨_, _, alsoRead, _⟩ := rule.exists_first begins
      cases read.symm.trans alsoRead

/-! ### Whole texts -/

theorem byteWidth_pos {text : List Char} (some : text ≠ []) : 0 < byteWidth text := by
  obtain ⟨letter, rest, rfl⟩ := List.exists_cons_of_ne_nil some
  rw [byteWidth]
  exact Nat.add_pos_left letter.utf8Size_pos _

theorem TokenRule.text_ne_nil {text : List Char} {token : Token} (rule : TokenRule text token) :
    text ≠ [] := by
  cases rule with
  | reserved member =>
      intro none
      have isWord := Token.isWord_of_mem_reserved _ member
      rw [none] at isWord
      cases isWord
  | word isWord =>
      rintro rfl
      cases isWord
  | number numeral =>
      obtain ⟨letter, tail, rfl, _⟩ := numeral.exists_digit
      exact List.cons_ne_nil _ _
  | quoted | negative | mark => exact List.cons_ne_nil _ _

theorem Lexeme.Fits.text_ne_nil {lexeme : Lexeme} {behind : List Char} (fits : lexeme.Fits behind) :
    lexeme.text ≠ [] := by
  cases fits with
  | blank some => exact some
  | comment => exact List.cons_ne_nil _ _
  | token longest => exact longest.rule.text_ne_nil
  | unrecognized stray => cases stray <;> exact List.cons_ne_nil _ _

theorem scans_cut (start : Nat) (text : List Char) : Scans start text (place start (cut text)) := by
  induction length : text.length using Nat.strongRecOn generalizing start text with
  | ind size ih =>
      cases text with
      | nil =>
          rw [cut]
          exact .nil start
      | cons letter rest =>
          obtain ⟨tail, behind, rfl, spelled, cuts⟩ := cut_cons_first letter rest
          have shorter : behind.length < size := by
            rw [← length, List.length_cons, List.length_append]
            omega
          have later := ih _ shorter (start + byteWidth (first letter (tail ++ behind)).text) behind rfl
          have whole := Scans.cons (fits_first spelled) later
          rw [spelled, List.cons_append] at whole
          rw [cuts, place, spelled]
          exact whole

namespace Scans

variable {start : Nat} {text : List Char} {placed : List (Lexeme × Span)}

theorem start_le (scans : Scans start text placed) : ∀ item ∈ placed, start ≤ item.2.start := by
  induction scans with
  | nil => exact fun _ impossible => absurd impossible List.not_mem_nil
  | cons fits later ih =>
      refine List.forall_mem_cons.mpr ⟨Nat.le_refl _, ?_⟩
      exact fun item member => (Nat.le_add_right _ _).trans (ih item member)

theorem ordered (scans : Scans start text placed) :
    placed.Pairwise (fun earlier later => earlier.2.stop ≤ later.2.start) := by
  induction scans with
  | nil => exact .nil
  | cons fits later ih => exact .cons later.start_le ih

theorem start_lt_stop (scans : Scans start text placed) :
    ∀ item ∈ placed, item.2.start < item.2.stop := by
  induction scans with
  | nil => exact fun _ impossible => absurd impossible List.not_mem_nil
  | cons fits later ih =>
      exact List.forall_mem_cons.mpr ⟨Nat.lt_add_of_pos_right (byteWidth_pos fits.text_ne_nil), ih⟩

theorem found (before : List Char) (scans : Scans start text placed)
    (starts : start = byteWidth before) :
    ∀ item ∈ placed, ∃ earlier behind, before ++ text = earlier ++ item.1.text ++ behind ∧
      item.2 = .behind earlier item.1.text ∧ item.1.Fits behind := by
  induction scans generalizing before with
  | nil => exact fun _ impossible => absurd impossible List.not_mem_nil
  | @cons start lexeme behind placed fits later ih =>
      subst starts
      refine List.forall_mem_cons.mpr ⟨?_, ?_⟩
      · refine ⟨before, behind, (List.append_assoc _ _ _).symm, ?_, fits⟩
        rw [Span.behind, byteWidth_append]
      · rw [← List.append_assoc]
        exact ih _ (byteWidth_append before lexeme.text).symm

theorem exists_covers (scans : Scans start text placed) {byte : Nat} (least : start ≤ byte)
    (most : byte < start + byteWidth text) : ∃ item ∈ placed, item.2.Covers byte := by
  induction scans with
  | nil => exact absurd most (Nat.not_lt.mpr least)
  | @cons start lexeme behind placed fits later ih =>
      by_cases here : byte < start + byteWidth lexeme.text
      · exact ⟨_, List.mem_cons_self, least, here⟩
      · rw [byteWidth_append, ← Nat.add_assoc] at most
        obtain ⟨item, member, covers⟩ := ih (Nat.le_of_not_lt here) most
        exact ⟨item, List.mem_cons_of_mem _ member, covers⟩

end Scans

/-! ### What is reported -/

def reported (placed : List (Lexeme × Span)) : List (Lexeme × Span) :=
  placed.filter (fun item => !item.1.isSkipped)

def strayError (item : Lexeme × Span) : SyntaxError :=
  { span := item.2, fault := .unrecognized (String.ofList item.1.text) }

theorem reported_cons (item : Lexeme × Span) (placed : List (Lexeme × Span)) :
    reported (item :: placed) =
      if item.1.isSkipped then reported placed else item :: reported placed := by
  rw [reported, List.filter_cons]
  cases item.1.isSkipped <;> rfl

theorem unrecognizedStretches_eq (placed : List (Lexeme × Span)) :
    unrecognizedStretches placed =
      ((reported placed).filter (fun item => item.1.token?.isNone)).map strayError := by
  induction placed with
  | nil => rfl
  | cons item placed ih =>
      obtain ⟨lexeme, span⟩ := item
      rw [reported_cons]
      cases lexeme with
      | blank | comment | token => exact ih
      | unrecognized text => exact congrArg _ ih

def IsEntry (item : Lexeme × Span) (entry : Token × Span) : Prop :=
  item.1.token? = some entry.1 ∧ item.2 = entry.2

theorem forall₂_isEntry_iff {placed : List (Lexeme × Span)} {tokens : List (Token × Span)} :
    List.Forall₂ IsEntry (reported placed) tokens ↔
      unrecognizedStretches placed = [] ∧ tokens = placedTokens placed := by
  induction placed generalizing tokens with
  | nil => simp [reported, placedTokens, unrecognizedStretches]
  | cons item placed ih =>
      obtain ⟨lexeme, span⟩ := item
      rw [reported_cons]
      cases lexeme with
      | blank | comment => exact ih
      | unrecognized text =>
          refine iff_of_false ?_ (fun impossible => by cases impossible.1)
          intro together
          obtain ⟨entry, _, ⟨impossible, _⟩, _⟩ := List.forall₂_cons_left_iff.mp together
          cases impossible
      | token token text =>
          rw [show (if (Lexeme.token token text).isSkipped then reported placed
            else (.token token text, span) :: reported placed) =
              (.token token text, span) :: reported placed from rfl, List.forall₂_cons_left_iff]
          constructor
          · rintro ⟨⟨found, place⟩, later, ⟨sameToken, sameSpan⟩, together, rfl⟩
            obtain ⟨recognized, rfl⟩ := ih.mp together
            cases sameToken
            cases sameSpan
            exact ⟨recognized, rfl⟩
          · rintro ⟨recognized, rfl⟩
            exact ⟨(token, span), _, ⟨rfl, rfl⟩, ih.mpr ⟨recognized, rfl⟩, rfl⟩

/-- What has to be true of the stretches that are reported of a text: in order and apart from each
other they are tokens and unrecognized stretches where they lie, and what they leave out is made
up of blanks and comments. -/
structure Reports (source : List Char) (stretches : List (Lexeme × Span)) : Prop where
  ordered : stretches.Pairwise (fun earlier later => earlier.2.stop ≤ later.2.start)
  visible : ∀ item ∈ stretches, item.2.start < item.2.stop
  valid : ∀ item ∈ stretches, item.2.IsValid source
  found : ∀ item ∈ stretches, item.1.isSkipped = false ∧
    ∃ before behind, source = before ++ item.1.text ++ behind ∧
      item.2 = .behind before item.1.text ∧ item.1.Fits behind
  skipped : ∀ byte < byteWidth source, (∀ item ∈ stretches, ¬item.2.Covers byte) →
    ∃ lexeme before behind, Lexeme.isSkipped lexeme = true ∧
      source = before ++ lexeme.text ++ behind ∧
      (Span.behind before lexeme.text).Covers byte ∧ lexeme.Fits behind

theorem Scans.reports {source : List Char} {placed : List (Lexeme × Span)}
    (scans : Scans 0 source placed) : Reports source (reported placed) where
  ordered := scans.ordered.sublist List.filter_sublist
  visible := fun item member => scans.start_lt_stop item (List.mem_of_mem_filter member)
  valid := by
    intro item member
    obtain ⟨before, behind, split, isBehind, _⟩ :=
      scans.found [] rfl item (List.mem_of_mem_filter member)
    rw [isBehind, show source = before ++ item.1.text ++ behind from split]
    exact Span.isValid_behind before item.1.text behind
  found := by
    intro item member
    obtain ⟨inPlaced, notSkipped⟩ := List.mem_filter.mp member
    exact ⟨by simpa using notSkipped, scans.found [] rfl item inPlaced⟩
  skipped := by
    intro byte inside outside
    obtain ⟨item, member, covers⟩ := scans.exists_covers (Nat.zero_le byte) (by rwa [Nat.zero_add])
    have skipped : item.1.isSkipped = true := by
      by_contra notSkipped
      exact outside item (List.mem_filter.mpr ⟨member, by simpa using notSkipped⟩) covers
    obtain ⟨before, behind, split, isBehind, fits⟩ := scans.found [] rfl item member
    exact ⟨item.1, before, behind, skipped, split, isBehind ▸ covers, fits⟩

/-- Reading a text takes it from left to right for lexemes and skips nothing but blanks and comments:
its tokens are all that is reported of it, or its errors are the stretches reported that are no
tokens, each once and in order. -/
theorem readTokens_exact (source : String) :
    ∃ placed, Scans 0 source.toList placed ∧ Reports source.toList (reported placed) ∧
      (∀ tokens, readTokens source = .ok tokens ↔ List.Forall₂ IsEntry (reported placed) tokens) ∧
      ∀ errors, readTokens source = .error errors ↔
        errors ≠ [] ∧
          errors = ((reported placed).filter (fun item => item.1.token?.isNone)).map strayError := by
  have scans := scans_cut 0 source.toList
  refine ⟨_, scans, scans.reports, fun tokens => ?_, fun errors => ?_⟩
  · rw [forall₂_isEntry_iff, readTokens_eq_ok_iff]
  · rw [← unrecognizedStretches_eq, readTokens_eq_error_iff]

end RelationalLayout
