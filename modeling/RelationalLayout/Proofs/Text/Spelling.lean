/-
Texts that spell a given token sequence.

A text spells the tokens it is cut into, when nothing in it is unrecognized. Each
written name, number, word and mark adds its token to what the text behind it
spells; blanks add nothing. Numbers that are not finite have no numeral, so what is
written for one of them is read as a word.
-/

import RelationalLayout.Proofs.Decimal
import RelationalLayout.Proofs.Text.Lexeme
import RelationalLayout.Text.Name

namespace RelationalLayout

open Lexeme

/-! ### What a text begins with -/

def Begins (text : List Char) (token : Token) (rest : List Char) : Prop :=
  ∃ letter tail, text = letter :: tail ++ rest ∧
    first letter (tail ++ rest) = .token token (letter :: tail)

namespace Begins

theorem unique {text rest more : List Char} {token other : Token} (begins : Begins text token rest)
    (also : Begins text other more) : token = other ∧ rest = more := by
  obtain ⟨letter, tail, rfl, read⟩ := begins
  obtain ⟨otherLetter, otherTail, same, alsoRead⟩ := also
  obtain ⟨rfl, behind⟩ : letter = otherLetter ∧ tail ++ rest = otherTail ++ more := List.cons.inj same
  rw [behind, alsoRead] at read
  obtain ⟨rfl, stretches⟩ := Lexeme.token.inj read
  obtain rfl := (List.cons.inj stretches).2
  exact ⟨rfl, List.append_cancel_left behind⟩

theorem word {word : String} {rest : List Char} (isWord : isWord word.toList = true)
    (ends : Ends rest) : Begins (word.toList ++ rest) (Token.ofWord word) rest := by
  cases letters : word.toList with
  | nil =>
      rw [letters] at isWord
      cases isWord
  | cons letter tail =>
      rw [letters] at isWord
      have read := first_word isWord ends
      rw [← letters, String.ofList_toList, letters] at read
      exact ⟨letter, tail, rfl, read⟩

theorem keyword (word : Keyword) {rest : List Char} (ends : Ends rest) :
    Begins (word.name.toList ++ rest) (.keyword word) rest := by
  rw [← Token.ofWord_keyword]
  refine Begins.word ?_ ends
  cases word <;> decide

theorem unary (option : UnaryOption) {rest : List Char} (ends : Ends rest) :
    Begins (option.name.toList ++ rest) (.unary option) rest := by
  rw [← Token.ofWord_unary]
  refine Begins.word ?_ ends
  cases option <;> decide

theorem binary (option : BinaryOption) {rest : List Char} (ends : Ends rest) :
    Begins (option.name.toList ++ rest) (.binary option) rest := by
  rw [← Token.ofWord_binary]
  refine Begins.word ?_ ends
  cases option <;> decide

theorem cyclic (option : CyclicOption) {rest : List Char} (ends : Ends rest) :
    Begins (option.name.toList ++ rest) (.cyclic option) rest := by
  rw [← Token.ofWord_cyclic]
  refine Begins.word ?_ ends
  cases option <;> decide

end Begins

/-- The text is cut into these tokens, with blanks and comments between them. -/
def Spells (text : List Char) (tokens : List Token) : Prop :=
  (∀ lexeme ∈ cut text, ∀ stretch, lexeme ≠ .unrecognized stretch) ∧
    Lexeme.tokens (cut text) = tokens

instance (lexeme : Lexeme) : Decidable (∀ stretch, lexeme ≠ .unrecognized stretch) :=
  match lexeme with
  | .unrecognized stretch => isFalse fun recognized => recognized stretch rfl
  | .blank _ => isTrue fun _ => Lexeme.noConfusion
  | .comment _ => isTrue fun _ => Lexeme.noConfusion
  | .token _ _ => isTrue fun _ => Lexeme.noConfusion

instance (text : List Char) (tokens : List Token) : Decidable (Spells text tokens) :=
  inferInstanceAs (Decidable (_ ∧ _))

/-- What a token is read as once it is written. -/
def Token.readBack : Token → Token
  | .number value =>
      if value.isFinite then .number value
      else .identifier (if value.isNaN then "NaN" else "inf")
  | other => other

/-- The text is cut into what these tokens are read as, and it is recognized throughout when
they are read as themselves. -/
structure Written (text : List Char) (tokens : List Token) : Prop where
  readBack : Lexeme.tokens (cut text) = tokens.map Token.readBack
  recognized : (∀ token ∈ tokens, token.readBack = token) →
    ∀ lexeme ∈ cut text, ∀ stretch, lexeme ≠ .unrecognized stretch

namespace Written

theorem spells {text : List Char} {tokens : List Token} (written : Written text tokens)
    (same : ∀ token ∈ tokens, token.readBack = token) : Spells text tokens :=
  ⟨written.recognized same,
    written.readBack.trans ((List.map_congr_left same).trans (List.map_id' tokens))⟩

theorem nil : Written [] [] := by
  constructor
  · rw [cut]
    rfl
  · intro _ lexeme member
    rw [cut] at member
    cases member

theorem token {text rest : List Char} {token : Token} {tokens : List Token}
    (begins : Begins text token.readBack rest) (after : Written rest tokens) :
    Written text (token :: tokens) := by
  obtain ⟨letter, tail, rfl, read⟩ := begins
  have cuts := cut_cons read rfl
  constructor
  · rw [cuts, List.map_cons, ← after.readBack]
    rfl
  · intro same lexeme member stretch
    rw [cuts] at member
    rcases List.mem_cons.mp member with rfl | later
    · exact Lexeme.noConfusion
    · have others := fun other inside => same other (List.mem_cons_of_mem token inside)
      exact after.recognized others lexeme later stretch

/-! ### Blanks -/

theorem cut_blank {letter : Char} (blank : isBlank letter = true) (rest : List Char) :
    cut (letter :: rest) =
      .blank (letter :: rest.takeWhile isBlank) :: cut (rest.dropWhile isBlank) := by
  have split := List.takeWhile_append_dropWhile (p := isBlank) (l := rest)
  have read : first letter (rest.takeWhile isBlank ++ rest.dropWhile isBlank) =
      .blank (letter :: rest.takeWhile isBlank) := by
    rw [split, first, blank, if_pos rfl]
  have cuts := cut_cons read rfl
  rwa [List.cons_append, split] at cuts

theorem dropBlanks {text : List Char} {tokens : List Token} (written : Written text tokens) :
    Written (text.dropWhile isBlank) tokens := by
  cases text with
  | nil => exact written
  | cons letter rest =>
      rw [List.dropWhile_cons]
      split
      · rename_i blank
        obtain ⟨readBack, recognized⟩ := written
        rw [cut_blank blank] at readBack recognized
        exact ⟨readBack, fun same lexeme member =>
          recognized same lexeme (List.mem_cons_of_mem _ member)⟩
      · exact written

theorem blank {letter : Char} {rest : List Char} {tokens : List Token}
    (isBlank : isBlank letter = true) (after : Written rest tokens) :
    Written (letter :: rest) tokens := by
  obtain ⟨readBack, recognized⟩ := after.dropBlanks
  constructor
  · rw [cut_blank isBlank]
    exact readBack
  · intro same lexeme member stretch
    rw [cut_blank isBlank] at member
    rcases List.mem_cons.mp member with rfl | later
    · exact Lexeme.noConfusion
    · exact recognized same lexeme later stretch

theorem space {rest : List Char} {tokens : List Token} (after : Written rest tokens) :
    Written (' ' :: rest) tokens :=
  blank rfl after

theorem lineFeed {rest : List Char} {tokens : List Token} (after : Written rest tokens) :
    Written ('\n' :: rest) tokens :=
  blank rfl after

/-! ### Words and marks -/

theorem keyword (word : Keyword) {rest : List Char} {tokens : List Token} (ends : Ends rest)
    (after : Written rest tokens) : Written (word.name.toList ++ rest) (.keyword word :: tokens) :=
  token (.keyword word ends) after

theorem unary (option : UnaryOption) {rest : List Char} {tokens : List Token} (ends : Ends rest)
    (after : Written rest tokens) : Written (option.name.toList ++ rest) (.unary option :: tokens) :=
  token (.unary option ends) after

theorem binary (option : BinaryOption) {rest : List Char} {tokens : List Token} (ends : Ends rest)
    (after : Written rest tokens) : Written (option.name.toList ++ rest) (.binary option :: tokens) :=
  token (.binary option ends) after

theorem cyclic (option : CyclicOption) {rest : List Char} {tokens : List Token} (ends : Ends rest)
    (after : Written rest tokens) : Written (option.name.toList ++ rest) (.cyclic option :: tokens) :=
  token (.cyclic option ends) after

theorem mark {letter : Char} {mark : Token} (isMark : mark? letter = some mark)
    (same : mark.readBack = mark) {rest : List Char} {tokens : List Token}
    (after : Written rest tokens) : Written (letter :: rest) (mark :: tokens) := by
  have read : first letter ([] ++ rest) = .token mark [letter] := first_mark isMark rest
  rw [← same] at read
  exact token ⟨letter, [], rfl, read⟩ after

theorem openParen {rest : List Char} {tokens : List Token} (after : Written rest tokens) :
    Written ('(' :: rest) (.openParen :: tokens) :=
  mark rfl rfl after

theorem closeParen {rest : List Char} {tokens : List Token} (after : Written rest tokens) :
    Written (')' :: rest) (.closeParen :: tokens) :=
  mark rfl rfl after

theorem comma {rest : List Char} {tokens : List Token} (after : Written rest tokens) :
    Written (',' :: rest) (.comma :: tokens) :=
  mark rfl rfl after

theorem colon {rest : List Char} {tokens : List Token} (after : Written rest tokens) :
    Written (':' :: rest) (.colon :: tokens) :=
  mark rfl rfl after

end Written

/-! ### Numbers -/

namespace Begins

theorem digits {digits : List Char} {value : Float} (visible : firstIs Char.isDigit digits = true)
    (read : numeral digits = (digits, value)) {rest : List Char} (ends : Ends rest) :
    Begins (digits ++ rest) (.number value) rest := by
  have complete : (numeral digits).1 = digits := congrArg Prod.fst read
  have extended := numeral_append complete ends.numeral
  rw [read] at extended
  cases digits with
  | nil => cases visible
  | cons letter tail => exact ⟨letter, tail, rfl, first_digits visible extended⟩

theorem minus {digits : List Char} {value : Float} (visible : firstIs Char.isDigit digits = true)
    (read : numeral digits = (digits, value)) {rest : List Char} (ends : Ends rest) :
    Begins ('-' :: digits ++ rest) (.number (-value)) rest := by
  have complete : (numeral digits).1 = digits := congrArg Prod.fst read
  have extended := numeral_append complete ends.numeral
  rw [read] at extended
  exact ⟨'-', digits, rfl, first_minus (firstIs_append rest visible) extended⟩

theorem number {number : Float} (finite : number.isFinite = true) {rest : List Char}
    (ends : Ends rest) : Begins ((plainNumber number).toList ++ rest) (.number number) rest := by
  obtain ⟨negative, decimal, read, same⟩ := Reading.exists_shortest_of_isFinite .upward finite
  have visible := decimal.firstIs_plainText
  have numeral := decimal.numeral_plainText
  rw [plainNumber, read, Reading.text, String.toList_ofList, same]
  cases negative with
  | false => exact digits visible numeral ends
  | true => exact minus visible numeral ends

end Begins

namespace Written

theorem word {word : String} (isWord : isWord word.toList = true) {number : Float}
    (same : Token.readBack (.number number) = Token.ofWord word) {rest : List Char}
    {tokens : List Token} (ends : Ends rest) (after : Written rest tokens) :
    Written (word.toList ++ rest) (.number number :: tokens) := by
  have begins := Begins.word isWord ends
  rw [← same] at begins
  exact token begins after

/-- A minus sign belongs to no token when a word is behind it. -/
theorem minus_word {word rest : List Char} (starts : firstIs startsWord word = true)
    {token : Token} {tokens : List Token} (different : token.readBack ≠ token)
    (after : Written (word ++ rest) (token :: tokens)) :
    Written ('-' :: word ++ rest) (token :: tokens) := by
  have cuts : cut ('-' :: word ++ rest) = .unrecognized ['-'] :: cut (word ++ rest) := by
    have noDigit : firstIs Char.isDigit (word ++ rest) = false := by
      cases word with
      | nil => cases starts
      | cons letter word =>
          refine Bool.eq_false_iff.mpr fun digit => ?_
          rw [firstIs, startsWord_eq_false_of_isDigit digit] at starts
          cases starts
    have read : first '-' ([] ++ (word ++ rest)) = .unrecognized ['-'] := by
      rw [List.nil_append, first, noDigit]
      rfl
    exact cut_cons read rfl
  constructor
  · rw [cuts, ← after.readBack]
    rfl
  · intro same
    exact absurd (same token List.mem_cons_self) different

theorem number (number : Float) {rest : List Char} {tokens : List Token} (ends : Ends rest)
    (after : Written rest tokens) :
    Written ((plainNumber number).toList ++ rest) (.number number :: tokens) := by
  cases finite : number.isFinite with
  | true =>
      have same : Token.readBack (.number number) = .number number := if_pos finite
      have begins := Begins.number finite ends
      rw [← same] at begins
      exact token begins after
  | false =>
      rcases eq_of_not_isFinite finite with rfl | rfl | rfl
      · have letters : plainNumber (1 / 0) = "inf" := by decide +kernel
        rw [letters]
        exact word (by decide) (by decide +kernel) ends after
      · have letters : plainNumber (-1 / 0) = "-inf" := by decide +kernel
        have infinite : Written ("inf".toList ++ rest) (.number (-1 / 0) :: tokens) :=
          word (by decide) (by decide +kernel) ends after
        rw [letters]
        exact minus_word (by decide) (by decide +kernel) infinite
      · have letters : plainNumber (0 / 0) = "NaN" := by decide +kernel
        rw [letters]
        exact word (by decide) (by decide +kernel) ends after

end Written

/-! ### Names -/

namespace Name

theorem quoted_snd_length {text stretch name : List Char} (read : quoted text = (stretch, some name)) :
    name.length < stretch.length := by
  induction text using quoted.induct generalizing stretch name with
  | case1 => cases read
  | case2 rest =>
      cases read
      exact Nat.zero_lt_one
  | case3 => cases read
  | case4 escaped rest escapable inner found innerRead ih =>
      rw [quoted, if_pos escapable, innerRead] at read
      cases found with
      | none => cases read
      | some innerName =>
          cases read
          have shorter := ih innerRead
          simp only [List.length_cons]
          omega
  | case5 escaped rest notEscapable =>
      rw [quoted, if_neg notEscapable] at read
      cases read
  | case6 letter rest noQuote noEnd noEscape inner found innerRead ih =>
      rw [quoted, innerRead] at read
      · cases found with
        | none => cases read
        | some innerName =>
            cases read
            have shorter := ih innerRead
            simp only [List.length_cons]
            omega
      · exact noQuote
      · exact noEnd
      · exact noEscape

theorem identifier_stretch {letter : Char} {rest stretch : List Char} {name : String}
    (read : first letter rest = .token (.identifier name) stretch) :
    (stretch = name.toList ∧ isWord stretch = true ∧ Token.ofWord name = .identifier name) ∨
      name.toList.length < stretch.length := by
  cases firstToken_of_first read with
  | word isWord same =>
      have isName := Token.eq_of_ofWord_eq_identifier same.symm
      refine Or.inl ⟨?_, isWord, ?_⟩
      · rw [isName, String.toList_ofList]
      · rw [← isName] at same
        exact same.symm
  | quoted _ quotedRead same spelled =>
      have shorter := quoted_snd_length quotedRead
      rw [Token.identifier.inj same, spelled, String.toList_ofList, List.length_cons]
      omega
  | digits _ same => cases same
  | minus _ _ same => cases same
  | mark isMark =>
      have member := mem_marks_of_mark? isMark
      simp at member

theorem isBare_iff {name : String} :
    isBare name = true ↔ isWord name.toList = true ∧ Token.ofWord name = .identifier name := by
  rw [isBare]
  constructor
  · intro reads
    split at reads
    · rename_i found stretch visible
      obtain rfl := eq_of_beq reads
      obtain ⟨before, after, cuts, -⟩ := List.filter_eq_cons_iff.mp visible
      have whole := flatMap_text_cut found.toList
      have member : .token (.identifier found) stretch ∈ cut found.toList := by
        rw [cuts]
        exact List.mem_append_right before List.mem_cons_self
      obtain ⟨letter, rest, read⟩ := exists_first_of_mem_cut member
      rcases identifier_stretch read.symm with ⟨same, word, unreserved⟩ | longer
      · rw [← same]
        exact ⟨word, unreserved⟩
      · have lengths := congrArg List.length whole
        rw [cuts, List.flatMap_append, List.flatMap_cons, List.length_append,
          List.length_append] at lengths
        simp only [Lexeme.text] at lengths
        omega
    · cases reads
  · intro given
    obtain ⟨word, unreserved⟩ := given
    cases letters : name.toList with
    | nil =>
        rw [letters] at word
        cases word
    | cons letter tail =>
        rw [letters] at word
        have read := first_word word ends_nil
        have cuts := cut_cons read rfl
        rw [← letters, String.ofList_toList, unreserved, letters, List.append_nil, cut] at cuts
        rw [cuts]
        exact beq_self_eq_true name

theorem quoted_escape (name rest : List Char) :
    quoted (escape name ++ '"' :: rest) = (escape name ++ ['"'], some name) := by
  induction name with
  | nil => rfl
  | cons letter name ih =>
      rw [escape]
      split
      · rename_i escapable
        rw [List.cons_append, List.cons_append, quoted, if_pos escapable, ih]
        rfl
      · rename_i plain
        obtain ⟨noQuote, noBackslash⟩ := not_or.mp plain
        rw [List.cons_append, quoted, ih]
        · rfl
        · exact noQuote
        · exact fun same _ => noBackslash same
        · exact fun _ _ same _ => noBackslash same

end Name

/-- A written name is that identifier again, whatever characters it has. -/
theorem Begins.name (name : String) {rest : List Char} (ends : Ends rest) :
    Begins ((Name.render name).toList ++ rest) (.identifier name) rest := by
  rw [Name.render]
  split
  · rename_i bare
    obtain ⟨word, unreserved⟩ := Name.isBare_iff.mp bare
    rw [← unreserved]
    exact Begins.word word ends
  · have read := first_quote (Name.quoted_escape name.toList rest)
    rw [String.ofList_toList] at read
    have split : Name.escape name.toList ++ '"' :: rest = Name.escape name.toList ++ ['"'] ++ rest := by
      rw [List.append_assoc, List.singleton_append]
    rw [split] at read
    rw [String.toList_ofList]
    exact ⟨'"', _, rfl, read⟩

theorem Written.name (name : String) {rest : List Char} {tokens : List Token} (ends : Ends rest)
    (after : Written rest tokens) :
    Written ((Name.render name).toList ++ rest) (.identifier name :: tokens) :=
  token (.name name ends) after

end RelationalLayout
