/-
Blanks and comments between tokens.

What a token is cut as depends on what is behind it only through the first letter there, and
a blank ends every token. So wherever a token starts or stops, a blank can be put, with more blanks
and comments behind it: the lexemes in front are cut as before, what is put there is skipped, and
the tokens behind it only move.
-/

import RelationalLayout.Proofs.Text.Scan

namespace RelationalLayout

open Lexeme

/-! ### Spacing -/

/-- Blanks, and comments each of which ends with its line. -/
inductive IsFiller : List Char → Prop where
  | nil : IsFiller []
  | blank {letter : Char} {rest : List Char} (isBlank : isBlank letter = true)
      (after : IsFiller rest) : IsFiller (letter :: rest)
  | comment {text rest : List Char} (inLine : '\n' ∉ text) (after : IsFiller rest) :
      IsFiller ('/' :: '/' :: (text ++ '\n' :: rest))

/-- Without a blank in front, two slashes might belong to the word before them. -/
structure IsSpacing (text : List Char) : Prop where
  filler : IsFiller text
  starts : firstIs isBlank text = true

theorem IsSpacing.blank_of_mem_head? {text rest : List Char} (isSpacing : IsSpacing text) :
    ∀ letter ∈ (text ++ rest).head?, isBlank letter = true := by
  intro letter atHead
  have starts := isSpacing.starts
  cases text with
  | nil => cases starts
  | cons first text =>
      cases atHead
      exact starts

theorem isBlank_ne_point {letter : Char} (blank : isBlank letter = true) : letter ≠ '.' := by
  rintro rfl
  revert blank
  decide

theorem continuesWord_eq_false_of_isBlank {letter : Char} (blank : isBlank letter = true) :
    continuesWord letter = false := by
  refine Bool.eq_false_iff.mpr fun continues => ?_
  rw [isBlank_eq_false_of_continuesWord continues] at blank
  cases blank

theorem isDigit_eq_false_of_isBlank {letter : Char} (blank : isBlank letter = true) :
    letter.isDigit = false := by
  refine Bool.eq_false_iff.mpr fun digit => ?_
  have stops := continuesWord_eq_false_of_isBlank blank
  rw [continuesWord_of_isDigit digit] at stops
  cases stops

/-! ### Numerals with something else behind them -/

theorem IsNumeral.numeral_append {text rest : List Char} {decimal : Decimal}
    (isNumeral : IsNumeral text decimal) (ends : EndsNumeral rest) :
    numeral (text ++ rest) = (text, decimal.nearest) := by
  cases isNumeral with
  | whole _ whole => exact numeral_whole whole ends
  | point _ whole someBehind behind => exact numeral_point whole behind someBehind ends

theorem IsNumeral.exists_append_digit {text : List Char} {decimal : Decimal} {letter : Char}
    (isNumeral : IsNumeral text decimal) (digit : letter.isDigit = true) :
    ∃ longer, IsNumeral (text ++ [letter]) longer := by
  have digits {text : List Char} (all : ∀ found ∈ text, found.isDigit = true) :
      ∀ found ∈ text ++ [letter], found.isDigit = true :=
    List.forall_mem_append.mpr ⟨all, List.forall_mem_singleton.mpr digit⟩
  have some (text : List Char) : text ++ [letter] ≠ [] :=
    List.append_ne_nil_of_right_ne_nil text (List.cons_ne_nil _ _)
  cases isNumeral with
  | whole _ whole => exact ⟨_, .whole (some _) (digits whole)⟩
  | point someDigits whole _ behind =>
      rw [List.append_assoc, List.cons_append]
      exact ⟨_, .point someDigits whole (some _) (digits behind)⟩

/-! ### Lexemes with something else behind them -/

/-- The other text starts with a blank, or as this one does and with no point. -/
def EndsLike (behind other : List Char) : Prop :=
  ∀ letter ∈ other.head?, isBlank letter = true ∨ letter ∈ behind.head? ∧ letter ≠ '.'

theorem LongestToken.not_rule_append {text behind : List Char} {token found : Token} {letter : Char}
    (longest : LongestToken text behind token) (atHead : letter ∈ behind.head?) :
    ¬TokenRule (text ++ [letter]) found := by
  intro rule
  obtain ⟨later, rfl⟩ := List.head?_eq_some_iff.mp atHead
  have shorter := longest.longest _ _ rule ⟨later, by rw [List.append_assoc, List.singleton_append]⟩
  rw [List.length_append, List.length_singleton] at shorter
  omega

theorem EndsLike.endsNumeral {behind other : List Char} (alike : EndsLike behind other)
    (noDigit : ∀ letter ∈ behind.head?, ¬letter.isDigit = true) : EndsNumeral other := by
  intro letter atHead
  rcases alike letter atHead with blank | ⟨same, noPoint⟩
  · exact ⟨isDigit_eq_false_of_isBlank blank, isBlank_ne_point blank⟩
  · exact ⟨Bool.eq_false_iff.mpr (noDigit letter same), noPoint⟩

namespace Lexeme

/-- With this behind it, the lexeme is cut off as it is. -/
def StandsBefore (lexeme : Lexeme) (behind : List Char) : Prop :=
  ∃ letter tail, lexeme.text = letter :: tail ∧ first letter (tail ++ behind) = lexeme

def IsRecognized (lexeme : Lexeme) : Prop := ∀ stretch, lexeme ≠ .unrecognized stretch

theorem exists_of_cut_eq_cons {text : List Char} {lexeme : Lexeme} {later : List Lexeme}
    (cuts : cut text = lexeme :: later) :
    lexeme.StandsBefore (later.flatMap Lexeme.text) ∧
      cut (later.flatMap Lexeme.text) = later := by
  cases text with
  | nil =>
      rw [cut] at cuts
      cases cuts
  | cons letter rest =>
      obtain ⟨tail, behind, rfl, spelled, cutsOff⟩ := cut_cons_first letter rest
      rw [cuts] at cutsOff
      obtain ⟨rfl, rfl⟩ := List.cons.inj cutsOff
      rw [flatMap_text_cut]
      exact ⟨⟨letter, tail, spelled, rfl⟩, rfl⟩

theorem cut_later {source : List Char} {earlier later : List Lexeme}
    (cuts : cut source = earlier ++ later) : cut (later.flatMap Lexeme.text) = later := by
  induction earlier generalizing source with
  | nil =>
      rw [List.nil_append] at cuts
      rw [← cuts, flatMap_text_cut]
  | cons _ _ ih => exact ih (exists_of_cut_eq_cons cuts).2

theorem standsBefore_of_cut {source : List Char} {earlier later : List Lexeme} {lexeme : Lexeme}
    (cuts : cut source = earlier ++ lexeme :: later) :
    lexeme.StandsBefore (later.flatMap Lexeme.text) :=
  (exists_of_cut_eq_cons (cut_later cuts)).1

namespace StandsBefore

variable {lexeme : Lexeme} {behind other : List Char}

theorem cut_append (stands : lexeme.StandsBefore behind) :
    cut (lexeme.text ++ behind) = lexeme :: cut behind := by
  obtain ⟨letter, tail, spelled, read⟩ := stands
  rw [spelled]
  exact cut_cons read spelled

theorem fits (stands : lexeme.StandsBefore behind) : lexeme.Fits behind := by
  obtain ⟨letter, tail, spelled, read⟩ := stands
  rw [← read] at spelled ⊢
  exact fits_first spelled

theorem text_ne_nil (stands : lexeme.StandsBefore behind) : lexeme.text ≠ [] :=
  stands.fits.text_ne_nil

theorem ne_point (stands : lexeme.StandsBefore behind) (recognized : lexeme.IsRecognized)
    (rest : List Char) : ∀ letter ∈ (lexeme.text ++ rest).head?, letter ≠ '.' := by
  obtain ⟨letter, tail, spelled, read⟩ := stands
  rw [spelled]
  intro found atHead
  cases atHead
  rintro rfl
  exact recognized ['.'] (read.symm.trans rfl)

theorem word_of_endsLike {token : Token} {letter : Char} {tail : List Char}
    (read : first letter (tail ++ behind) = .token token (letter :: tail))
    (starts : startsWord letter = true) (alike : EndsLike behind other) :
    first letter (tail ++ other) = .token token (letter :: tail) := by
  rw [first_of_startsWord starts] at read
  obtain ⟨same, taken⟩ := Lexeme.token.inj read
  have taken := (List.cons.inj taken).2
  obtain ⟨continues, stops⟩ := takeWhile_append_eq_iff.mp taken
  have stopsToo : ∀ found ∈ other.head?, continuesWord found = false := by
    intro found atHead
    rcases alike found atHead with blank | ⟨alsoAtHead, _⟩
    · exact continuesWord_eq_false_of_isBlank blank
    · exact stops found alsoAtHead
  rw [taken] at same
  rw [first_of_startsWord starts, takeWhile_append_of_all continues stopsToo, same]

/-- A token stays what it is before a blank, and before whatever starts as what was behind it. -/
theorem token_of_endsLike {token : Token} {text : List Char}
    (stands : (Lexeme.token token text).StandsBefore behind) (alike : EndsLike behind other) :
    (Lexeme.token token text).StandsBefore other := by
  obtain ⟨letter, tail, spelled, read⟩ := stands
  refine ⟨letter, tail, spelled, ?_⟩
  have spelled : text = letter :: tail := spelled
  have longest : LongestToken text behind token := by
    rw [spelled] at read ⊢
    exact longestToken_of_first read
  have word (isWord : isWord text = true) :
      first letter (tail ++ other) = .token token text := by
    rw [spelled] at isWord read ⊢
    exact word_of_endsLike read (Bool.and_eq_true_iff.mp isWord).1 alike
  cases longest.rule with
  | reserved member => exact word (Token.isWord_of_mem_reserved _ member)
  | word isWord => exact word isWord
  | quoted name =>
      obtain ⟨rfl, rfl⟩ := List.cons.inj spelled
      refine first_quote ?_
      rw [List.append_assoc]
      exact Name.quoted_escape name other
  | number numeral =>
      have ends := alike.endsNumeral fun found atHead digit => by
        obtain ⟨_, longer⟩ := numeral.exists_append_digit digit
        exact longest.not_rule_append atHead (.number longer)
      obtain ⟨first, rest, starts, digit⟩ := numeral.exists_digit
      subst starts
      obtain ⟨rfl, rfl⟩ := List.cons.inj spelled
      exact first_digits digit (numeral.numeral_append ends)
  | negative numeral =>
      have ends := alike.endsNumeral fun found atHead digit => by
        obtain ⟨_, longer⟩ := numeral.exists_append_digit digit
        exact longest.not_rule_append atHead (.negative longer)
      obtain ⟨rfl, rfl⟩ := List.cons.inj spelled
      obtain ⟨first, rest, starts, digit⟩ := numeral.exists_digit
      refine first_minus ?_ (numeral.numeral_append ends)
      rw [starts]
      exact digit
  | mark isMark =>
      obtain ⟨rfl, rfl⟩ := List.cons.inj spelled
      exact first_mark isMark other

theorem blank_of_head?_eq {text : List Char} (stands : (Lexeme.blank text).StandsBefore behind)
    (same : other.head? = behind.head?) : (Lexeme.blank text).StandsBefore other := by
  obtain ⟨letter, tail, spelled, read⟩ := stands
  refine ⟨letter, tail, spelled, ?_⟩
  have spelled : text = letter :: tail := spelled
  obtain ⟨blank, taken⟩ := blank_of_first read
  have taken := (List.cons.inj (taken.symm.trans spelled)).2
  obtain ⟨blanks, stops⟩ := takeWhile_append_eq_iff.mp taken
  rw [← same] at stops
  rw [first, blank, if_pos rfl, takeWhile_append_of_all blanks stops, spelled]

theorem first_slashes (rest : List Char) :
    first '/' ('/' :: rest) = .comment ('/' :: ('/' :: rest).takeWhile (· ≠ '\n')) := rfl

theorem comment_of_ends {text : List Char} (inLine : '\n' ∉ text)
    (ends : ∀ letter ∈ other.head?, letter = '\n') :
    (Lexeme.comment ('/' :: '/' :: text)).StandsBefore other := by
  refine ⟨'/', '/' :: text, rfl, ?_⟩
  have all := ne_lineFeed_iff.mpr
    (List.not_mem_cons_of_ne_of_not_mem (show '\n' ≠ '/' by decide) inLine)
  have stops : ∀ letter ∈ other.head?, decide (letter ≠ '\n') = false := fun letter atHead =>
    decide_eq_false (not_not.mpr (ends letter atHead))
  rw [List.cons_append, first_slashes, ← List.cons_append, takeWhile_append_of_all all stops]

/-- Only the first letter behind a lexeme matters. -/
theorem of_head?_eq (stands : lexeme.StandsBefore behind) (recognized : lexeme.IsRecognized)
    (same : other.head? = behind.head?) (noPoint : ∀ letter ∈ behind.head?, letter ≠ '.') :
    lexeme.StandsBefore other := by
  cases lexeme with
  | token token text =>
      refine stands.token_of_endsLike fun letter atHead => ?_
      rw [same] at atHead
      exact Or.inr ⟨atHead, noPoint letter atHead⟩
  | blank text => exact stands.blank_of_head?_eq same
  | comment text =>
      cases stands.fits with
      | comment inLine ends =>
          rw [← same] at ends
          exact comment_of_ends inLine ends
  | unrecognized text => exact absurd rfl (recognized text)

end StandsBefore

/-! ### Lexemes one behind another -/

theorem stop_le_of_mem_place {start : Nat} {lexemes : List Lexeme} :
    ∀ item ∈ place start lexemes, item.2.stop ≤ start + byteWidth (lexemes.flatMap text) := by
  induction lexemes generalizing start with
  | nil => exact fun _ impossible => absurd impossible List.not_mem_nil
  | cons lexeme lexemes ih =>
      rw [place, List.flatMap_cons, byteWidth_append, ← Nat.add_assoc]
      exact List.forall_mem_cons.mpr ⟨Nat.le_add_right _ _, ih⟩

end Lexeme

def reportedFrom (start : Nat) (text : List Char) : List (Lexeme × Span) :=
  reported (place start (cut text))

theorem reportedFrom_nil (start : Nat) : reportedFrom start [] = [] := by
  rw [reportedFrom, cut]
  rfl

theorem reported_append (earlier later : List (Lexeme × Span)) :
    reported (earlier ++ later) = reported earlier ++ reported later :=
  List.filter_append earlier later

theorem reported_map_snd (move : Span → Span) (placed : List (Lexeme × Span)) :
    reported (placed.map (fun item => (item.1, move item.2))) =
      (reported placed).map (fun item => (item.1, move item.2)) :=
  List.filter_map

theorem reported_place_cons (start : Nat) (lexeme : Lexeme) (later : List Lexeme) :
    reported (place start (lexeme :: later)) =
      reported (place start [lexeme]) ++ reported (place (start + byteWidth lexeme.text) later) := by
  rw [← List.singleton_append, place_append, reported_append, List.flatMap_singleton]

theorem Lexeme.StandsBefore.reportedFrom_append {lexeme : Lexeme} {behind : List Char}
    (stands : lexeme.StandsBefore behind) (start : Nat) :
    reportedFrom start (lexeme.text ++ behind) =
      reported (place start [lexeme]) ++ reportedFrom (start + byteWidth lexeme.text) behind := by
  rw [reportedFrom, stands.cut_append, reported_place_cons]
  rfl

/-! ### What is put between tokens is skipped -/

theorem reportedFrom_dropWhile (start : Nat) (rest : List Char) :
    reportedFrom (start + byteWidth (rest.takeWhile isBlank)) (rest.dropWhile isBlank) =
      reportedFrom start rest := by
  cases rest with
  | nil => rfl
  | cons letter rest =>
      cases blank : isBlank letter with
      | false =>
          rw [List.takeWhile_cons, List.dropWhile_cons, blank, if_neg Bool.false_ne_true]
          rfl
      | true =>
          rw [List.takeWhile_cons_of_pos blank, List.dropWhile_cons_of_pos blank, reportedFrom,
            reportedFrom, Written.cut_blank blank]
          rfl

theorem reportedFrom_blank {letter : Char} (blank : isBlank letter = true) (start : Nat)
    (rest : List Char) :
    reportedFrom start (letter :: rest) = reportedFrom (start + byteWidth [letter]) rest := by
  rw [← reportedFrom_dropWhile (start + byteWidth [letter]), Nat.add_assoc, ← byteWidth_append,
    reportedFrom, reportedFrom, Written.cut_blank blank]
  rfl

theorem reportedFrom_comment {text : List Char} (inLine : '\n' ∉ text) (start : Nat)
    {rest : List Char} (ends : ∀ letter ∈ rest.head?, letter = '\n') :
    reportedFrom start ('/' :: '/' :: text ++ rest) =
      reportedFrom (start + byteWidth ('/' :: '/' :: text)) rest :=
  (StandsBefore.comment_of_ends inLine ends).reportedFrom_append start

namespace IsFiller

theorem reportedFrom_append {filler : List Char} (isFiller : IsFiller filler) (start : Nat)
    (rest : List Char) :
    reportedFrom start (filler ++ rest) = reportedFrom (start + byteWidth filler) rest := by
  induction isFiller generalizing start with
  | nil => rfl
  | @blank letter filler blank _ ih =>
      rw [List.cons_append, reportedFrom_blank blank, ih, Nat.add_assoc, ← byteWidth_append]
      rfl
  | @comment text filler inLine _ ih =>
      have ends : ∀ letter ∈ ('\n' :: (filler ++ rest)).head?, letter = '\n' := by
        intro letter atHead
        cases atHead
        rfl
      have split : '/' :: '/' :: (text ++ '\n' :: filler) ++ rest =
          '/' :: '/' :: text ++ '\n' :: (filler ++ rest) := by
        simp only [List.cons_append, List.append_assoc]
      rw [split, reportedFrom_comment inLine start ends, reportedFrom_blank rfl, ih, Nat.add_assoc,
        Nat.add_assoc, ← byteWidth_append, ← byteWidth_append]
      rfl

theorem append_blank {filler : List Char} (isFiller : IsFiller filler) {text : List Char}
    (blanks : ∀ letter ∈ text, isBlank letter = true) : IsFiller (text ++ filler) := by
  induction text with
  | nil => exact isFiller
  | cons letter text ih =>
      obtain ⟨blank, later⟩ := List.forall_mem_cons.mp blanks
      exact .blank blank (ih later)

theorem dropLine {filler : List Char} (isFiller : IsFiller filler) :
    IsFiller (filler.dropWhile (· ≠ '\n')) := by
  induction isFiller with
  | nil => exact .nil
  | @blank letter filler blank after ih =>
      rw [List.dropWhile_cons]
      split
      · exact ih
      · exact .blank blank after
  | @comment text filler inLine after _ =>
      have all : ∀ letter ∈ '/' :: '/' :: text, decide (letter ≠ '\n') = true :=
        ne_lineFeed_iff.mpr (by simp [inLine])
      have stops : ∀ letter ∈ ('\n' :: filler).head?, decide (letter ≠ '\n') = false := by simp
      have dropped := dropWhile_append_of_all all stops
      rw [List.cons_append, List.cons_append] at dropped
      rw [dropped]
      exact .blank rfl after

/-- A comment goes on through filler behind it to the end of the line, and the rest is filler. -/
theorem reportedFrom_behind_comment {filler : List Char} (isFiller : IsFiller filler)
    {text : List Char} (inLine : '\n' ∉ text) (start : Nat) :
    reportedFrom start ('/' :: '/' :: text ++ filler) = [] := by
  have split := List.takeWhile_append_dropWhile (p := (· ≠ '\n')) (l := filler)
  have longer : '\n' ∉ text ++ filler.takeWhile (· ≠ '\n') :=
    ne_lineFeed_iff.mp (List.forall_mem_append.mpr
      ⟨ne_lineFeed_iff.mpr inLine,
        fun _ inside => List.mem_takeWhile_imp (p := fun letter => decide (letter ≠ '\n')) inside⟩)
  have ends : ∀ letter ∈ (filler.dropWhile (· ≠ '\n')).head?, letter = '\n' := by
    intro letter atHead
    have stops := List.head?_dropWhile_not (· ≠ '\n') filler
    rw [atHead] at stops
    exact not_not.mp (of_decide_eq_false stops)
  have skipped := isFiller.dropLine.reportedFrom_append
  have whole := reportedFrom_comment longer start ends
  rw [← List.cons_append, ← List.cons_append, List.append_assoc, split] at whole
  have empty := skipped (start + byteWidth ('/' :: '/' :: (text ++ filler.takeWhile (· ≠ '\n')))) []
  rw [List.append_nil, reportedFrom_nil] at empty
  exact whole.trans empty

end IsFiller

/-! ### Putting spacing into a text -/

/-- Only behind the whole text may a comment be in front of what is put there. -/
def Closed (earlier later : List Lexeme) : Prop :=
  ∀ stretch, earlier.getLast? = some (.comment stretch) → later = []

theorem Lexeme.StandsBefore.reportedFrom_spacing {lexeme : Lexeme} {later : List Lexeme}
    {spacing : List Char} (stands : lexeme.StandsBefore (later.flatMap text))
    (recognized : lexeme.IsRecognized) (closed : Closed [lexeme] later)
    (isSpacing : IsSpacing spacing) (start : Nat) :
    reportedFrom start (lexeme.text ++ (spacing ++ later.flatMap text)) =
      reported (place start [lexeme]) ++
        reportedFrom (start + byteWidth (lexeme.text ++ spacing))
          (later.flatMap text) := by
  have filler := isSpacing.filler
  cases lexeme with
  | token token text =>
      have alike : EndsLike (later.flatMap Lexeme.text) (spacing ++ later.flatMap Lexeme.text) :=
        fun letter atHead => Or.inl (isSpacing.blank_of_mem_head? letter atHead)
      rw [(stands.token_of_endsLike alike).reportedFrom_append, filler.reportedFrom_append,
        Nat.add_assoc, ← byteWidth_append]
  | blank text =>
      cases stands.fits with
      | blank _ blanks =>
          rw [← List.append_assoc]
          exact (filler.append_blank blanks).reportedFrom_append start _
  | comment text =>
      obtain rfl := closed text rfl
      cases stands.fits with
      | comment inLine =>
          rw [List.flatMap_nil, List.append_nil, reportedFrom_nil]
          exact filler.reportedFrom_behind_comment inLine start
  | unrecognized text => exact absurd rfl (recognized text)

/-- Where the lexemes in front end, spacing is skipped, and the lexemes behind it only move. -/
theorem reportedFrom_spacing {earlier later : List Lexeme} {spacing : List Char}
    (cuts : cut ((earlier ++ later).flatMap text) = earlier ++ later)
    (recognized : ∀ lexeme ∈ earlier ++ later, lexeme.IsRecognized)
    (closed : Closed earlier later) (isSpacing : IsSpacing spacing) (start : Nat) :
    reportedFrom start (earlier.flatMap text ++ (spacing ++ later.flatMap text)) =
      reported (place start earlier) ++
        reportedFrom (start + byteWidth (earlier.flatMap text ++ spacing)) (later.flatMap text) := by
  induction earlier generalizing start with
  | nil => exact isSpacing.filler.reportedFrom_append start _
  | cons lexeme earlier ih =>
      obtain ⟨stands, cutsBehind⟩ := exists_of_cut_eq_cons cuts
      obtain ⟨here, recognizedBehind⟩ := List.forall_mem_cons.mp recognized
      cases earlier with
      | nil =>
          rw [List.flatMap_singleton]
          exact stands.reportedFrom_spacing here closed isSpacing start
      | cons next earlier =>
          obtain ⟨standsNext, _⟩ := exists_of_cut_eq_cons cutsBehind
          have closedBehind : Closed (next :: earlier) later := fun stretch last =>
            closed stretch ((List.getLast?_cons_cons).trans last)
          have noPoint := standsNext.ne_point (List.forall_mem_cons.mp recognizedBehind).1
          -- The first letter behind the lexeme is that of the next one, with spacing or without.
          obtain ⟨letter, tail, spelled⟩ := List.exists_cons_of_ne_nil standsNext.text_ne_nil
          have same : ((next :: earlier).flatMap text ++ (spacing ++ later.flatMap text)).head? =
              ((next :: earlier ++ later).flatMap text).head? := by
            rw [List.cons_append, List.flatMap_cons, List.flatMap_cons, spelled]
            rfl
          have standsToo := stands.of_head?_eq here same (noPoint _)
          rw [List.flatMap_cons, List.append_assoc, standsToo.reportedFrom_append,
            ih cutsBehind recognizedBehind closedBehind, reported_place_cons start lexeme
              (next :: earlier), List.append_assoc, List.append_assoc lexeme.text,
            byteWidth_append lexeme.text, Nat.add_assoc]

/-! ### Boundaries of tokens -/

/-- A byte where the text starts or ends, or where one of its tokens does. -/
def IsTokenBoundary (source : List Char) (placed : List (Token × Span)) (byte : Nat) : Prop :=
  byte = 0 ∨ byte = byteWidth source ∨ ∃ item ∈ placed, byte = item.2.start ∨ byte = item.2.stop

instance (source : List Char) (placed : List (Token × Span)) (byte : Nat) :
    Decidable (IsTokenBoundary source placed byte) :=
  inferInstanceAs (Decidable (_ ∨ _ ∨ _))

theorem eq_of_byteWidth_eq {left right whole : List Char} (leftBegins : left <+: whole)
    (rightBegins : right <+: whole) (same : byteWidth left = byteWidth right) : left = right := by
  have longer {left right : List Char} (begins : left <+: right)
      (same : byteWidth left = byteWidth right) : left = right := by
    obtain ⟨rest, rfl⟩ := begins
    rw [byteWidth_append] at same
    have none : rest = [] := by
      by_contra some
      have wide := byteWidth_pos some
      omega
    rw [none, List.append_nil]
  rcases List.prefix_or_prefix_of_prefix leftBegins rightBegins with begins | begins
  · exact longer begins same
  · exact (longer begins same.symm).symm

theorem closed_of_token {source stretch : List Char} {earlier later : List Lexeme} {token : Token}
    (cuts : cut source = earlier ++ .token token stretch :: later) :
    Closed earlier (.token token stretch :: later) := by
  intro comment last
  obtain ⟨front, rfl⟩ := List.getLast?_eq_some_iff.mp last
  obtain ⟨letter, tail, spelled, read⟩ := standsBefore_of_cut cuts
  rw [List.append_assoc, List.singleton_append] at cuts
  cases (standsBefore_of_cut cuts).fits with
  | comment _ ends =>
      obtain rfl : letter = '\n' := ends letter (by rw [List.flatMap_cons, spelled]; rfl)
      cases read

theorem IsTokenBoundary.exists_split {before behind : List Char}
    (boundary : IsTokenBoundary (before ++ behind)
      (placedTokens (place 0 (cut (before ++ behind)))) (byteWidth before)) :
    ∃ earlier later, cut (before ++ behind) = earlier ++ later ∧
      earlier.flatMap text = before ∧ later.flatMap text = behind ∧ Closed earlier later := by
  have whole := flatMap_text_cut (before ++ behind)
  have split {earlier later : List Lexeme} (cuts : cut (before ++ behind) = earlier ++ later)
      (same : byteWidth before = byteWidth (earlier.flatMap text)) :
      earlier.flatMap text = before ∧ later.flatMap text = behind := by
    rw [cuts, List.flatMap_append] at whole
    have begins := eq_of_byteWidth_eq ⟨behind, rfl⟩ ⟨_, whole⟩ same
    rw [← begins] at whole
    exact ⟨begins.symm, List.append_cancel_left whole⟩
  rcases boundary with first | last | ⟨entry, member, boundary⟩
  · obtain ⟨isBefore, isBehind⟩ := split (List.nil_append _).symm first
    exact ⟨[], _, rfl, isBefore, isBehind, fun _ impossible => by cases impossible⟩
  · have all : byteWidth before = byteWidth ((cut (before ++ behind)).flatMap text) := by
      rw [whole, last]
    obtain ⟨isBefore, isBehind⟩ := split (List.append_nil _).symm all
    exact ⟨_, [], (List.append_nil _).symm, isBefore, isBehind, fun _ _ => rfl⟩
  · obtain ⟨⟨lexeme, span⟩, placed, found⟩ := List.mem_filterMap.mp member
    obtain ⟨_, _, splits⟩ := List.append_of_mem placed
    obtain ⟨earlier, later, cuts, -, rfl⟩ := of_place_eq_append_cons [] splits
    cases lexeme with
    | token token stretch =>
        cases found
        rcases boundary with starts | stops
        · obtain ⟨isBefore, isBehind⟩ := split cuts starts
          exact ⟨earlier, _, cuts, isBefore, isBehind, closed_of_token cuts⟩
        · have cutsBehind := cuts.trans (List.append_cons earlier _ later)
          have same : byteWidth before =
              byteWidth ((earlier ++ [Lexeme.token token stretch]).flatMap text) := by
            rw [List.flatMap_append, List.flatMap_singleton]
            exact stops
          obtain ⟨isBefore, isBehind⟩ := split cutsBehind same
          refine ⟨_, later, cutsBehind, isBefore, isBehind, fun comment last => ?_⟩
          rw [List.getLast?_concat] at last
          cases last
    | blank | comment | unrecognized => cases found

/-! ### Reading a text with spacing put into it -/

/-- The span once there is more at a byte: what starts there or behind it moves. -/
def Span.makeRoom (byte width : Nat) (span : Span) : Span :=
  if byte ≤ span.start then { start := span.start + width, stop := span.stop + width } else span

theorem Lexeme.place_add (start width : Nat) (lexemes : List Lexeme) :
    place (start + width) lexemes =
      (place start lexemes).map (fun item => (item.1, item.2.makeRoom start width)) := by
  have move (lexemes : List Lexeme) (later : Nat) (behind : start ≤ later) :
      place (later + width) lexemes =
        (place later lexemes).map (fun item => (item.1, item.2.makeRoom start width)) := by
    induction lexemes generalizing later with
    | nil => rfl
    | cons lexeme lexemes ih =>
        have next := ih (later + byteWidth lexeme.text) (Nat.le_add_right_of_le behind)
        rw [place, place, List.map_cons, ← next, Span.makeRoom, if_pos behind,
          Nat.add_right_comm later width]
  exact move lexemes start (Nat.le_refl start)

theorem reported_spacing {before spacing behind : List Char}
    (recognized : ∀ lexeme ∈ cut (before ++ behind), lexeme.IsRecognized)
    (boundary : IsTokenBoundary (before ++ behind)
      (placedTokens (place 0 (cut (before ++ behind)))) (byteWidth before))
    (isSpacing : IsSpacing spacing) :
    reported (place 0 (cut (before ++ (spacing ++ behind)))) =
      (reported (place 0 (cut (before ++ behind)))).map
        (fun item => (item.1, item.2.makeRoom (byteWidth before) (byteWidth spacing))) := by
  have scans := scans_cut 0 (before ++ behind)
  obtain ⟨earlier, later, cuts, rfl, rfl, closed⟩ := boundary.exists_split
  rw [cuts] at recognized scans
  have inserted := reportedFrom_spacing (by rwa [List.flatMap_append]) recognized closed isSpacing 0
  have stay : ∀ item ∈ reported (place 0 earlier),
      (item.1, item.2.makeRoom (byteWidth (earlier.flatMap text)) (byteWidth spacing)) = item := by
    intro item member
    have inEarlier := List.mem_of_mem_filter member
    have visible := scans.start_lt_stop item (place_append 0 earlier later ▸
      List.mem_append_left _ inEarlier)
    have within := stop_le_of_mem_place item inEarlier
    rw [Nat.zero_add] at within
    rw [Span.makeRoom, if_neg (by omega)]
  rw [reportedFrom, reportedFrom, Nat.zero_add, byteWidth_append, cut_later cuts, place_add,
    reported_map_snd] at inserted
  rw [inserted, cuts, place_append, Nat.zero_add, reported_append, List.map_append,
    List.map_congr_left stay, List.map_id']

theorem readProgram_congr {source other : String} {placed placedToo : List (Token × Span)}
    (tokenized : readTokens source = .ok placed) (tokenizedToo : readTokens other = .ok placedToo)
    (same : placedToo.map Prod.fst = placed.map Prod.fst) (program : Program) :
    readProgram other = .ok program ↔ readProgram source = .ok program := by
  rw [readProgram_eq_ok_iff_run, readProgram_eq_ok_iff_run, tokenized, tokenizedToo]
  simp only [Except.ok.injEq, exists_eq_left', same]

/-- Where a token starts or stops, or at an end of the text, a blank with more blanks and comments
behind it changes nothing but where the tokens behind it lie. -/
theorem readTokens_spacing {before spacing behind : String} {placed : List (Token × Span)}
    (tokenized : readTokens (before ++ behind) = .ok placed)
    (boundary : IsTokenBoundary (before ++ behind).toList placed (byteWidth before.toList))
    (isSpacing : IsSpacing spacing.toList) :
    readTokens (before ++ spacing ++ behind) =
        .ok (placed.map (fun item => (item.1,
          item.2.makeRoom (byteWidth before.toList) (byteWidth spacing.toList)))) ∧
      ∀ program, readProgram (before ++ spacing ++ behind) = .ok program ↔
        readProgram (before ++ behind) = .ok program := by
  have read := readTokens_eq_ok_iff.mp tokenized
  have entries := forall₂_isEntry_iff.mpr read
  obtain ⟨none, isPlaced⟩ := read
  rw [isPlaced] at boundary
  rw [String.toList_append] at none boundary entries
  have inserted := reported_spacing ((unrecognizedStretches_place_eq_nil_iff 0).mp none) boundary
    isSpacing
  have spaced : readTokens (before ++ spacing ++ behind) =
      .ok (placed.map (fun item => (item.1,
        item.2.makeRoom (byteWidth before.toList) (byteWidth spacing.toList)))) := by
    refine readTokens_eq_ok_iff.mpr (forall₂_isEntry_iff.mp ?_)
    rw [String.toList_append, String.toList_append, List.append_assoc, inserted,
      List.forall₂_map_left_iff, List.forall₂_map_right_iff]
    exact entries.imp fun item entry isEntry => ⟨isEntry.1, congrArg (Span.makeRoom _ _) isEntry.2⟩
  refine ⟨spaced, readProgram_congr tokenized spaced ?_⟩
  rw [List.map_map]
  rfl

/-- Between a quoted name and a word with slashes in it there need not be a blank. -/
theorem readTokens_spacing_between_names :
    readTokens ("IF \"a\"" ++ " // two\n" ++ "b//c") =
        .ok [(.keyword .ifWord, { start := 0, stop := 2 }),
          (.identifier "a", { start := 3, stop := 6 }),
          (.identifier "b//c", { start := 14, stop := 18 })] ∧
      ∀ program, readProgram ("IF \"a\"" ++ " // two\n" ++ "b//c") = .ok program ↔
        readProgram ("IF \"a\"" ++ "b//c") = .ok program := by
  have letters :
      " // two\n".toList = ' ' :: '/' :: '/' :: ([' ', 't', 'w', 'o'] ++ '\n' :: []) := by
    decide +kernel
  have isSpacing : IsSpacing " // two\n".toList := by
    rw [letters]
    exact ⟨.blank rfl (.comment (by decide) .nil), rfl⟩
  have tokenized : readTokens ("IF \"a\"" ++ "b//c") =
      .ok [(.keyword .ifWord, { start := 0, stop := 2 }),
        (.identifier "a", { start := 3, stop := 6 }),
        (.identifier "b//c", { start := 6, stop := 10 })] := by
    decide +kernel
  obtain ⟨spaced, same⟩ := readTokens_spacing tokenized (by decide +kernel) isSpacing
  refine ⟨spaced.trans ?_, same⟩
  decide +kernel

end RelationalLayout
