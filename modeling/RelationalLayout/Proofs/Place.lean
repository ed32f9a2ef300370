/-
Where the reports of a text point.

The place of a character is a line and a column, and each character has its own. A report
takes the bytes of an error for the numbers of characters. It is drawn unless the error runs
backwards or ends behind the text then, and if so it points at the error exactly when every
letter before the error is one byte wide.
-/

import RelationalLayout.Place
import RelationalLayout.Proofs.Text.Span

namespace RelationalLayout

/-! ### Lines -/

theorem flatten_reportLines (source : List Char) : (reportLines source).flatten = source := by
  fun_induction reportLines source with
  | case1 => rfl
  | case2 rest ih => rw [List.flatten_cons, ih, List.cons_append, List.singleton_append]
  | case3 letter rest _ ends ih => rw [List.flatten_cons, ih, List.singleton_append]
  | case4 letter rest _ ends none ih =>
      rw [none] at ih
      rw [List.flatten_singleton, ← ih, List.flatten_nil]
  | case5 letter rest _ ends line lines more ih =>
      rw [more] at ih
      rw [List.flatten_cons, List.cons_append, ← List.flatten_cons, ih]

/-- A position among lines: the lines before it, and its own line cut in two there. The end of a
line is the start of the next one. -/
theorem exists_split_lines {lines : List (List Char)} {index : Nat} (nonEmpty : lines ≠ [])
    (within : index ≤ lines.flatten.length) :
    ∃ earlier before after later, lines = earlier ++ (before ++ after) :: later ∧
      (after = [] → later = []) ∧ earlier.flatten.length + before.length = index := by
  induction lines generalizing index with
  | nil => exact absurd rfl nonEmpty
  | cons line lines ih =>
      rw [List.flatten_cons, List.length_append] at within
      by_cases inLine : index < line.length ∨ lines = []
      · have inside : index ≤ line.length := by
          rcases inLine with short | rfl
          · exact Nat.le_of_lt short
          · rw [List.flatten_nil, List.length_nil, Nat.add_zero] at within
            exact within
        refine ⟨[], line.take index, line.drop index, lines, ?_, ?_, ?_⟩
        · rw [List.take_append_drop, List.nil_append]
        · intro atEnd
          rw [List.drop_eq_nil_iff] at atEnd
          exact inLine.resolve_left (Nat.not_lt.mpr atEnd)
        · rw [List.flatten_nil, List.length_nil, List.length_take, Nat.min_eq_left inside,
            Nat.zero_add]
      · obtain ⟨behind, more⟩ := not_or.mp inLine
        have remaining : index - line.length ≤ lines.flatten.length := by omega
        obtain ⟨earlier, before, after, later, rfl, last, counts⟩ := ih more remaining
        refine ⟨line :: earlier, before, after, later, rfl, last, ?_⟩
        rw [List.flatten_cons, List.length_append]
        omega

theorem placeInLines_cons (number index : Nat) (line : List Char) {lines : List (List Char)}
    (more : lines ≠ []) :
    placeInLines number index (line :: lines) =
      if index < line.length then
        some { line := number, column := index + 1 }
      else
        placeInLines (number + 1) (index - line.length) lines := by
  cases lines with
  | nil => exact absurd rfl more
  | cons next lines => rw [placeInLines]

theorem placeInLines_append (number : Nat) (earlier : List (List Char)) {before after : List Char}
    {later : List (List Char)} (last : after = [] → later = []) :
    placeInLines number (earlier.flatten.length + before.length)
        (earlier ++ (before ++ after) :: later) =
      some { line := number + earlier.length, column := before.length + 1 } := by
  induction earlier generalizing number with
  | nil =>
      rw [List.flatten_nil, List.length_nil, Nat.zero_add, List.nil_append]
      by_cases alone : later = []
      · rw [alone]
        rfl
      · have visible : 0 < after.length := List.length_pos_iff.mpr (fun none => alone (last none))
        have inLine : before.length < (before ++ after).length := by
          rw [List.length_append]
          omega
        rw [placeInLines_cons _ _ _ alone, if_pos inLine]
        rfl
  | cons line earlier ih =>
      have counts : (line :: earlier).flatten.length + before.length =
          line.length + (earlier.flatten.length + before.length) := by
        rw [List.flatten_cons, List.length_append, Nat.add_assoc]
      have more : earlier ++ (before ++ after) :: later ≠ [] :=
        List.append_ne_nil_of_right_ne_nil _ (List.cons_ne_nil _ _)
      rw [List.cons_append, counts, placeInLines_cons _ _ _ more,
        if_neg (Nat.not_lt.mpr (Nat.le_add_right _ _)), Nat.add_sub_cancel_left, ih,
        List.length_cons, Nat.add_right_comm, Nat.add_assoc]

/-! ### Places of characters -/

/-- The line and column of a character of a text, and of its end: the lines before it and the
characters before it in its own line are counted from one. -/
def LineColumn.Locates (source : List Char) (index : Nat) (place : LineColumn) : Prop :=
  ∃ earlier before after later, reportLines source = earlier ++ (before ++ after) :: later ∧
    (after = [] → later = []) ∧ earlier.flatten.length + before.length = index ∧
    place = { line := earlier.length + 1, column := before.length + 1 }

namespace LineColumn

variable {source : List Char} {index other : Nat} {place : LineColumn}

theorem exists_locates (nonEmpty : source ≠ []) (within : index ≤ source.length) :
    ∃ place, Locates source index place := by
  have whole := flatten_reportLines source
  have lines : reportLines source ≠ [] := by
    intro none
    rw [none] at whole
    exact nonEmpty whole.symm
  rw [← whole] at within
  obtain ⟨earlier, before, after, later, split, last, counts⟩ := exists_split_lines lines within
  exact ⟨_, earlier, before, after, later, split, last, counts, rfl⟩

theorem Locates.le_length (located : Locates source index place) : index ≤ source.length := by
  obtain ⟨earlier, before, after, later, split, -, rfl, -⟩ := located
  rw [← flatten_reportLines source, split, List.flatten_append, List.flatten_cons,
    List.length_append, List.length_append, List.length_append]
  omega

theorem Locates.index_eq (located : Locates source index place)
    (locatedToo : Locates source other place) : index = other := by
  obtain ⟨earlier, before, after, later, split, -, rfl, rfl⟩ := located
  obtain ⟨earlierToo, beforeToo, afterToo, laterToo, splitToo, -, rfl, same⟩ := locatedToo
  obtain ⟨lines, columns⟩ := LineColumn.mk.inj same
  obtain ⟨rfl, -⟩ := List.append_inj (split.symm.trans splitToo) (Nat.succ.inj lines)
  rw [Nat.succ.inj columns]

end LineColumn

theorem placeOfCharacter?_eq_some_iff {source : List Char} {index : Nat} {place : LineColumn} :
    placeOfCharacter? source index = some place ↔ place.Locates source index := by
  -- Every place is found; one that is found is then the only one.
  have complete : ∀ {other : LineColumn}, other.Locates source index →
      placeOfCharacter? source index = some other := by
    intro other located
    have within := located.le_length
    obtain ⟨earlier, before, after, later, split, last, rfl, rfl⟩ := located
    rw [placeOfCharacter?, if_neg (Nat.not_lt.mpr within), split, placeInLines_append 1 _ last,
      Nat.add_comm]
  refine ⟨fun found => ?_, complete⟩
  have within : index ≤ source.length := by
    by_contra behind
    rw [placeOfCharacter?, if_pos (Nat.not_le.mp behind)] at found
    cases found
  have nonEmpty : source ≠ [] := by
    rintro rfl
    rw [placeOfCharacter?, if_neg (Nat.not_lt.mpr within)] at found
    cases found
  obtain ⟨other, located⟩ := LineColumn.exists_locates nonEmpty within
  cases (complete located).symm.trans found
  exact located

theorem Span.place?_eq_some_iff {source : List Char} {span : Span} {place : LineColumn} :
    span.place? source = some place ↔
      span.start ≤ span.stop ∧ span.stop ≤ source.length + 1 ∧
        place.Locates source span.start := by
  rw [Span.place?]
  split
  · rename_i drawn
    rw [placeOfCharacter?_eq_some_iff, ← and_assoc, and_iff_right drawn]
  · rename_i undrawn
    rw [← and_assoc]
    exact iff_of_false (fun impossible => by cases impossible) (fun given => undrawn given.1)

/-! ### Bytes and characters -/

theorem length_le_byteWidth (text : List Char) : text.length ≤ byteWidth text := by
  induction text with
  | nil => exact Nat.le_refl 0
  | cons letter text ih =>
      have width := letter.utf8Size_pos
      rw [byteWidth, List.length_cons]
      omega

theorem byteWidth_eq_length_iff {text : List Char} :
    byteWidth text = text.length ↔ ∀ letter ∈ text, letter.utf8Size = 1 := by
  induction text with
  | nil => simp [byteWidth]
  | cons letter text ih =>
      have width := letter.utf8Size_pos
      have counts := length_le_byteWidth text
      rw [byteWidth, List.length_cons, List.forall_mem_cons, ← ih]
      omega

/-! ### Errors -/

theorem readProgram_empty : readProgram "" = .ok [] := by decide +kernel

namespace SyntaxError

variable {source : String} {errors : List SyntaxError} {error : SyntaxError}

theorem exists_split (refused : readProgram source = .error errors) (member : error ∈ errors) :
    ∃ before after, source.toList = before ++ after ∧ byteWidth before = error.span.start := by
  obtain ⟨right, found, starts, -⟩ := exists_isFoundAt refused member
  obtain ⟨before, ⟨after, whole⟩, counts⟩ := found.isValid.starts
  exact ⟨before, after, whole.symm, counts.trans starts.symm⟩

/-- An error runs backwards exactly when something is skipped between it and its stop. -/
theorem start_le_stop_iff (refused : readProgram source = .error errors) (member : error ∈ errors) :
    error.span.start ≤ error.span.stop ↔ error.fault.lag source.toList = 0 := by
  obtain ⟨right, found, starts, stops⟩ := exists_isFoundAt refused member
  have ordered := found.isValid.ordered
  have punctual := found.lag_eq_zero_or
  omega

/-- A report is drawn of every error that does not run backwards over what is skipped at the end of
the text, if the error ends in the text when its bytes are taken for characters. It then names the
character whose number is the byte at which the error starts, which is the place of the error
exactly when the letters before it are one byte wide each. -/
theorem place?_exact (refused : readProgram source = .error errors) :
    ∀ error ∈ errors, ∃ before after right, source.toList = before ++ after ∧
      byteWidth before = error.span.start ∧
      LineColumn.Locates source.toList before.length right ∧
      (∀ place, error.place? source = some place ↔
        error.fault.lag source.toList = 0 ∧ error.span.stop ≤ source.toList.length + 1 ∧
          LineColumn.Locates source.toList (byteWidth before) place) ∧
      (error.place? source = some right ↔
        error.fault.lag source.toList = 0 ∧ error.span.stop ≤ source.toList.length + 1 ∧
          ∀ letter ∈ before, letter.utf8Size = 1) := by
  intro error member
  obtain ⟨before, after, whole, counts⟩ := exists_split refused member
  have nonEmpty : source.toList ≠ [] := by
    intro empty
    rw [String.toList_eq_nil_iff] at empty
    rw [empty, readProgram_empty] at refused
    cases refused
  have within : before.length ≤ source.toList.length := by
    rw [whole, List.length_append]
    exact Nat.le_add_right _ _
  obtain ⟨right, located⟩ := LineColumn.exists_locates nonEmpty within
  have named : ∀ place, error.place? source = some place ↔
      error.fault.lag source.toList = 0 ∧ error.span.stop ≤ source.toList.length + 1 ∧
        LineColumn.Locates source.toList (byteWidth before) place := by
    intro place
    rw [place?, Span.place?_eq_some_iff, start_le_stop_iff refused member, counts]
  have pointed : LineColumn.Locates source.toList (byteWidth before) right ↔
      ∀ letter ∈ before, letter.utf8Size = 1 := by
    rw [← byteWidth_eq_length_iff]
    constructor
    · exact fun pointed => pointed.index_eq located
    · intro narrow
      rw [narrow]
      exact located
  refine ⟨before, after, right, whole, counts, located, named, ?_⟩
  rw [named, pointed]

/-- The error of a text that says `THEN` twice, in its second line. -/
def repeatedThen : SyntaxError :=
  { span := { start := 15, stop := 19 }
    fault := .unexpected (some (.keyword .thenWord)) [.token (.keyword .ifWord), .layout] }

def unfinished : SyntaxError :=
  { span := { start := 3, stop := 2 }, fault := .unexpected none [.identifier] }

def wideName : SyntaxError :=
  { span := { start := 5, stop := 13 }
    fault := .unexpected (some (.identifier "ééé")) [.token .openParen, .token .colon] }

/-- A carriage return and the line feed behind it are two characters and one line end. -/
theorem place?_exact_second_line :
    readProgram "IF a : T\r\nTHEN THEN" = .error [repeatedThen] ∧
      ∀ error ∈ [repeatedThen], ∃ before after right,
        "IF a : T\r\nTHEN THEN".toList = before ++ after ∧ byteWidth before = error.span.start ∧
        LineColumn.Locates "IF a : T\r\nTHEN THEN".toList before.length right ∧
        (∀ place, error.place? "IF a : T\r\nTHEN THEN" = some place ↔
          error.fault.lag "IF a : T\r\nTHEN THEN".toList = 0 ∧
            error.span.stop ≤ "IF a : T\r\nTHEN THEN".toList.length + 1 ∧
            LineColumn.Locates "IF a : T\r\nTHEN THEN".toList (byteWidth before) place) ∧
        (error.place? "IF a : T\r\nTHEN THEN" = some right ↔
          error.fault.lag "IF a : T\r\nTHEN THEN".toList = 0 ∧
            error.span.stop ≤ "IF a : T\r\nTHEN THEN".toList.length + 1 ∧
            ∀ letter ∈ before, letter.utf8Size = 1) := by
  have refused : readProgram "IF a : T\r\nTHEN THEN" = .error [repeatedThen] := by decide +kernel
  exact ⟨refused, place?_exact refused⟩

example : repeatedThen.place? "IF a : T\r\nTHEN THEN" = some { line := 2, column := 6 } := by
  decide +kernel

-- A blank behind the last token leaves an error at the end without a place, and so do letters of
-- two bytes that are the error themselves.
example : readProgram "IF " = .error [unfinished] ∧ unfinished.place? "IF " = none := by
  decide +kernel

example : readProgram "IF a \"ééé\"" = .error [wideName] ∧ wideName.place? "IF a \"ééé\"" = none := by
  decide +kernel

/-- One letter of two bytes before an error shifts its report by a column. -/
theorem place?_behind_wide_letter :
    ∃ error, readProgram "IF \"é\" T" = .error [error] ∧
      byteWidth "IF \"é\" ".toList = error.span.start ∧
      LineColumn.Locates "IF \"é\" T".toList "IF \"é\" ".toList.length { line := 1, column := 8 } ∧
      error.place? "IF \"é\" T" = some { line := 1, column := 9 } := by
  refine ⟨{ span := { start := 8, stop := 9 }
            fault := .unexpected (some (.identifier "T")) [.token .openParen, .token .colon] },
    ?_, ?_, ?_, ?_⟩
  · decide +kernel
  · decide +kernel
  · exact placeOfCharacter?_eq_some_iff.mp (by decide +kernel)
  · decide +kernel

end SyntaxError

end RelationalLayout
