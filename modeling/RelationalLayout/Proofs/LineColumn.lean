/-
Lines and columns of the bytes of a text.

Both are counted from one, the column in bytes since the last line feed. The line and
column of a byte lead back to that byte, inside a character and at the end of the text
too. Any other line and column leads to no byte behind the text, and a later one never
leads to an earlier byte.
-/

import RelationalLayout.Json.Fault
import RelationalLayout.Proofs.Text.Span

namespace RelationalLayout

/-! ### Bytes -/

def bytesOf (letters : List Char) : List UInt8 := letters.flatMap String.utf8EncodeChar

theorem toList_data_toByteArray (source : String) :
    source.toByteArray.data.toList = bytesOf source.toList := by
  rw [← String.utf8Encode_toList, List.utf8Encode, List.data_toByteArray, bytesOf]

theorem length_bytesOf (letters : List Char) : (bytesOf letters).length = byteWidth letters := by
  induction letters with
  | nil => rfl
  | cons letter rest ih =>
      rw [byteWidth, ← ih, bytesOf, List.flatMap_cons, List.length_append,
        String.length_utf8EncodeChar, bytesOf]

theorem byteWidth_toList (source : String) : byteWidth source.toList = source.utf8ByteSize := by
  rw [← length_bytesOf, bytesOf, ← List.size_toByteArray, ← List.utf8Encode,
    String.utf8Encode_toList, String.utf8ByteSize]

theorem lineFeed_mem_utf8EncodeChar_iff {letter : Char} :
    10 ∈ String.utf8EncodeChar letter ↔ letter = '\n' := by
  constructor
  · intro member
    refine Char.ext (UInt32.toNat_inj.mp ?_)
    change letter.val.toNat = 10
    have lineFeed : UInt8.toNat 10 = 10 := rfl
    rw [String.utf8EncodeChar] at member
    -- The bytes of a letter that takes several are 128 or more.
    repeat' split at member
    all_goals
      simp only [List.mem_cons, List.not_mem_nil, or_false, ← UInt8.toNat_inj,
        UInt8.toNat_ofNat', lineFeed] at member
      omega
  · rintro rfl
    decide

/-! ### The place behind some bytes -/

def sinceLineFeed (bytes : List UInt8) : Nat := (bytes.reverse.takeWhile (· ≠ 10)).length

theorem sinceLineFeed_of_not_mem {bytes : List UInt8} (oneLine : 10 ∉ bytes) :
    sinceLineFeed bytes = bytes.length := by
  have all : ∀ byte ∈ bytes.reverse, decide (byte ≠ 10) = true := by
    intro byte member
    refine decide_eq_true ?_
    rintro rfl
    exact oneLine (List.mem_reverse.mp member)
  rw [sinceLineFeed, List.takeWhile_eq_self_iff.mpr all, List.length_reverse]

theorem sinceLineFeed_append_of_mem (before : List UInt8) {bytes : List UInt8}
    (broken : 10 ∈ bytes) : sinceLineFeed (before ++ bytes) = sinceLineFeed bytes := by
  rw [sinceLineFeed, sinceLineFeed, List.reverse_append, List.takeWhile_append, if_neg]
  intro whole
  have all := List.takeWhile_eq_self_iff.mp ((List.takeWhile_prefix _).eq_of_length whole)
  exact of_decide_eq_true (all 10 (List.mem_reverse.mpr broken)) rfl

theorem sinceLineFeed_lineFeed (bytes : List UInt8) :
    sinceLineFeed (10 :: bytes) = sinceLineFeed bytes := by
  rw [sinceLineFeed, sinceLineFeed, List.reverse_cons, List.takeWhile_append]
  split
  · rename_i whole
    rw [List.length_append, whole]
    rfl
  · rfl

namespace LineColumn

def after (before : List UInt8) : LineColumn :=
  { line := 1 + before.count 10, column := 1 + sinceLineFeed before }

end LineColumn

/-! ### Where a line starts -/

def lineStart (source : List Char) (lines : Nat) : Nat :=
  byteWidth ((linesOf source).take lines).flatten

theorem lineStart_zero (source : List Char) : lineStart source 0 = 0 := rfl

theorem lineStart_lineFeed (rest : List Char) (lines : Nat) :
    lineStart ('\n' :: rest) (lines + 1) = 1 + lineStart rest lines := by
  rw [lineStart, linesOf, if_pos rfl, List.take_succ_cons, List.flatten_cons, byteWidth_append]
  rfl

theorem lineStart_cons {letter : Char} (other : letter ≠ '\n') (rest : List Char) (lines : Nat) :
    lineStart (letter :: rest) (lines + 1) = letter.utf8Size + lineStart rest (lines + 1) := by
  rw [lineStart, linesOf, if_neg other, lineStart]
  cases linesOf rest with
  | nil => simp [byteWidth]
  | cons line later =>
      simp only [List.take_succ_cons, List.flatten_cons, List.cons_append, byteWidth]

theorem lineStart_mono (source : List Char) {lines more : Nat} (fewer : lines ≤ more) :
    lineStart source lines ≤ lineStart source more := by
  have split := List.take_append_drop lines ((linesOf source).take more)
  rw [List.take_take, Nat.min_eq_left fewer] at split
  rw [lineStart, lineStart, ← split, List.flatten_append, byteWidth_append]
  exact Nat.le_add_right _ _

/-- The bytes of the lines that end among some bytes, and of those bytes the ones behind them. -/
def countedBytes (source : List Char) (before : List UInt8) : Nat :=
  lineStart source (before.count 10) + sinceLineFeed before

theorem countedBytes_of_not_mem (source : List Char) {before : List UInt8}
    (oneLine : 10 ∉ before) : countedBytes source before = before.length := by
  rw [countedBytes, List.count_eq_zero_of_not_mem oneLine, lineStart_zero,
    sinceLineFeed_of_not_mem oneLine, Nat.zero_add]

theorem countedBytes_lineFeed (rest : List Char) (before : List UInt8) :
    countedBytes ('\n' :: rest) (10 :: before) = 1 + countedBytes rest before := by
  rw [countedBytes, countedBytes, List.count_cons_self, lineStart_lineFeed,
    sinceLineFeed_lineFeed, Nat.add_assoc]

theorem countedBytes_cons {letter : Char} (other : letter ≠ '\n') (rest : List Char)
    (before : List UInt8) :
    countedBytes (letter :: rest) (String.utf8EncodeChar letter ++ before) =
      letter.utf8Size + countedBytes rest before := by
  have noEnd := mt lineFeed_mem_utf8EncodeChar_iff.mp other
  by_cases broken : 10 ∈ before
  · have breaks := Nat.ne_of_gt (List.count_pos_iff.mpr broken)
    obtain ⟨lines, more⟩ := Nat.exists_eq_add_one_of_ne_zero breaks
    rw [countedBytes, countedBytes, List.count_append, List.count_eq_zero_of_not_mem noEnd,
      Nat.zero_add, more, lineStart_cons other, sinceLineFeed_append_of_mem _ broken, Nat.add_assoc]
  · rw [countedBytes_of_not_mem _ (List.not_mem_append noEnd broken), countedBytes_of_not_mem _ broken,
      List.length_append, String.length_utf8EncodeChar]

/-- Nothing is counted twice and nothing is left out. The letters are taken off one by one from the
front; a line feed among them moves all later bytes down by a line. -/
theorem countedBytes_take {letters : List Char} {index : Nat} (within : index ≤ byteWidth letters) :
    countedBytes letters ((bytesOf letters).take index) = index := by
  induction letters generalizing index with
  | nil =>
      rw [Nat.le_zero.mp within]
      rfl
  | cons letter rest ih =>
      have bytes : bytesOf (letter :: rest) = String.utf8EncodeChar letter ++ bytesOf rest :=
        List.flatMap_cons
      have width := String.length_utf8EncodeChar letter
      rw [byteWidth] at within
      rw [bytes, List.take_append, width]
      by_cases inside : index < letter.utf8Size
      · have oneLine : 10 ∉ (String.utf8EncodeChar letter).take index := by
          intro member
          obtain rfl := lineFeed_mem_utf8EncodeChar_iff.mp (List.mem_of_mem_take member)
          rw [Nat.lt_one_iff.mp inside] at member
          cases member
        rw [Nat.sub_eq_zero_of_le (Nat.le_of_lt inside), List.take_zero, List.append_nil,
          countedBytes_of_not_mem _ oneLine, List.length_take, width,
          Nat.min_eq_left (Nat.le_of_lt inside)]
      · have reached := Nat.le_of_not_lt inside
        have behind := ih (Nat.sub_le_iff_le_add'.mpr within)
        rw [List.take_of_length_le (width.trans_le reached)]
        by_cases lineFeed : letter = '\n'
        · subst lineFeed
          have one : String.utf8EncodeChar '\n' = [10] := by decide
          rw [one, List.singleton_append, countedBytes_lineFeed, behind]
          exact Nat.add_sub_cancel' reached
        · rw [countedBytes_cons lineFeed, behind, Nat.add_sub_cancel' reached]

theorem byteOffset_eq (source : List Char) (place : LineColumn) :
    byteOffset source place =
      min (lineStart source (place.line - 1) + (place.column - 1)) (byteWidth source) := rfl

theorem byteOffset_after (source : List Char) (before : List UInt8) :
    byteOffset source (.after before) = min (countedBytes source before) (byteWidth source) := by
  rw [byteOffset_eq, LineColumn.after, Nat.add_sub_cancel_left, Nat.add_sub_cancel_left,
    countedBytes]

/-! ### Places and bytes -/

/-- Counting lines and columns is undone by looking up the byte; every other place leads into the
text as well, and in the same order. -/
theorem byteOffset_exact (source : String) :
    (∀ index ≤ source.utf8ByteSize,
      byteOffset source.toList (.after (source.toByteArray.data.toList.take index)) = index) ∧
    (∀ place, byteOffset source.toList place ≤ source.utf8ByteSize) ∧
    ∀ place later : LineColumn, place.line ≤ later.line → place.column ≤ later.column →
      byteOffset source.toList place ≤ byteOffset source.toList later := by
  refine ⟨fun index within => ?_, fun place => ?_, fun place later lines columns => ?_⟩
  · rw [← byteWidth_toList] at within
    rw [toList_data_toByteArray, byteOffset_after, countedBytes_take within, Nat.min_eq_left within]
  · rw [byteOffset_eq, byteWidth_toList]
    exact Nat.min_le_right _ _
  · have starts := lineStart_mono source.toList (Nat.sub_le_sub_right lines 1)
    rw [byteOffset_eq, byteOffset_eq]
    omega

/-- The second letter of the third line, behind a letter of two bytes and an empty line, and the
places around it. -/
theorem byteOffset_exact_empty_line :
    5 ≤ "é\n\nab\n".utf8ByteSize ∧
      byteOffset "é\n\nab\n".toList { line := 3, column := 2 } = 5 ∧
      byteOffset "é\n\nab\n".toList { line := 9, column := 9 } ≤ "é\n\nab\n".utf8ByteSize ∧
      byteOffset "é\n\nab\n".toList { line := 0, column := 0 } ≤
        byteOffset "é\n\nab\n".toList { line := 3, column := 2 } := by
  obtain ⟨inverse, bounded, ordered⟩ := byteOffset_exact "é\n\nab\n"
  have within : 5 ≤ "é\n\nab\n".utf8ByteSize := by decide +kernel
  have place : LineColumn.after ("é\n\nab\n".toByteArray.data.toList.take 5) =
      { line := 3, column := 2 } := by decide +kernel
  have found := inverse 5 within
  rw [place] at found
  exact ⟨within, found, bounded _, ordered _ _ (by decide) (by decide)⟩

end RelationalLayout
