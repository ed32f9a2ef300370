/-
Texts tell layouts apart.

A written name shows where it ends, whatever characters it has, and so does the word
of an option; numbers in plain form are read back, also those that are not finite. So
no two ground layouts have the same text, and a footprint key stands for one set of
layouts only.
-/

import RelationalLayout.Proofs.Footprint
import RelationalLayout.Proofs.Text.Grammar

namespace RelationalLayout

open Lexeme

/-! ### Numbers -/

def unsignedValue (text : List Char) : Float :=
  if firstIs Char.isDigit text then
    (numeral text).2
  else if text = "inf".toList then
    1 / 0
  else
    0 / 0

def plainValue (text : List Char) : Float :=
  if firstIs (· = '-') text then -unsignedValue text.tail else unsignedValue text

theorem unsignedValue_plainText (decimal : Decimal) :
    unsignedValue decimal.plainText = decimal.nearest := by
  rw [unsignedValue, if_pos decimal.firstIs_plainText, decimal.numeral_plainText]

theorem firstIs_minus_plainText (decimal : Decimal) :
    firstIs (· = '-') decimal.plainText = false := by
  have visible := decimal.firstIs_plainText
  cases letters : decimal.plainText with
  | nil => rfl
  | cons letter rest =>
      rw [letters] at visible
      have digit : letter.isDigit = true := visible
      refine decide_eq_false ?_
      intro same
      subst same
      revert digit
      decide

/-- Every number is read back from its plain form. -/
theorem plainValue_plainNumber (number : Float) : plainValue (plainNumber number).toList = number := by
  cases finite : number.isFinite with
  | true =>
      obtain ⟨negative, decimal, read, same⟩ := Reading.exists_shortest_of_isFinite .upward finite
      rw [plainNumber, read, Reading.text, String.toList_ofList, same]
      cases negative with
      | false =>
          rw [if_neg Bool.false_ne_true, if_neg Bool.false_ne_true, plainValue,
            firstIs_minus_plainText, if_neg Bool.false_ne_true, unsignedValue_plainText]
      | true =>
          have minus : firstIs (· = '-') ('-' :: decimal.plainText) = true := rfl
          rw [if_pos rfl, if_pos rfl, plainValue, if_pos minus, List.tail_cons,
            unsignedValue_plainText]
  | false =>
      rcases eq_of_not_isFinite finite with rfl | rfl | rfl
      · decide +kernel
      · decide +kernel
      · decide +kernel

theorem plainNumber_injective : Function.Injective plainNumber := by
  intro left right same
  rw [← plainValue_plainNumber left, same, plainValue_plainNumber]

/-! ### Separations and ids -/

namespace Separation

theorem toList_text_atLeast (distance : Float) :
    (Separation.atLeast distance).text.toList =
      " (separation at least ".toList ++ ((plainNumber distance).toList ++ [')']) := by
  rw [text_atLeast, String.toList_append, String.toList_append, List.append_assoc]
  rfl

theorem toList_text_exactly (distance : Float) :
    (Separation.exactly distance).text.toList =
      " (separation exactly ".toList ++ ((plainNumber distance).toList ++ [')']) := by
  rw [text_exactly, String.toList_append, String.toList_append, List.append_assoc]
  rfl

theorem text_injective : Function.Injective text := by
  have same_distance {opening : List Char} {left right : Float}
      (same : opening ++ ((plainNumber left).toList ++ [')']) =
        opening ++ ((plainNumber right).toList ++ [')'])) : left = right :=
    plainNumber_injective (String.toList_inj.mp
      (List.append_cancel_right (List.append_cancel_left same)))
  have different {left right : List Char} (same : " (separation at least ".toList ++ left =
      " (separation exactly ".toList ++ right) : False := by
    have letters : some 'a' = some 'e' := congrArg (fun text => text[13]?) same
    exact absurd letters (by decide)
  intro left right same
  have letters := congrArg String.toList same
  cases left with
  | unspecified =>
      cases right with
      | unspecified => rfl
      | atLeast => cases letters.trans (toList_text_atLeast _)
      | exactly => cases letters.trans (toList_text_exactly _)
  | atLeast distance =>
      rw [toList_text_atLeast] at letters
      cases right with
      | unspecified => cases letters
      | atLeast other =>
          rw [toList_text_atLeast] at letters
          rw [same_distance letters]
      | exactly other =>
          rw [toList_text_exactly] at letters
          exact (different letters).elim
  | exactly distance =>
      rw [toList_text_exactly] at letters
      cases right with
      | unspecified => cases letters
      | atLeast other =>
          rw [toList_text_atLeast] at letters
          exact (different letters.symm).elim
      | exactly other =>
          rw [toList_text_exactly] at letters
          rw [same_distance letters]

end Separation

theorem Layout.idText_injective : Function.Injective (Layout.idText : String → String) := by
  intro left right same
  have letters := congrArg String.toList same
  change (" (id " ++ left ++ ")").toList = (" (id " ++ right ++ ")").toList at letters
  rw [String.toList_append, String.toList_append, String.toList_append, String.toList_append] at letters
  exact String.toList_inj.mp (List.append_cancel_left (List.append_cancel_right letters))

/-! ### Ground layouts -/

namespace GroundLayout

def lead : GroundLayout → Token
  | .unary _ _ operand => .identifier operand
  | .binary _ _ first _ => .identifier first
  | .cyclic _ _ _ _ => .keyword .cycle
  | .grouping _ _ => .keyword .group

def behind : GroundLayout → List Char
  | .unary option separation _ => ' ' :: (option.name.toList ++ separation.text.toList)
  | .binary option separation _ second =>
      ' ' :: (option.name.toList ++
        ' ' :: ((Name.render second).toList ++ separation.text.toList))
  | .cyclic option first second cycle =>
      ' ' :: ((Name.render first).toList ++
        ' ' :: (option.name.toList ++
          ' ' :: ((Name.render second).toList ++ (Layout.idText cycle).toList)))
  | .grouping operand group =>
      ' ' :: ((Name.render operand).toList ++ (Layout.idText group).toList)

theorem begins_text (layout : GroundLayout) :
    Begins (Layout.text layout).toList layout.lead layout.behind := by
  cases layout with
  | unary option separation operand =>
      simp only [Layout.text, String.toList_append, List.append_assoc]
      exact Begins.name operand (ends_space _)
  | binary option separation first second =>
      simp only [Layout.text, String.toList_append, List.append_assoc]
      exact Begins.name first (ends_space _)
  | cyclic option first second cycle =>
      simp only [Layout.text, String.toList_append, List.append_assoc]
      exact Begins.keyword .cycle (ends_space _)
  | grouping operand group =>
      simp only [Layout.text, String.toList_append, List.append_assoc]
      exact Begins.keyword .group (ends_space _)

theorem ends_separation (separation : Separation) : Ends separation.text.toList := by
  have ends := separation.ends_text ends_nil
  rwa [List.append_nil] at ends

theorem ends_idText (id : String) : Ends (Layout.idText id).toList := by
  change Ends (" (id " ++ id ++ ")").toList
  rw [String.toList_append, String.toList_append]
  exact ends_space _

theorem unique_behind_space {text other rest more : List Char} {token found : Token}
    (same : ' ' :: text = ' ' :: other) (begins : Begins text token rest)
    (also : Begins other found more) : token = found ∧ rest = more := by
  obtain rfl := (List.cons.inj same).2
  exact begins.unique also

/-- The text of a ground layout is read from left to right, and each of its parts shows where
it ends. -/
theorem text_injective : Function.Injective (Layout.text : GroundLayout → String) := by
  intro (left : GroundLayout) (right : GroundLayout) same
  have begins := right.begins_text
  rw [← same] at begins
  obtain ⟨leads, rests⟩ := left.begins_text.unique begins
  -- Unary and binary layouts both begin with a name: the word behind it tells them apart.
  cases left with
  | unary option separation operand =>
      have word := Begins.unary option (ends_separation separation)
      cases right with
      | unary otherOption otherSeparation otherOperand =>
          cases leads
          obtain ⟨options, separations⟩ := unique_behind_space rests word
            (Begins.unary otherOption (ends_separation otherSeparation))
          cases options
          rw [Separation.text_injective (String.toList_inj.mp separations)]
      | binary otherOption otherSeparation otherFirst otherSecond =>
          cases (unique_behind_space rests word (Begins.binary otherOption (ends_space _))).1
      | cyclic | grouping => cases leads
  | binary option separation first second =>
      cases right with
      | unary otherOption otherSeparation otherOperand =>
          have otherWord := Begins.unary otherOption (ends_separation otherSeparation)
          cases (unique_behind_space rests (Begins.binary option (ends_space _)) otherWord).1
      | binary otherOption otherSeparation otherFirst otherSecond =>
          cases leads
          obtain ⟨options, seconds⟩ := unique_behind_space rests
            (Begins.binary option (ends_space _)) (Begins.binary otherOption (ends_space _))
          cases options
          obtain ⟨names, separations⟩ := unique_behind_space seconds
            (Begins.name second (ends_separation separation))
            (Begins.name otherSecond (ends_separation otherSeparation))
          cases names
          rw [Separation.text_injective (String.toList_inj.mp separations)]
      | cyclic | grouping => cases leads
  | cyclic option first second cycle =>
      cases right with
      | unary | binary | grouping => cases leads
      | cyclic otherOption otherFirst otherSecond otherCycle =>
          obtain ⟨firsts, words⟩ := unique_behind_space rests
            (Begins.name first (ends_space _)) (Begins.name otherFirst (ends_space _))
          cases firsts
          obtain ⟨options, seconds⟩ := unique_behind_space words
            (Begins.cyclic option (ends_space _)) (Begins.cyclic otherOption (ends_space _))
          cases options
          obtain ⟨names, ids⟩ := unique_behind_space seconds
            (Begins.name second (ends_idText cycle))
            (Begins.name otherSecond (ends_idText otherCycle))
          cases names
          rw [Layout.idText_injective (String.toList_inj.mp ids)]
  | grouping operand group =>
      cases right with
      | unary | binary | cyclic => cases leads
      | grouping otherOperand otherGroup =>
          obtain ⟨names, ids⟩ := unique_behind_space rests
            (Begins.name operand (ends_idText group))
            (Begins.name otherOperand (ends_idText otherGroup))
          cases names
          rw [Layout.idText_injective (String.toList_inj.mp ids)]

end GroundLayout

/-! ### Keys -/

namespace FootprintKey

theorem text_mem_ofFootprints_iff {footprints : List GroundLayout} {layout : GroundLayout} :
    layout.text ∈ ofFootprints footprints ↔ layout ∈ footprints := by
  rw [mem_ofFootprints_iff]
  constructor
  · rintro ⟨footprint, member, same⟩
    rwa [← GroundLayout.text_injective same]
  · intro member
    exact ⟨layout, member, rfl⟩

/-- Different ground layouts have different texts, distances being told apart by their plain form
and ids by all their characters. So the keys of two lists are the same exactly when the lists have
the same layouts, in whatever order and however often. -/
theorem ofFootprints_exact :
    Function.Injective (Layout.text : GroundLayout → String) ∧
      ∀ first second : List GroundLayout,
        ofFootprints first = ofFootprints second ↔ ∀ layout, layout ∈ first ↔ layout ∈ second := by
  refine ⟨GroundLayout.text_injective, fun first second => ⟨?_, ?_⟩⟩
  · intro same layout
    rw [← text_mem_ofFootprints_iff, same, text_mem_ofFootprints_iff]
  · intro same
    refine ofFootprints_congr (fun text => ?_)
    simp only [same]

end FootprintKey

end RelationalLayout
