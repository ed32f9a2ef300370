/-
Cutting JSON texts into marks, strings and scalars.

A scalar that readers cannot use but can skip has a fault in place of its value. A
literal, number or string that the text breaks off in ends the text.
-/

import RelationalLayout.Json.Number
import RelationalLayout.Json.Quoted

namespace RelationalLayout

inductive JsonToken where
  | openArray
  | closeArray
  | openObject
  | closeObject
  | colon
  | comma
  | string (text : Except JsonFault String)
  | scalar (value : Except JsonFault Json)
  | brokenString (stop : JsonBreak)
  | brokenScalar (stop : JsonBreak)
  | stray

namespace JsonToken

def isBlank (letter : Char) : Bool :=
  letter = ' ' || letter = '\n' || letter = '\t' || letter = '\r'

/-- The rest of a literal after its first letter. -/
def literal (value : Json) (expected : List Char) (text : List Char) : JsonToken × List Char :=
  match expected, text with
  | [], rest => (.scalar (.ok value), rest)
  | _ :: _, [] => (.brokenScalar (.always .atEnd), [])
  | letter :: expected, actual :: rest =>
      if letter = actual then
        literal value expected rest
      else
        (.brokenScalar (.always (.here (actual :: rest))), [])

/-- A number behind its sign. For readers who skip it, one that breaks off is
malformed also where the text just ends. -/
def ofNumber (negative : Bool) (text : List Char) : JsonToken × List Char :=
  match JsonNumber.read negative text with
  | .ok (parts, rest) => (.scalar (parts.value rest), rest)
  | .error fault =>
      (.brokenScalar { used := fault, skipped := { fault with endsEarly := false } }, [])

def ofString (text : List Char) : JsonToken × List Char :=
  match JsonQuoted.pieces text with
  | (found, .closed rest) =>
      (.string ((JsonQuoted.letters (.closed rest) found).map String.ofList), rest)
  | (found, .broken stop) =>
      match JsonQuoted.letters (.broken stop) found with
      | .error fault => (.brokenString { stop with used := fault }, [])
      | .ok _ => (.brokenString stop, [])

def punctuation? : Char → Option JsonToken
  | '[' => some .openArray
  | ']' => some .closeArray
  | '\x7b' => some .openObject
  | '\x7d' => some .closeObject
  | ':' => some .colon
  | ',' => some .comma
  | _ => none

def literal? : Char → Option (Json × List Char)
  | 'n' => some (.null, ['u', 'l', 'l'])
  | 't' => some (.boolean true, ['r', 'u', 'e'])
  | 'f' => some (.boolean false, ['a', 'l', 's', 'e'])
  | _ => none

def first (letter : Char) (rest : List Char) : JsonToken × List Char :=
  match punctuation? letter with
  | some token => (token, rest)
  | none =>
      if letter = '"' then
        ofString rest
      else if letter = '-' then
        ofNumber true rest
      else if letter.isDigit then
        ofNumber false (letter :: rest)
      else
        match literal? letter with
        | some (value, expected) => literal value expected rest
        | none => (.stray, rest)

/-! ### What is left gets shorter -/

theorem length_literal_le (value : Json) (expected text : List Char) :
    (literal value expected text).2.length ≤ text.length := by
  induction expected generalizing text with
  | nil => unfold literal; exact Nat.le_refl _
  | cons letter expected ih =>
      cases text with
      | nil => exact Nat.le_refl _
      | cons actual rest =>
          unfold literal
          split
          · exact Nat.le_succ_of_le (ih rest)
          · exact Nat.zero_le _

theorem length_ofNumber_le {negative : Bool} (text : List Char) :
    (ofNumber negative text).2.length ≤ text.length - 1 := by
  unfold ofNumber
  split
  · rename_i parts rest read
    have shorter := JsonNumber.length_of_read read
    exact Nat.le_sub_one_of_lt shorter
  · exact Nat.zero_le _

theorem length_ofString_le (text : List Char) : (ofString text).2.length ≤ text.length := by
  unfold ofString
  split
  · rename_i found rest read
    exact JsonQuoted.length_of_pieces read
  · split <;> exact Nat.zero_le _

theorem length_first_le (letter : Char) (rest : List Char) :
    (first letter rest).2.length ≤ rest.length := by
  unfold first
  split
  · exact Nat.le_refl _
  · split
    · exact length_ofString_le rest
    · split
      · exact Nat.le_trans (length_ofNumber_le rest) (Nat.sub_le _ _)
      · split
        · exact length_ofNumber_le (letter :: rest)
        · split
          · exact length_literal_le _ _ rest
          · exact Nat.le_refl _

def cut : List Char → List (JsonToken × List Char × List Char)
  | [] => []
  | letter :: rest =>
      if isBlank letter then
        cut rest
      else
        let token := first letter rest
        (token.1, letter :: rest, token.2) :: cut token.2
termination_by text => text.length
decreasing_by
  · exact Nat.lt_succ_self _
  · exact Nat.lt_succ_of_le (length_first_le letter rest)

end JsonToken

end RelationalLayout
