/-
Numbers in JSON texts.

Digits are taken into a machine word as long as they fit; what is left of them only
shifts the value, which is then scaled by powers of ten. A number too large to be a
floating-point number is a fault only where it is used: the text goes on behind it.
-/

import RelationalLayout.Json
import RelationalLayout.Json.Fault
import RelationalLayout.Text.Lexeme

namespace RelationalLayout

namespace JsonNumber

/-! ### Values -/

/-- The first exponent that is too large to be counted. -/
def exponentLimit : Nat := 2147483648

/-- Takes digits into a number as long as it stays below a limit. Returns the number
and the digits that are left. -/
def takeDigits (limit number : Nat) : List Char → Nat × List Char
  | [] => (number, [])
  | digit :: rest =>
      let longer := 10 * number + (digit.toNat - '0'.toNat)
      if longer < limit then takeDigits limit longer rest else (number, digit :: rest)

def floatPowerOfTen (exponent : Nat) : Float :=
  Decimal.nearest { digits := 1, exponent := exponent }

/-- A value times a power of ten, with one rounding for each step of at most 308
decimal places; `none` beyond the largest number. -/
def scale (value : Float) (exponent : Int) : Option Float :=
  if exponent < -308 then
    if value == 0 then some value else scale (value / floatPowerOfTen 308) (exponent + 308)
  else if exponent < 0 then
    some (value / floatPowerOfTen exponent.natAbs)
  else if exponent ≤ 308 then
    let scaled := value * floatPowerOfTen exponent.natAbs
    if scaled.isInf then none else some scaled
  else if value == 0 then
    some value
  else
    none
termination_by (-exponent).toNat
decreasing_by omega

/-- A number in its parts: the digits before and behind the point and the
exponent, each as written. -/
structure Parts where
  negative : Bool
  whole : List Char
  fraction : Option (List Char)
  exponent : Option (Bool × List Char)

namespace Parts

/-- The significant digits that fit into a word, and the power of ten that the
digits before and behind the point scale them by. -/
def significand (parts : Parts) : Nat × Int :=
  let fraction := parts.fraction.getD []
  let (whole, beyond) := takeDigits wordLimit 0 parts.whole
  let (taken, ignored) := takeDigits wordLimit whole fraction
  (taken, beyond.length - (fraction.length - ignored.length))

/-- The floating-point number that is written; `rest` is what follows it. A positive
exponent that cannot be counted is too large at the digit that shows it. -/
def float (parts : Parts) (rest : List Char) : Except JsonFault Float :=
  let (taken, shift) := parts.significand
  let signed (value : Float) := if parts.negative then -value else value
  let (negative, digits) := parts.exponent.getD (false, [])
  match takeDigits exponentLimit 0 digits with
  | (exponent, []) =>
      let written : Int := if negative then -exponent else exponent
      match scale (Float.ofNat taken) (written + shift) with
      | some value => .ok (signed value)
      | none => .error (.behind 0 rest)
  | (_, _ :: later) =>
      if taken = 0 ∨ negative then .ok (signed 0) else .error (.behind 0 (later ++ rest))

/-- Whole numbers stay whole as long as they fit into 64 bits, with their sign. -/
def value (parts : Parts) (rest : List Char) : Except JsonFault Json :=
  let wholeValue := Lexeme.digitsValue parts.whole
  let isWhole := parts.fraction.isNone && parts.exponent.isNone
  if isWhole && !parts.negative && wholeValue < wordLimit then
    .ok (.integer wholeValue)
  else if isWhole && parts.negative && 0 < wholeValue && wholeValue ≤ signedLimit then
    .ok (.integer (-wholeValue))
  else
    (parts.float rest).map .number

end Parts

/-! ### Reading -/

def digits1 (text : List Char) : Except JsonFault (List Char × List Char) :=
  match text.takeWhile Char.isDigit with
  | [] => .error (.here text)
  | digits => .ok (digits, text.dropWhile Char.isDigit)

/-- The digits before the point: a zero stands alone. -/
def wholeDigits : List Char → Except JsonFault (List Char × List Char)
  | '0' :: rest =>
      if Lexeme.firstIs Char.isDigit rest then .error (.here rest) else .ok (['0'], rest)
  | text => digits1 text

def fractionPart : List Char → Except JsonFault (Option (List Char) × List Char)
  | '.' :: rest => do
      let (digits, rest) ← digits1 rest
      .ok (some digits, rest)
  | text => .ok (none, text)

def exponentSign : List Char → Bool × List Char
  | '-' :: rest => (true, rest)
  | '+' :: rest => (false, rest)
  | text => (false, text)

def exponentPart : List Char → Except JsonFault (Option (Bool × List Char) × List Char)
  | [] => .ok (none, [])
  | letter :: rest =>
      if letter = 'e' ∨ letter = 'E' then do
        let (negative, rest) := exponentSign rest
        let (digits, rest) ← digits1 rest
        .ok (some (negative, digits), rest)
      else
        .ok (none, letter :: rest)

def read (negative : Bool) (text : List Char) : Except JsonFault (Parts × List Char) := do
  let (whole, rest) ← wholeDigits text
  let (fraction, rest) ← fractionPart rest
  let (exponent, rest) ← exponentPart rest
  .ok ({ negative := negative, whole := whole, fraction := fraction, exponent := exponent }, rest)

/-! ### What is left gets shorter -/

theorem length_of_digits1 {text digits rest : List Char}
    (read : digits1 text = .ok (digits, rest)) :
    rest.length < text.length := by
  unfold digits1 at read
  split at read
  · cases read
  · rename_i nonempty
    cases read
    have whole := congrArg List.length
      (List.takeWhile_append_dropWhile (p := Char.isDigit) (l := text))
    rw [List.length_append] at whole
    have some := List.length_pos_iff.mpr nonempty
    omega

theorem length_of_wholeDigits {text digits rest : List Char}
    (read : wholeDigits text = .ok (digits, rest)) : rest.length < text.length := by
  unfold wholeDigits at read
  split at read
  · split at read
    · cases read
    · cases read
      simp
  · exact length_of_digits1 read

theorem length_of_fractionPart {text rest : List Char} {digits : Option (List Char)}
    (read : fractionPart text = .ok (digits, rest)) : rest.length ≤ text.length := by
  unfold fractionPart at read
  split at read
  · rename_i behind
    cases found : digits1 behind with
    | error fault => rw [found] at read; cases read
    | ok parts =>
        rw [found] at read
        cases read
        have shorter := length_of_digits1 found
        simp only [List.length_cons]
        omega
  · cases read
    exact Nat.le_refl _

theorem length_exponentSign_le (text : List Char) : (exponentSign text).2.length ≤ text.length := by
  unfold exponentSign
  split <;> simp

theorem length_of_exponentPart {text rest : List Char} {exponent : Option (Bool × List Char)}
    (read : exponentPart text = .ok (exponent, rest)) : rest.length ≤ text.length := by
  unfold exponentPart at read
  split at read
  · cases read
    exact Nat.le_refl _
  · rename_i letter behind
    split at read
    · cases found : digits1 (exponentSign behind).2 with
      | error fault => simp only [found, bind, Except.bind] at read; cases read
      | ok parts =>
          simp only [found, bind, Except.bind] at read
          cases read
          have shorter := length_of_digits1 found
          have signed := length_exponentSign_le behind
          simp only [List.length_cons]
          omega
    · cases read
      exact Nat.le_refl _

theorem length_of_read {negative : Bool} {text rest : List Char} {parts : Parts}
    (found : read negative text = .ok (parts, rest)) : rest.length < text.length := by
  unfold read at found
  simp only [bind, Except.bind] at found
  split at found
  · cases found
  · rename_i _ whole wholeRead
    split at found
    · cases found
    · rename_i _ fraction fractionRead
      split at found
      · cases found
      · rename_i _ exponent exponentRead
        cases found
        have first := length_of_wholeDigits wholeRead
        have second := length_of_fractionPart fractionRead
        have third := length_of_exponentPart exponentRead
        omega

end JsonNumber

end RelationalLayout
