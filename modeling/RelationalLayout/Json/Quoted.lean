/-
Quoted strings in JSON texts.

A string is cut into pieces first, which is all that readers who skip it need.
Half a surrogate pair is a fault only where the string is used, and then the first
fault counts, be it half a pair or the end of the pieces.
-/

import RelationalLayout.Json.Fault

namespace RelationalLayout

namespace JsonQuoted

/-! ### Pieces -/

inductive Piece where
  | letter (value : Char)
  | escaped (value : Char)
  /-- A UTF-16 unit, with what is left of the text behind it. -/
  | unit (value : Nat) (rest : List Char)

/-- How the pieces of a string end: with its closing quote, or with the text. -/
inductive Ending where
  | closed (rest : List Char)
  | broken (stop : JsonBreak)

def longEscape? : Char → Option Char
  | '"' => some '"'
  | '\\' => some '\\'
  | '/' => some '/'
  | 'b' => some '\x08'
  | 'f' => some '\x0c'
  | 'n' => some '\n'
  | 'r' => some '\r'
  | 't' => some '\t'
  | _ => none

def hexValue? (letter : Char) : Option Nat :=
  if letter.isDigit then some (letter.toNat - '0'.toNat)
  else if 'a' ≤ letter ∧ letter ≤ 'f' then some (letter.toNat - 'a'.toNat + 10)
  else if 'A' ≤ letter ∧ letter ≤ 'F' then some (letter.toNat - 'A'.toNat + 10)
  else none

def hexUnit? (first second third fourth : Char) : Option Nat := do
  some (4096 * (← hexValue? first) + 256 * (← hexValue? second) + 16 * (← hexValue? third) +
    (← hexValue? fourth))

/-- The fault of a text that has no four digits where a unit is due: four bytes are
taken before they are looked at. -/
def unitFault (text : List Char) : JsonFault :=
  if byteWidth text < 4 then .atEnd else .behind 4 text

def stopped (fault : JsonFault) : List Piece × Ending := ([], .broken (.always fault))

/-- The pieces of a string up to its closing quote. Readers who use a string look
behind a control character before they refuse it. -/
def pieces : List Char → List Piece × Ending
  | [] => stopped .atEnd
  | '"' :: rest => ([], .closed rest)
  | '\\' :: 'u' :: first :: second :: third :: fourth :: rest =>
      match hexUnit? first second third fourth with
      | some value =>
          let (later, ending) := pieces rest
          (.unit value rest :: later, ending)
      | none => stopped (unitFault (first :: second :: third :: fourth :: rest))
  | '\\' :: 'u' :: rest => stopped (unitFault rest)
  | '\\' :: name :: rest =>
      match longEscape? name with
      | some value =>
          let (later, ending) := pieces rest
          (.escaped value :: later, ending)
      | none => stopped (.here (name :: rest))
  | ['\\'] => stopped .atEnd
  | letter :: rest =>
      if letter.toNat < 32 then
        ([], .broken { used := .here (letter :: rest), skipped := .behind 0 (letter :: rest) })
      else
        let (later, ending) := pieces rest
        (.letter letter :: later, ending)

/-! ### Letters -/

def isHighSurrogate (value : Nat) : Bool := 0xD800 ≤ value && value < 0xDC00

def isLowSurrogate (value : Nat) : Bool := 0xDC00 ≤ value && value < 0xE000

def joined (high low : Nat) : Char :=
  Char.ofNat (0x10000 + 0x400 * (high - 0xD800) + (low - 0xDC00))

/-- The fault of what stands where the second half of a pair should be: a unit or an
escaped letter is read whole, of all else one byte. -/
def halfFault (ending : Ending) (text : List Char) : List Piece → JsonFault
  | [] => match ending with
      | .closed _ => .behind 1 text
      | .broken stop => stop.used
  | .letter _ :: _ => .behind 1 text
  | .escaped _ :: _ => .behind 2 text
  | .unit _ rest :: _ => .behind 0 rest

def letters (ending : Ending) : List Piece → Except JsonFault (List Char)
  | [] => match ending with
      | .closed _ => .ok []
      | .broken stop => .error stop.used
  | .letter value :: later => do .ok (value :: (← letters ending later))
  | .escaped value :: later => do .ok (value :: (← letters ending later))
  | .unit high rest :: .unit low lowRest :: later =>
      if isLowSurrogate high then
        .error (.behind 0 rest)
      else if isHighSurrogate high then
        if isLowSurrogate low then do
          .ok (joined high low :: (← letters ending later))
        else
          .error (.behind 0 lowRest)
      else do
        .ok (Char.ofNat high :: (← letters ending (.unit low lowRest :: later)))
  | .unit value rest :: later =>
      if isLowSurrogate value then
        .error (.behind 0 rest)
      else if isHighSurrogate value then
        .error (halfFault ending rest later)
      else do
        .ok (Char.ofNat value :: (← letters ending later))

/-! ### What is left gets shorter -/

theorem length_of_pieces {text rest : List Char} {found : List Piece}
    (read : pieces text = (found, .closed rest)) : rest.length ≤ text.length := by
  fun_induction pieces text generalizing found with
  | case1 => cases read
  | case2 rest => cases read; simp
  | case3 first second third fourth behind value isHex later ending same ih =>
      cases read
      have shorter := ih same
      simp only [List.length_cons]
      omega
  | case4 => cases read
  | case5 => cases read
  | case6 name behind _ _ value _ later ending same ih =>
      cases read
      have shorter := ih same
      simp only [List.length_cons]
      omega
  | case7 => cases read
  | case8 => cases read
  | case9 => cases read
  | case10 letter behind _ _ _ _ _ _ later ending same ih =>
      cases read
      have shorter := ih same
      simp only [List.length_cons]
      omega

end JsonQuoted

end RelationalLayout
