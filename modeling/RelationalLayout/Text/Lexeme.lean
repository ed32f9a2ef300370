/-
Cutting program text into lexemes.

Every text is a sequence of lexemes and nothing else: tokens, blank stretches,
comments, and stretches that are no token. Each lexeme is the longest stretch of
its kind at its place, so cutting never has to look back.
-/

import RelationalLayout.Text.Token

namespace RelationalLayout

inductive Lexeme where
  | blank (text : List Char)
  | comment (text : List Char)
  | token (token : Token) (text : List Char)
  | unrecognized (text : List Char)
deriving DecidableEq

namespace Lexeme

def text : Lexeme → List Char
  | .blank text => text
  | .comment text => text
  | .token _ text => text
  | .unrecognized text => text

def token? : Lexeme → Option Token
  | .token found _ => some found
  | _ => none

def isSkipped : Lexeme → Bool
  | .blank _ => true
  | .comment _ => true
  | _ => false

def isBlank (letter : Char) : Bool :=
  letter = ' ' || letter = '\t' || letter = '\n' || letter = '\r'

def startsWord (letter : Char) : Bool := letter.isAlpha || letter = '_'

/-- `$` and `/` occur in the atom names of relational tools. -/
def continuesWord (letter : Char) : Bool :=
  startsWord letter || letter.isDigit || letter = '$' || letter = '/'

def mark? : Char → Option Token
  | '(' => some .openParen
  | ')' => some .closeParen
  | ',' => some .comma
  | ':' => some .colon
  | _ => none

/-- What follows an opening quote: the stretch that belongs to it and the name it
spells, if the quote is closed. A backslash stands before a quote or another
backslash; before anything else it ends the stretch. -/
def quoted : List Char → List Char × Option (List Char)
  | [] => ([], none)
  | '"' :: _ => (['"'], some [])
  | ['\\'] => ([], none)
  | '\\' :: escaped :: rest =>
      if escaped = '"' ∨ escaped = '\\' then
        let (text, name) := quoted rest
        ('\\' :: escaped :: text, name.map (escaped :: ·))
      else
        ([], none)
  | letter :: rest =>
      let (text, name) := quoted rest
      (letter :: text, name.map (letter :: ·))

def digitsValue (digits : List Char) : Nat :=
  digits.foldl (fun value digit => 10 * value + (digit.toNat - '0'.toNat)) 0

/-- The digits behind a point, when a digit follows the point. -/
def fractionDigits : List Char → List Char
  | '.' :: rest => rest.takeWhile Char.isDigit
  | _ => []

/-- An unsigned numeral at the start of a text: its stretch and its value. -/
def numeral (text : List Char) : List Char × Float :=
  let whole := text.takeWhile Char.isDigit
  let fraction := fractionDigits (text.dropWhile Char.isDigit)
  let value : Decimal := { digits := digitsValue (whole ++ fraction), exponent := -fraction.length }
  (if fraction.isEmpty then whole else whole ++ '.' :: fraction, value.nearest)

def firstIs (test : Char → Bool) : List Char → Bool
  | [] => false
  | letter :: _ => test letter

def first (letter : Char) (rest : List Char) : Lexeme :=
  if isBlank letter then
    .blank (letter :: rest.takeWhile isBlank)
  else if startsWord letter then
    let word := letter :: rest.takeWhile continuesWord
    .token (Token.ofWord (String.ofList word)) word
  else if letter = '/' && firstIs (· = '/') rest then
    .comment (letter :: rest.takeWhile (· ≠ '\n'))
  else if letter = '"' then
    match quoted rest with
    | (text, some name) => .token (.identifier (String.ofList name)) (letter :: text)
    | (text, none) => .unrecognized (letter :: text)
  else if letter.isDigit then
    let (text, value) := numeral (letter :: rest)
    .token (.number value) text
  else if letter = '-' && firstIs Char.isDigit rest then
    let (text, value) := numeral rest
    .token (.number (-value)) (letter :: text)
  else
    match mark? letter with
    | some mark => .token mark [letter]
    | none => .unrecognized [letter]

def cut : List Char → List Lexeme
  | [] => []
  | letter :: rest =>
      let lexeme := first letter rest
      lexeme :: cut (rest.drop (lexeme.text.length - 1))
termination_by text => text.length
decreasing_by
  rw [List.length_drop, List.length_cons]
  omega

def tokens (lexemes : List Lexeme) : List Token := lexemes.filterMap token?

end Lexeme

/-- A stretch of a text, in bytes. -/
structure Span where
  start : Nat
  stop : Nat
deriving DecidableEq, Inhabited

def byteWidth : List Char → Nat
  | [] => 0
  | letter :: rest => letter.utf8Size + byteWidth rest

namespace Lexeme

def place (start : Nat) : List Lexeme → List (Lexeme × Span)
  | [] => []
  | lexeme :: rest =>
      let stop := start + byteWidth lexeme.text
      (lexeme, { start := start, stop := stop }) :: place stop rest

end Lexeme

end RelationalLayout
