/-
Keys, strings, numbers and dates of TOML documents.

Every scanner takes a value from the front of a text and returns what follows it;
it returns nothing when the text does not begin with such a value. Line breaks are
LF and CR LF; control characters other than the tab stand nowhere.
-/

import RelationalLayout.Json.Lexeme
import RelationalLayout.Toml

namespace RelationalLayout.Toml

/-! ### Blanks and characters -/

def isBlank (letter : Char) : Bool := letter = ' ' || letter = '\t'

def isText (letter : Char) : Bool :=
  letter = '\t' || (32 ≤ letter.toNat && letter.toNat ≠ 127)

def skipBlanks (text : List Char) : List Char := text.dropWhile isBlank

def lineBreak? : List Char → Option (List Char)
  | '\n' :: rest => some rest
  | '\r' :: '\n' :: rest => some rest
  | _ => none

def skipComment : List Char → List Char
  | '#' :: rest => rest.dropWhile isText
  | text => text

def lineEnd? (text : List Char) : Option (List Char) :=
  match skipComment (skipBlanks text) with
  | [] => some []
  | rest => lineBreak? rest

/-! ### Strings -/

def shortEscape? : Char → Option Char
  | 'b' => some '\x08'
  | 't' => some '\t'
  | 'n' => some '\n'
  | 'f' => some '\x0c'
  | 'r' => some '\r'
  | '"' => some '"'
  | '\\' => some '\\'
  | _ => none

/-- The character with a hexadecimal number; surrogates have none. -/
def numbered? (digits : List Char) : Option Char := do
  let values ← digits.mapM JsonQuoted.hexValue?
  let number := values.foldl (fun number value => 16 * number + value) 0
  if number < 0xD800 ∨ (0xE000 ≤ number ∧ number < 0x110000) then
    some (Char.ofNat number)
  else
    none

def escaped? : List Char → Option (Char × List Char)
  | 'u' :: rest =>
      if 4 ≤ rest.length then (numbered? (rest.take 4)).map (fun letter => (letter, rest.drop 4))
      else none
  | 'U' :: rest =>
      if 8 ≤ rest.length then (numbered? (rest.take 8)).map (fun letter => (letter, rest.drop 8))
      else none
  | letter :: rest => (shortEscape? letter).map (fun meant => (meant, rest))
  | [] => none

def skipFolded : List Char → List Char
  | '\r' :: '\n' :: rest => skipFolded rest
  | letter :: rest => if isBlank letter || letter = '\n' then skipFolded rest else letter :: rest
  | [] => []

/-- What follows the blanks and line breaks behind a backslash at the end of a line. -/
def foldedLine? (text : List Char) : Option (List Char) :=
  (lineBreak? (skipBlanks text)).map skipFolded

/-- How the text of a string is delimited and what stands in it. -/
structure StringForm where
  quote : Char
  escapes : Bool
  multiline : Bool

namespace StringForm

/-- The quotes at the end of a string of several lines: up to two belong to it. -/
def closing? (form : StringForm) (text : List Char) : Option (List Char × List Char) :=
  if form.multiline then
    let quotes := min 5 (text.takeWhile (· = form.quote)).length
    if quotes < 3 then none
    else some (List.replicate (quotes - 3) form.quote, text.drop quotes)
  else
    match text with
    | letter :: rest => if letter = form.quote then some ([], rest) else none
    | [] => none

/-- The letters of a string up to its end. The count bounds the letters read. -/
def letters? (form : StringForm) : Nat → List Char → Option (List Char × List Char)
  | 0, _ => none
  | count + 1, text =>
      match form.closing? text with
      | some closed => some closed
      | none =>
          match text with
          | [] => none
          | '\\' :: rest =>
              if !form.escapes then
                (letters? form count rest).map (fun (later, behind) =>
                  ('\\' :: later, behind))
              else
                match escaped? rest with
                | some (letter, rest) =>
                    (letters? form count rest).map (fun (later, behind) =>
                      (letter :: later, behind))
                | none =>
                    match (if form.multiline then foldedLine? rest else none) with
                    | some rest => letters? form count rest
                    | none => none
          | letter :: rest =>
              match (if form.multiline then lineBreak? text else none) with
              | some rest =>
                  (letters? form count rest).map (fun (later, behind) => ('\n' :: later, behind))
              | none =>
                  if isText letter && (form.multiline || letter ≠ form.quote) then
                    (letters? form count rest).map (fun (later, behind) =>
                      (letter :: later, behind))
                  else
                    none

end StringForm

/-- A string of any of the four forms; a line break right behind three quotes is not
part of the string. -/
def string? (text : List Char) : Option (String × List Char) :=
  let start? : Option (StringForm × List Char) := match text with
    | '"' :: '"' :: '"' :: rest =>
        some ({ quote := '"', escapes := true, multiline := true }, (lineBreak? rest).getD rest)
    | '\'' :: '\'' :: '\'' :: rest =>
        some ({ quote := '\'', escapes := false, multiline := true }, (lineBreak? rest).getD rest)
    | '"' :: rest => some ({ quote := '"', escapes := true, multiline := false }, rest)
    | '\'' :: rest => some ({ quote := '\'', escapes := false, multiline := false }, rest)
    | _ => none
  match start? with
  | none => none
  | some (form, rest) =>
      (form.letters? (rest.length + 1) rest).map (fun (letters, behind) =>
        (String.ofList letters, behind))

/-! ### Keys -/

def isBare (letter : Char) : Bool := letter.isAlphanum || letter = '_' || letter = '-'

def key? (text : List Char) : Option (String × List Char) :=
  match text with
  | '"' :: rest =>
      let form : StringForm := { quote := '"', escapes := true, multiline := false }
      (form.letters? (rest.length + 1) rest).map (fun (letters, behind) =>
        (String.ofList letters, behind))
  | '\'' :: rest =>
      let form : StringForm := { quote := '\'', escapes := false, multiline := false }
      (form.letters? (rest.length + 1) rest).map (fun (letters, behind) =>
        (String.ofList letters, behind))
  | _ =>
      match text.takeWhile isBare with
      | [] => none
      | letters => some (String.ofList letters, text.dropWhile isBare)

/-- At most `count` keys with points between them: the path and the last key. -/
def path? : Nat → List Char → Option ((List String × String) × List Char)
  | 0, _ => none
  | count + 1, text =>
      match key? (skipBlanks text) with
      | none => none
      | some (key, rest) =>
          match skipBlanks rest with
          | '.' :: behind =>
              (path? count behind).map (fun ((path, last), behind) => ((key :: path, last), behind))
          | behind => some (([], key), behind)

/-! ### Numbers -/

/-- Digits with single underscores between them. -/
def digitRun (isDigit : Char → Bool) : List Char → List Char × List Char
  | letter :: '_' :: next :: rest =>
      if isDigit letter && isDigit next then
        let (later, behind) := digitRun isDigit (next :: rest)
        (letter :: later, behind)
      else if isDigit letter then
        ([letter], '_' :: next :: rest)
      else
        ([], letter :: '_' :: next :: rest)
  | letter :: rest =>
      if isDigit letter then
        let (later, behind) := digitRun isDigit rest
        (letter :: later, behind)
      else
        ([], letter :: rest)
  | [] => ([], [])

def valueOf (base : Nat) (digits : List Char) : Nat :=
  digits.foldl (fun value digit => base * value + (JsonQuoted.hexValue? digit).getD 0) 0

/-- Integers have 64 bits. -/
def bounded? (value : Int) : Option Toml :=
  if -(signedLimit : Int) ≤ value ∧ value < signedLimit then some (.integer value) else none

def based? (base : Nat) (isDigit : Char → Bool) (text : List Char) : Option (Toml × List Char) :=
  match digitRun isDigit text with
  | ([], _) => none
  | (digits, rest) => (bounded? (valueOf base digits)).map (fun value => (value, rest))

/-- The closest number to a decimal. Far beyond the range of numbers it is infinite
or zero whatever its digits are. -/
def closest (decimal : Decimal) : Float :=
  if decimal.digits = 0 ∨ decimal.leadExponent < -400 then 0
  else if 400 < decimal.leadExponent then 1 / 0
  else decimal.nearest

def fraction? : List Char → Option (List Char × List Char)
  | '.' :: rest =>
      match digitRun Char.isDigit rest with
      | ([], _) => none
      | found => some found
  | _ => none

def exponent? : List Char → Option (Int × List Char)
  | mark :: rest =>
      if mark = 'e' ∨ mark = 'E' then
        let (negative, rest) := JsonNumber.exponentSign rest
        match digitRun Char.isDigit rest with
        | ([], _) => none
        | (digits, rest) =>
            some (if negative then -valueOf 10 digits else valueOf 10 digits, rest)
      else
        none
  | [] => none

/-- A decimal number behind its sign. A number too large to be finite is refused,
unless it is negative. -/
def decimal? (negative : Bool) (text : List Char) : Option (Toml × List Char) :=
  let whole := match text with
    | '0' :: rest => (['0'], rest)
    | _ => digitRun Char.isDigit text
  match whole with
  | ([], _) => none
  | (digits, rest) =>
      let signed (value : Nat) : Int := if negative then -value else value
      let scaled (fraction : List Char) (exponent : Int) : Option Toml :=
        let magnitude := closest
          { digits := valueOf 10 (digits ++ fraction), exponent := exponent - fraction.length }
        if magnitude.isInf && !negative then none
        else some (.number (if negative then -magnitude else magnitude))
      match fraction? rest with
      | some (fraction, rest) =>
          match exponent? rest with
          | some (exponent, rest) => (scaled fraction exponent).map (fun value => (value, rest))
          | none => (scaled fraction 0).map (fun value => (value, rest))
      | none =>
          match exponent? rest with
          | some (exponent, rest) => (scaled [] exponent).map (fun value => (value, rest))
          | none => (bounded? (signed (valueOf 10 digits))).map (fun value => (value, rest))

def isHexDigit (letter : Char) : Bool := (JsonQuoted.hexValue? letter).isSome

def isOctalDigit (letter : Char) : Bool := '0' ≤ letter && letter ≤ '7'

def isBinaryDigit (letter : Char) : Bool := letter = '0' || letter = '1'

/-- A number with or without a sign; one in another base has none. -/
def number? : List Char → Option (Toml × List Char)
  | '0' :: 'x' :: rest => based? 16 isHexDigit rest
  | '0' :: 'o' :: rest => based? 8 isOctalDigit rest
  | '0' :: 'b' :: rest => based? 2 isBinaryDigit rest
  | text =>
      let (negative, rest) := JsonNumber.exponentSign text
      match rest with
      | 'i' :: 'n' :: 'f' :: rest => some (.number (if negative then -1 / 0 else 1 / 0), rest)
      | 'n' :: 'a' :: 'n' :: rest => some (.number (0 / 0), rest)
      | _ => decimal? negative rest

/-! ### Dates and times -/

def fixedDigits? (count : Nat) (text : List Char) : Option (Nat × List Char) :=
  let digits := text.take count
  if digits.length = count ∧ digits.all Char.isDigit then
    some (valueOf 10 digits, text.drop count)
  else
    none

def expect? (letter : Char) : List Char → Option (List Char)
  | found :: rest => if found = letter then some rest else none
  | [] => none

def daysIn (year month : Nat) : Nat :=
  if month = 2 then
    (if year % 4 = 0 ∧ (year % 100 ≠ 0 ∨ year % 400 = 0) then 29 else 28)
  else if month ∈ [4, 6, 9, 11] then 30
  else 31

def date? (text : List Char) : Option (List Char) := do
  let (year, rest) ← fixedDigits? 4 text
  let (month, rest) ← fixedDigits? 2 (← expect? '-' rest)
  let (day, rest) ← fixedDigits? 2 (← expect? '-' rest)
  if 1 ≤ month ∧ month ≤ 12 ∧ 1 ≤ day ∧ day ≤ daysIn year month then some rest else none

def time? (text : List Char) : Option (List Char) := do
  let (hour, rest) ← fixedDigits? 2 text
  let (minute, rest) ← fixedDigits? 2 (← expect? ':' rest)
  let (second, rest) ← fixedDigits? 2 (← expect? ':' rest)
  if hour ≤ 23 ∧ minute ≤ 59 ∧ second ≤ 60 then
    match rest with
    | '.' :: behind =>
        match behind.takeWhile Char.isDigit with
        | [] => none
        | _ => some (behind.dropWhile Char.isDigit)
    | _ => some rest
  else
    none

def skipZone (text : List Char) : List Char :=
  match text with
  | [] => []
  | mark :: rest =>
      if mark = 'Z' ∨ mark = 'z' then
        rest
      else if mark = '+' ∨ mark = '-' then
        let behind? : Option (List Char) := do
          let (hour, rest) ← fixedDigits? 2 rest
          let (minute, rest) ← fixedDigits? 2 (← expect? ':' rest)
          if hour ≤ 23 ∧ minute ≤ 59 then some rest else none
        behind?.getD text
      else
        text

def moment? (text : List Char) : Option (Toml × List Char) :=
  match date? text with
  | some rest =>
      match rest with
      | mark :: behind =>
          if mark = 'T' ∨ mark = 't' ∨ mark = ' ' then
            match time? behind with
            | some behind => some (.moment, skipZone behind)
            | none => some (.moment, rest)
          else
            some (.moment, rest)
      | [] => some (.moment, [])
  | none => (time? text).map (fun rest => (.moment, rest))

def scalar? (text : List Char) : Option (Toml × List Char) :=
  match text with
  | 't' :: 'r' :: 'u' :: 'e' :: rest => some (.boolean true, rest)
  | 'f' :: 'a' :: 'l' :: 's' :: 'e' :: rest => some (.boolean false, rest)
  | _ =>
      match string? text with
      | some (value, rest) => some (.string value, rest)
      | none => (moment? text).or (number? text)

end RelationalLayout.Toml
