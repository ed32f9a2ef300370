/-
Where errors of texts are reported.

Reports count the characters of a text. The bytes of the stretch that is at fault
are taken for the numbers of characters, so behind letters that are wider than a
byte a report points too far. Nothing is drawn of a stretch that runs backwards,
nor of one that ends behind the text when it is counted so.
-/

import RelationalLayout.Json.Decode
import RelationalLayout.Text.Program

namespace RelationalLayout

/-- The characters that end a line of a report; a carriage return and the line feed
behind it end it together. -/
def endsReportLine (letter : Char) : Bool :=
  letter = '\n' || letter = '\r' || letter = '\x0b' || letter = '\x0c' || letter = '\x85' ||
    letter = '\u2028' || letter = '\u2029'

def reportLines : List Char → List (List Char)
  | [] => []
  | '\r' :: '\n' :: rest => ['\r', '\n'] :: reportLines rest
  | letter :: rest =>
      if endsReportLine letter then
        [letter] :: reportLines rest
      else
        match reportLines rest with
        | [] => [[letter]]
        | line :: lines => (letter :: line) :: lines

/-- The line and column of a character in lines of which the first has a number. The
end of the lines belongs to the last of them. -/
def placeInLines (number index : Nat) : List (List Char) → Option LineColumn
  | [] => none
  | [_] => some { line := number, column := index + 1 }
  | line :: next :: rest =>
      if index < line.length then
        some { line := number, column := index + 1 }
      else
        placeInLines (number + 1) (index - line.length) (next :: rest)

/-- The line and column of a character, both from one; nothing behind the text. -/
def placeOfCharacter? (source : List Char) (index : Nat) : Option LineColumn :=
  if source.length < index then none else placeInLines 1 index (reportLines source)

/-- Where a stretch is reported, if its report can be drawn. An empty stretch may stand right
behind the text, and the last character of any other one may be the end of the text. -/
def Span.place? (source : List Char) (span : Span) : Option LineColumn :=
  if span.start ≤ span.stop ∧ span.stop ≤ source.length + 1 then
    placeOfCharacter? source span.start
  else
    none

namespace SyntaxError

def place? (source : String) (error : SyntaxError) : Option LineColumn :=
  error.span.place? source.toList

def headline (error : SyntaxError) : String := "Error: " ++ error.message

end SyntaxError

/-- Where an error of a document is reported: at the byte that shows it, or at the start if it
has no place. -/
def DecodeError.place? (source : String) (error : DecodeError) : Option LineColumn :=
  let letters := source.toList
  let byte := match error.left? with
    | some left => byteOffset letters (.behind (byteWidth letters - left) letters)
    | none => 0
  let stretch : Span := { start := byte, stop := max byte (min (byte + 1) (byteWidth letters)) }
  stretch.place? letters

end RelationalLayout
