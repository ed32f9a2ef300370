/-
Faults of JSON texts and where they are reported.

A fault is reported just behind the byte that shows it, or at the end of a text
that ends too early. The report is a line and a column, both counted from one,
the column in bytes; a column of zero stands right behind a line break.
-/

import RelationalLayout.Text.Lexeme

namespace RelationalLayout

structure JsonFault where
  endsEarly : Bool
  left : Nat
deriving DecidableEq, Inhabited

namespace JsonFault

/-- A fault that is reported behind some bytes of what is left of a text. -/
def behind (width : Nat) (text : List Char) : JsonFault :=
  { endsEarly := false, left := byteWidth text - width }

def atEnd : JsonFault := { endsEarly := true, left := 0 }

/-- The fault of the first byte of what is left of a text, or of its end. -/
def here : List Char → JsonFault
  | [] => atEnd
  | letter :: rest => behind 1 (letter :: rest)

end JsonFault

/-- A place where reading has to stop: the fault of readers that use what they
read, and that of readers that skip it. -/
structure JsonBreak where
  used : JsonFault
  skipped : JsonFault
deriving DecidableEq, Inhabited

/-- A break with one fault for all readers. -/
def JsonBreak.always (fault : JsonFault) : JsonBreak := { used := fault, skipped := fault }

structure LineColumn where
  line : Nat
  column : Nat
deriving DecidableEq, Inhabited

namespace LineColumn

/-- Goes on from a place over the letters that end within `width` bytes, and
counts the bytes of a letter that does not. -/
def advance (place : LineColumn) (width : Nat) : List Char → LineColumn
  | [] => place
  | letter :: rest =>
      if letter.utf8Size ≤ width then
        let next : LineColumn :=
          if letter = '\n' then
            { line := place.line + 1, column := 0 }
          else
            { place with column := place.column + letter.utf8Size }
        advance next (width - letter.utf8Size) rest
      else
        { place with column := place.column + width }

def behind (width : Nat) (source : List Char) : LineColumn :=
  advance { line := 1, column := 0 } width source

end LineColumn

def linesOf : List Char → List (List Char)
  | [] => []
  | letter :: rest =>
      if letter = '\n' then
        [letter] :: linesOf rest
      else
        match linesOf rest with
        | [] => [[letter]]
        | line :: lines => (letter :: line) :: lines

/-- The byte at a line and column of a text; what lies behind the text counts as
its end. -/
def byteOffset (source : List Char) (place : LineColumn) : Nat :=
  let lineStart := byteWidth ((linesOf source).take (place.line - 1)).flatten
  min (lineStart + (place.column - 1)) (byteWidth source)

end RelationalLayout
