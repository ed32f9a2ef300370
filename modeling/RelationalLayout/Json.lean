/-
JSON documents and their texts.
-/

import RelationalLayout.Decimal.Text

namespace RelationalLayout

inductive Json where
  | null
  | boolean (value : Bool)
  | integer (value : Int)
  | number (value : Float)
  | string (text : String)
  | array (items : List Json)
  | object (members : List (String × Json))
deriving Inhabited

namespace Json

def shortEscape? (letter : Char) : Option Char :=
  if letter = '"' then some '"'
  else if letter = '\\' then some '\\'
  else if letter = '\x08' then some 'b'
  else if letter = '\x0c' then some 'f'
  else if letter = '\n' then some 'n'
  else if letter = '\r' then some 'r'
  else if letter = '\t' then some 't'
  else none

def hexDigit (value : Nat) : Char := Nat.digitChar value

def escapeLetter (letter : Char) : List Char :=
  match shortEscape? letter with
  | some short => ['\\', short]
  | none =>
      if letter.toNat < 32 then
        ['\\', 'u', '0', '0', hexDigit (letter.toNat / 16), hexDigit (letter.toNat % 16)]
      else
        [letter]

def stringText (text : String) : List Char :=
  '"' :: (text.toList.flatMap escapeLetter ++ ['"'])

/-- Numbers that are not finite have no form in JSON and are written as null. -/
def numberText (value : Float) : List Char :=
  match Reading.shortest .toEven value with
  | .finite negative magnitude =>
      if negative then '-' :: magnitude.jsonText else magnitude.jsonText
  | _ => "null".toList

mutual

def compactText : Json → List Char
  | .null => "null".toList
  | .boolean true => "true".toList
  | .boolean false => "false".toList
  | .integer value => Decimal.integerText value
  | .number value => numberText value
  | .string text => stringText text
  | .array items => '[' :: (compactItems items ++ [']'])
  | .object members => '\x7b' :: (compactMembers members ++ ['\x7d'])

def compactItems : List Json → List Char
  | [] => []
  | [last] => compactText last
  | item :: next :: rest => compactText item ++ ',' :: compactItems (next :: rest)

def compactMembers : List (String × Json) → List Char
  | [] => []
  | [(key, value)] => stringText key ++ ':' :: compactText value
  | (key, value) :: next :: rest =>
      stringText key ++ ':' :: (compactText value ++ ',' :: compactMembers (next :: rest))

end

def lineBreak (depth : Nat) : List Char := '\n' :: List.replicate (2 * depth) ' '

mutual

def indentedText (depth : Nat) : Json → List Char
  | .array [] => "[]".toList
  | .array items =>
      '[' :: (indentedItems (depth + 1) items ++ lineBreak depth ++ [']'])
  | .object [] => ['\x7b', '\x7d']
  | .object members =>
      '\x7b' :: (indentedMembers (depth + 1) members ++ lineBreak depth ++ ['\x7d'])
  | scalar => compactText scalar

def indentedItems (depth : Nat) : List Json → List Char
  | [] => []
  | [last] => lineBreak depth ++ indentedText depth last
  | item :: next :: rest =>
      lineBreak depth ++ indentedText depth item ++ ',' :: indentedItems depth (next :: rest)

def indentedMembers (depth : Nat) : List (String × Json) → List Char
  | [] => []
  | [(key, value)] => lineBreak depth ++ stringText key ++ ':' :: ' ' :: indentedText depth value
  | (key, value) :: next :: rest =>
      lineBreak depth ++ stringText key ++
        ':' :: ' ' :: (indentedText depth value ++ ',' :: indentedMembers depth (next :: rest))

end

def compact (document : Json) : String := String.ofList (compactText document)

def indented (document : Json) : String := String.ofList (indentedText 0 document)

end Json

end RelationalLayout
