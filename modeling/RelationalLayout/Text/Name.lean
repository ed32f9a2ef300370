/-
Writing names in program text.

A name is written bare exactly when it reads back as itself. All other names are
quoted, with a backslash before each quote and each backslash.
-/

import RelationalLayout.Text.Lexeme

namespace RelationalLayout.Name

/-- Whether a text holds the identifier of that name and nothing else, blanks and comments apart. -/
def isBare (name : String) : Bool :=
  match (Lexeme.cut name.toList).filter (fun lexeme => !lexeme.isSkipped) with
  | [.token (.identifier found) _] => found == name
  | _ => false

def escape : List Char → List Char
  | [] => []
  | letter :: rest =>
      if letter = '"' ∨ letter = '\\' then
        '\\' :: letter :: escape rest
      else
        letter :: escape rest

def render (name : String) : String :=
  if isBare name then
    name
  else
    String.ofList ('"' :: (escape name.toList ++ ['"']))

end RelationalLayout.Name
