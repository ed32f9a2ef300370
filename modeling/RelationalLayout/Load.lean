/-
Reading inputs from texts and files.

Schemas, instances and diagrams are JSON. A program is JSON when its first
character that is not white space is an opening bracket, and program text
otherwise. Errors know the file they are about.
-/

import RelationalLayout.Document.Rule
import RelationalLayout.Files
import RelationalLayout.Place
import RelationalLayout.Text.WhiteSpace
import RelationalLayout.Toml.Settings

namespace RelationalLayout

/-! ### Errors -/

inductive LoadError where
  | unreadable (path : String) (error : ReadError)
  | json (path : String) (error : DecodeError)
  | settings
  | program (path : String) (errors : List SyntaxError)
deriving DecidableEq

namespace LoadError

def message : LoadError → String
  | .unreadable path error => "Failed to read '" ++ path ++ "': " ++ error.message
  | .json path error => "Invalid JSON in '" ++ path ++ "': " ++ (match error.kind with
      | .endsEarly => "unexpected end of the text"
      | .malformed => "malformed text"
      | .mismatched => "unexpected value")
  | .settings => "Failed to parse configuration TOML: the text has no settings"
  | .program path errors =>
      Nat.repr errors.length ++ " syntax error(s) in '" ++ path ++ "'"

def headlines : LoadError → List String
  | .json _ _ => ["Error: Invalid JSON"]
  | .program _ errors => errors.map SyntaxError.headline
  | other => ["Error: " ++ other.message]

end LoadError

/-! ### JSON -/

/-- Reads a document and decodes it; what follows it in the text is a fault. -/
def readDocument {α : Type} (decode : Decoder α) (source : String) : Except DecodeError α :=
  match readJson source.toList with
  | (document, trailing) =>
      match decode document with
      | .error error => .error error
      | .ok value =>
          match trailing with
          | none => .ok value
          | some reason => .error (.fault reason)

def loadDocument {α : Type} (decode : Decoder α) (path source : String) : Except LoadError α :=
  match readDocument decode source with
  | .ok value => .ok value
  | .error error => .error (.json path error)

/-! ### Programs -/

def isJsonProgram (source : String) : Bool :=
  Lexeme.firstIs (· = '[') (source.toList.dropWhile isWhiteSpace)

def loadProgram (path source : String) : Except LoadError Program :=
  if isJsonProgram source then
    loadDocument Program.decode path source
  else
    match readProgram source with
    | .ok program => .ok program
    | .error errors => .error (.program path errors)

/-! ### Settings -/

def loadSettings (source : String) : Except LoadError Settings :=
  match Toml.settings? source with
  | some settings => .ok settings
  | none => .error .settings

end RelationalLayout
