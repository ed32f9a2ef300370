/-
Reading TOML documents.

Arrays may be spread over lines and may end in a comma, inline tables may do
neither. There is one limit to how deep values are nested and how long paths are.
-/

import RelationalLayout.Toml.Scalar

namespace RelationalLayout.Toml

/-- Arrays and inline tables may be nested this deep, and paths may be this long. -/
def depthLimit : Nat := 79

/-- What follows blanks, comments and line breaks. The count bounds the lines. -/
def skipLines : Nat → List Char → List Char
  | 0, text => text
  | count + 1, text =>
      let rest := skipComment (skipBlanks text)
      match lineBreak? rest with
      | some behind => skipLines count behind
      | none => rest

def skipGap (text : List Char) : List Char := skipLines (text.length + 1) text

/-- A value is missing from an array that ends where another could begin. -/
def isCloseBracket : List Char → Bool
  | ']' :: _ => true
  | _ => false

def inlineTable? (assignments : List ((List String × String) × Toml)) : Option Toml :=
  (assignments.foldlM (fun (table : TomlTable) ((path, key), value) =>
    table.assign key value path) []).map .inline

mutual

/-- A value nested no deeper than a limit. The first number bounds the steps taken. -/
def value? : Nat → Nat → List Char → Option (Toml × List Char)
  | 0, _, _ => none
  | steps + 1, depth, text =>
      match text, depth with
      | '[' :: rest, depth + 1 =>
          let inside := skipGap rest
          if isCloseBracket inside then
            some (.array [], inside.drop 1)
          else
            (items? steps depth inside).map (fun (items, behind) => (.array items, behind))
      | '\x7b' :: rest, depth + 1 =>
          match skipBlanks rest with
          | '\x7d' :: behind => some (.inline [], behind)
          | inside =>
              match assignments? steps depth inside with
              | some (assignments, behind) =>
                  (inlineTable? assignments).map (fun table => (table, behind))
              | none => none
      | '[' :: _, 0 => none
      | '\x7b' :: _, 0 => none
      | text, _ => scalar? text

def items? : Nat → Nat → List Char → Option (List Toml × List Char)
  | 0, _, _ => none
  | steps + 1, depth, text =>
      match value? steps depth text with
      | none => none
      | some (value, rest) =>
          match skipGap rest with
          | ',' :: behind =>
              let next := skipGap behind
              if isCloseBracket next then
                some ([value], next.drop 1)
              else
                (items? steps depth next).map (fun (later, behind) => (value :: later, behind))
          | ']' :: behind => some ([value], behind)
          | _ => none

def assignments? :
    Nat → Nat → List Char → Option (List ((List String × String) × Toml) × List Char)
  | 0, _, _ => none
  | steps + 1, depth, text =>
      match path? depthLimit text with
      | some (path, '=' :: rest) =>
          match value? steps depth (skipBlanks rest) with
          | none => none
          | some (value, rest) =>
              match skipBlanks rest with
              | ',' :: behind =>
                  (assignments? steps depth behind).map (fun (later, behind) =>
                    ((path, value) :: later, behind))
              | '\x7d' :: behind => some ([(path, value)], behind)
              | _ => none
      | _ => none

end

def line? (text : List Char) : Option (TomlLine × List Char) :=
  match skipBlanks text with
  | '[' :: '[' :: rest =>
      match path? depthLimit rest with
      | some ((path, key), ']' :: ']' :: behind) =>
          (lineEnd? behind).map (fun next => (.itemHeader path key, next))
      | _ => none
  | '[' :: rest =>
      match path? depthLimit rest with
      | some ((path, key), ']' :: behind) =>
          (lineEnd? behind).map (fun next => (.header path key, next))
      | _ => none
  | start =>
      match lineEnd? start with
      | some next => some (.blank, next)
      | none =>
          match path? depthLimit start with
          | some ((path, key), '=' :: behind) =>
              match value? (2 * text.length + 2) depthLimit (skipBlanks behind) with
              | some (value, behind) =>
                  (lineEnd? behind).map (fun next => (.assignment path key value, next))
              | none => none
          | _ => none

/-- Adds the lines of a text to a document. The count bounds the lines. -/
def readLines : Nat → TomlDraft → List Char → Option TomlTable
  | _, draft, [] => some draft.root
  | 0, _, _ => none
  | count + 1, draft, text =>
      match line? text with
      | none => none
      | some (line, rest) =>
          match draft.add line with
          | none => none
          | some next => readLines count next rest

/-- A mark of the byte order may stand in front of a text. -/
def skipMark : List Char → List Char
  | '\ufeff' :: rest => rest
  | text => text

def read? (source : String) : Option TomlTable :=
  let text := skipMark source.toList
  readLines (text.length + 1) .empty text

end RelationalLayout.Toml
