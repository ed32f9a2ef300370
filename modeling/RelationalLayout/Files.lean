/-
Text files and the paths that lead to them.

A path is walked name by name, from the root if it begins with a slash and from
the directory that the program runs in otherwise. Every name has to be that of a
directory or of a file, and nothing lies inside a file.
-/

import RelationalLayout.Text.Lexeme

namespace RelationalLayout

inductive ReadError where
  | missing
  | denied
  | insideFile
  | directory
  | nameTooLong
  | noName
  | notText
  | other (reason : String)
deriving DecidableEq

def ReadError.message : ReadError → String
  | .missing => "No such file or directory (os error 2)"
  | .denied => "Permission denied (os error 13)"
  | .insideFile => "Not a directory (os error 20)"
  | .directory => "Is a directory (os error 21)"
  | .nameTooLong => "File name too long (os error 36)"
  | .noName => "file name contained an unexpected NUL byte"
  | .notText => "stream did not contain valid UTF-8"
  | .other reason => reason

abbrev Files := String → Except ReadError String

/-- The names on a path, empty ones where slashes follow one another. -/
def pathNames : List Char → List (List Char)
  | [] => [[]]
  | letter :: rest =>
      if letter = '/' then
        [] :: pathNames rest
      else
        match pathNames rest with
        | [] => [[letter]]
        | name :: later => (letter :: name) :: later

/-- The names on the way to a place, from the directory of the program on. An empty
name in front stands for the root. -/
abbrev Location := List (List Char)

/-- Files with their contents. Directories are what lies on the way to a file. -/
structure FileTree where
  files : List (Location × String)

namespace FileTree

def root : Location := [[]]

def ofList (files : List (String × String)) : FileTree :=
  { files := files.map (fun (path, content) => (pathNames path.toList, content)) }

variable (tree : FileTree)

def content? (place : Location) : Option String := tree.files.lookup place

def hasPlace (place : Location) : Bool := tree.files.any (fun file => place.isPrefixOf file.1)

/-- The directory around a directory; nothing is known around that of the program. -/
def around (place : Location) : Option Location :=
  if place = [] then none else if place = root then some root else some place.dropLast

def longestName : Nat := 255

def longestPath : Nat := 4095

/-- Follows a name. Outside of all that is known there are only directories. -/
def follow (place : Option Location) (name : List Char) : Except ReadError (Option Location) :=
  if (place.bind tree.content?).isSome then .error .insideFile
  else if name = [] ∨ name = ['.'] then .ok place
  else if name = ['.', '.'] then .ok (place.bind around)
  else if longestName < byteWidth name then .error .nameTooLong
  else match place.map (fun directory => directory ++ [name]) with
    | none => .error .missing
    | some next =>
        if tree.hasPlace next then .ok (some next) else .error .missing

def find (path : List Char) : Except ReadError (Option Location) :=
  if '\x00' ∈ path then
    .error .noName
  else if path = [] then
    .error .missing
  else if longestPath < byteWidth path then
    .error .nameTooLong
  else
    match pathNames path with
    | [] :: names => names.foldlM tree.follow (some root)
    | names => names.foldlM tree.follow (some [])

def read : Files := fun path => do
  match (← tree.find path.toList).bind tree.content? with
  | some content => .ok content
  | none => .error .directory

end FileTree

end RelationalLayout
