/-
Reading the fields of complete documents.

The order of fields plays no part here: a document either has the shape asked for
or it does not. A structure is written as an object or as an array of all of its
fields, a choice as an object with a tag or as an array that begins with it.
-/

import RelationalLayout.Json.Decode

namespace RelationalLayout

namespace Json

def string? : Json → Option String
  | .string text => some text
  | _ => none

def number? : Json → Option Float
  | .integer value => some (Decoder.numberOfInteger value)
  | .number value => some value
  | _ => none

def strings? : Json → Option (List String)
  | .array items => items.mapM string?
  | _ => none

/-- The value of a key, if the key occurs; `none` for a key that occurs twice. -/
def only? (key : String) (members : List (String × Json)) : Option (Option Json) :=
  match members.filter (fun member => member.1 == key) with
  | [] => some none
  | [member] => some (some member.2)
  | _ => none

def fields? (names : List String) : Json → Option (List (Option Json))
  | .object members => names.mapM (fun name => only? name members)
  | .array items => if items.length = names.length then some (items.map some) else none
  | _ => none

/-- A tag is one of some names, or the index of one. -/
def tag? (tags : List String) : Json → Option String
  | .string name => if name ∈ tags then some name else none
  | .integer index => if index < 0 then none else tags[index.toNat]?
  | _ => none

/-- The tag of a choice, and a document of its other fields. -/
def tagged? (tags : List String) : Json → Option (String × Json)
  | .object members =>
      match only? "tag" members with
      | some (some tag) =>
          (tag? tags tag).map (fun name =>
            (name, .object (members.filter (fun member => member.1 != "tag"))))
      | _ => none
  | .array (tag :: rest) => (tag? tags tag).map (fun name => (name, .array rest))
  | _ => none

/-- A bare name, also as the only key over nothing. -/
def name? : Json → Option String
  | .string name => some name
  | .object [(name, .null)] => some name
  | .object [(name, .object [])] => some name
  | _ => none

def named? {α : Type} (all : List α) (nameOf : α → String) (document : Json) : Option α :=
  match name? document with
  | some name => all.find? (fun value => nameOf value == name)
  | none => none

def ofStrings (texts : List String) : Json := .array (texts.map .string)

end Json

end RelationalLayout
