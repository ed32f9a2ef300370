/-
TOML documents and the rules by which their tables are built.

A table is opened by a header, comes into being on the way to one, or is built up
by dotted keys. A header may open a table once, and not one that dotted keys have
built; dotted keys go on only with tables of their own; no key is given twice.
-/

namespace RelationalLayout

inductive TableOrigin where
  | header
  /-- On the way to a table with a header. -/
  | implied
  | dotted
deriving DecidableEq

inductive Toml where
  | string (text : String)
  | boolean (value : Bool)
  | integer (value : Int)
  | number (value : Float)
  /-- A date, a time, or both; nothing depends on which. -/
  | moment
  | array (items : List Toml)
  | inline (members : List (String × Toml))
  | table (origin : TableOrigin) (members : List (String × Toml))
  /-- The tables that a repeated header with double brackets opens, the latest first. -/
  | tables (items : List (List (String × Toml)))
deriving Inhabited

abbrev TomlTable := List (String × Toml)

namespace TomlTable

def find? (table : TomlTable) (key : String) : Option Toml := List.lookup key table

def replace (table : TomlTable) (key : String) (value : Toml) : TomlTable :=
  table.map (fun entry => if entry.1 = key then (key, value) else entry)

def append (table : TomlTable) (key : String) (value : Toml) : TomlTable := table ++ [(key, value)]

def assign (key : String) (value : Toml) (table : TomlTable) : List String → Option TomlTable
  | [] => if (table.find? key).isSome then none else some (table.append key value)
  | step :: rest =>
      match table.find? step with
      | none =>
          (assign key value [] rest).map (fun inner => table.append step (.table .dotted inner))
      | some (.table .dotted inner) =>
          (assign key value inner rest).map (fun inner => table.replace step (.table .dotted inner))
      | some (.table .implied inner) =>
          if rest.isEmpty then
            none
          else
            (assign key value inner rest).map (fun inner =>
              table.replace step (.table .implied inner))
      | some (.tables (latest :: earlier)) =>
          if rest.isEmpty then
            none
          else
            (assign key value latest rest).map (fun latest =>
              table.replace step (.tables (latest :: earlier)))
      | _ => none

/-- Changes the table that a path of headers leads to. Tables on the way come into
being; of several tables the latest is meant. -/
def within (change : TomlTable → Option TomlTable) (table : TomlTable) :
    List String → Option TomlTable
  | [] => change table
  | step :: rest =>
      match table.find? step with
      | none => (within change [] rest).map (fun inner => table.append step (.table .implied inner))
      | some (.table origin inner) =>
          (within change inner rest).map (fun inner => table.replace step (.table origin inner))
      | some (.tables (latest :: earlier)) =>
          (within change latest rest).map (fun latest =>
            table.replace step (.tables (latest :: earlier)))
      | _ => none

def openTable (key : String) (table : TomlTable) : Option TomlTable :=
  match table.find? key with
  | none => some (table.append key (.table .header []))
  | some (.table .implied inner) => some (table.replace key (.table .header inner))
  | _ => none

def openItem (key : String) (table : TomlTable) : Option TomlTable :=
  match table.find? key with
  | none => some (table.append key (.tables [[]]))
  | some (.tables items) => some (table.replace key (.tables ([] :: items)))
  | _ => none

end TomlTable

inductive TomlLine where
  | blank
  | header (path : List String) (key : String)
  | itemHeader (path : List String) (key : String)
  | assignment (path : List String) (key : String) (value : Toml)

/-- A document read so far, and the path of the header that its lines are under. -/
structure TomlDraft where
  root : TomlTable
  current : List String

namespace TomlDraft

def empty : TomlDraft := { root := [], current := [] }

def add (draft : TomlDraft) : TomlLine → Option TomlDraft
  | .blank => some draft
  | .header path key =>
      (draft.root.within (TomlTable.openTable key) path).map (fun root =>
        { root := root, current := path ++ [key] })
  | .itemHeader path key =>
      (draft.root.within (TomlTable.openItem key) path).map (fun root =>
        { root := root, current := path ++ [key] })
  | .assignment path key value =>
      (draft.root.within (fun table => table.assign key value path) draft.current).map (fun root =>
        { draft with root := root })

end TomlDraft

end RelationalLayout
