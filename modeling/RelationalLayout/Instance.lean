/-
Instances: typed atoms and ground facts over a schema.

Validation looks at the atoms in order, then at the facts in order, and reports
the first fault it meets.
-/

import RelationalLayout.Schema

namespace RelationalLayout

structure Atom where
  name : String
  signature : String
deriving DecidableEq, Inhabited

structure Fact where
  predicate : String
  arguments : List String
deriving DecidableEq, Inhabited

structure Instance where
  atoms : List Atom
  facts : List Fact
deriving DecidableEq, Inhabited

inductive ValidationError where
  | duplicateAtom (atom : String)
  | unknownSignature (atom signature : String)
  | unknownPredicate (predicate : String)
  | arityMismatch (predicate : String) (expected found : Nat)
  | unknownAtom (predicate atom : String)
deriving DecidableEq, Inhabited

def ValidationError.message : ValidationError → String
  | .duplicateAtom atom => "atom '" ++ atom ++ "' is declared more than once"
  | .unknownSignature atom signature =>
      "atom '" ++ atom ++ "' has undeclared signature '" ++ signature ++ "'"
  | .unknownPredicate predicate => "fact uses undeclared predicate '" ++ predicate ++ "'"
  | .arityMismatch predicate expected found =>
      "predicate '" ++ predicate ++ "' expects " ++ Nat.repr expected ++
        " arguments, but a fact has " ++ Nat.repr found
  | .unknownAtom predicate atom =>
      "fact of '" ++ predicate ++ "' references unknown atom '" ++ atom ++ "'"

namespace Instance

def empty : Instance := { atoms := [], facts := [] }

def atomNames (world : Instance) : List String := world.atoms.map Atom.name

/-- Names of the atoms of exactly this signature, in declaration order. -/
def atomsOf (world : Instance) (signature : String) : List String :=
  (world.atoms.filter (fun atom => atom.signature == signature)).map Atom.name

def tuplesOf (world : Instance) (predicate : String) : List (List String) :=
  (world.facts.filter (fun fact => fact.predicate == predicate)).map Fact.arguments

def atom? (world : Instance) (name : String) : Option Atom :=
  world.atoms.find? (fun atom => atom.name == name)

def addAtom (world : Instance) (atom : Atom) : Instance :=
  { world with atoms := world.atoms ++ [atom] }

def addFact (world : Instance) (fact : Fact) : Instance :=
  { world with facts := world.facts ++ [fact] }

/-- Checks atoms in order, given the names declared before them, and adds their names. -/
def validateAtoms (schema : Schema) (declared : List String) :
    List Atom → Except ValidationError (List String)
  | [] => .ok declared
  | atom :: rest =>
      if declared.contains atom.name then
        .error (.duplicateAtom atom.name)
      else if schema.hasSignature atom.signature then
        validateAtoms schema (atom.name :: declared) rest
      else
        .error (.unknownSignature atom.name atom.signature)

def validateFact (schema : Schema) (declared : List String) (fact : Fact) :
    Except ValidationError Unit :=
  match schema.predicate? fact.predicate with
  | none => .error (.unknownPredicate fact.predicate)
  | some predicate =>
      if predicate.arity ≠ fact.arguments.length then
        .error (.arityMismatch fact.predicate predicate.arity fact.arguments.length)
      else
        match fact.arguments.find? (fun argument => !declared.contains argument) with
        | some missing => .error (.unknownAtom fact.predicate missing)
        | none => .ok ()

def validateFacts (schema : Schema) (declared : List String) :
    List Fact → Except ValidationError Unit
  | [] => .ok ()
  | fact :: rest =>
      match validateFact schema declared fact with
      | .error fault => .error fault
      | .ok () => validateFacts schema declared rest

def validate (schema : Schema) (world : Instance) : Except ValidationError Unit :=
  match validateAtoms schema [] world.atoms with
  | .error fault => .error fault
  | .ok declared => validateFacts schema declared world.facts

/-- What validation checks: distinct atoms of declared signatures, and facts of
declared predicates over them, each with the declared count of arguments. -/
structure Valid (schema : Schema) (world : Instance) : Prop where
  atomsDistinct : world.atomNames.Nodup
  atomsTyped : ∀ atom ∈ world.atoms, atom.signature ∈ schema.signatures
  factsTyped : ∀ fact ∈ world.facts, ∃ predicate,
    schema.predicate? fact.predicate = some predicate ∧
    predicate.arity = fact.arguments.length ∧
    ∀ argument ∈ fact.arguments, argument ∈ world.atomNames

end Instance

end RelationalLayout
