/-
Schemas: the signatures and predicates that instances are typed by.

A predicate name may be declared more than once; its first declaration counts.
The hierarchy is kept as written: it says which signature lies directly below
which, and nothing else depends on it.
-/

namespace RelationalLayout

structure Predicate where
  name : String
  signatures : List String
deriving DecidableEq, Inhabited

def Predicate.arity (predicate : Predicate) : Nat := predicate.signatures.length

structure Schema where
  signatures : List String
  predicates : List Predicate
  /-- Pairs of a signature and one directly above it. -/
  hierarchy : List (String × String)
deriving DecidableEq, Inhabited

namespace Schema

def empty : Schema := { signatures := [], predicates := [], hierarchy := [] }

def hasSignature (schema : Schema) (name : String) : Bool := schema.signatures.contains name

def predicate? (schema : Schema) (name : String) : Option Predicate :=
  schema.predicates.find? (fun predicate => predicate.name == name)

theorem mem_of_predicate? {schema : Schema} {name : String} {declared : Predicate}
    (found : schema.predicate? name = some declared) :
    declared ∈ schema.predicates ∧ declared.name = name :=
  ⟨List.mem_of_find?_eq_some found, by simpa using List.find?_some found⟩

/-- One signature lies below another when the hierarchy leads up to it; every
signature lies below itself. -/
inductive Below (schema : Schema) : String → String → Prop where
  | refl (name : String) : Below schema name name
  | step {lower middle upper : String} (direct : (lower, middle) ∈ schema.hierarchy)
      (above : Below schema middle upper) : Below schema lower upper

def addSignature (schema : Schema) (name : String) : Schema :=
  { schema with signatures := schema.signatures ++ [name] }

def addPredicate (schema : Schema) (predicate : Predicate) : Schema :=
  { schema with predicates := schema.predicates ++ [predicate] }

end Schema

end RelationalLayout
