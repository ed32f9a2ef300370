/-
Evaluating selector chains over instances.

A chain becomes a query: for every tuple of variables the atom tuples that it
may take, in declaration order and each once. A second selector over the same
tuple of variables keeps only the atom tuples that both allow. The answers of a
query are the ways to pick one atom tuple for each tuple of variables so that no
variable gets two atoms. They are found by a search whose branches share one map:
each branch takes away again what it has added to it.
-/

import RelationalLayout.Instance
import RelationalLayout.Rule
import RelationalLayout.SortedMap

namespace RelationalLayout

/-- The atom of each variable. -/
abbrev Substitution := SortedMap String String

/-- A tuple of variables with the atom tuples it may take. -/
structure VariableGroup where
  variableNames : List String
  candidates : List (List String)
deriving DecidableEq, Inhabited

/-- Groups with distinct tuples of variables, in the order of their registration. -/
abbrev Query := List VariableGroup

structure ArityFault where
  predicate : String
  expected : Nat
  found : Nat
deriving DecidableEq, Inhabited

/-- A selector holds for an assignment when the instance declares the atom with the
signature, or lists the fact. -/
def Selector.Holds (world : Instance) (assignment : String → Option String) : Selector → Prop
  | .signature variableName signatureName =>
      ∃ atom ∈ world.atoms, assignment variableName = some atom.name ∧
        atom.signature = signatureName
  | .predicate predicateName arguments =>
      ∃ fact ∈ world.facts, fact.predicate = predicateName ∧
        arguments.map assignment = fact.arguments.map some

namespace Query

def restrict (variableNames : List String) (candidates : List (List String))
    (group : VariableGroup) : VariableGroup :=
  if group.variableNames = variableNames then
    { group with candidates := group.candidates.filter (fun tuple => tuple ∈ candidates) }
  else
    group

/-- Adds a group. If one with the same tuple of variables exists, that one keeps only
the candidates which both have. -/
def register (query : Query) (variableNames : List String) (candidates : List (List String)) :
    Query :=
  if query.any (fun group => group.variableNames == variableNames) then
    query.map (restrict variableNames candidates)
  else
    query ++ [{ variableNames := variableNames, candidates := candidates.eraseDups }]

end Query

/-- The map of a search, and what the present branch has added to it. -/
structure Trail where
  current : Substitution
  added : List String

namespace Trail

def bindAll (trail : Trail) : List (String × String) → Trail × Bool
  | [] => (trail, true)
  | (variableName, atom) :: rest =>
      match trail.current.find? variableName with
      | none =>
          bindAll
            { current := trail.current.insert variableName atom
              added := trail.added ++ [variableName] } rest
      | some bound => if bound = atom then bindAll trail rest else (trail, false)

def undo (trail : Trail) : Substitution := trail.added.foldl SortedMap.erase trail.current

end Trail

structure SearchProgress where
  current : Substitution
  found : List Substitution

namespace Query

/-- One branch of a search: variables and atoms are paired as far as both tuples go, the search
goes on if no variable gets two atoms, and the map is left as it was. -/
def branch (goOn : SearchProgress → SearchProgress) (variableNames : List String)
    (progress : SearchProgress) (tuple : List String) : SearchProgress :=
  let (trail, consistent) :=
    Trail.bindAll { current := progress.current, added := [] } (variableNames.zip tuple)
  let reached : SearchProgress := { current := trail.current, found := progress.found }
  let later := if consistent then goOn reached else reached
  { later with current := Trail.undo { trail with current := later.current } }

def search : Query → SearchProgress → SearchProgress
  | [], progress => { progress with found := progress.found ++ [progress.current] }
  | group :: rest, progress =>
      group.candidates.foldl (branch (search rest) group.variableNames) progress

def answers (query : Query) : List Substitution :=
  (query.search { current := .empty, found := [] }).found

end Query

namespace Selector

/-- The atom tuples that a selector allows for its variables. The declaration of a
predicate is looked at before its facts. -/
def candidates (schema : Schema) (world : Instance) :
    Selector → Except ArityFault (List (List String))
  | .signature _ signatureName =>
      .ok ((world.atomsOf signatureName).map (fun atom => [atom]))
  | .predicate predicateName arguments =>
      let declared := ((schema.predicate? predicateName).map Predicate.arity).toList
      let tuples := world.tuplesOf predicateName
      match (declared ++ tuples.map List.length).find? (fun arity => arity ≠ arguments.length) with
      | some arity =>
          .error { predicate := predicateName, expected := arguments.length, found := arity }
      | none => .ok tuples

def addTo (schema : Schema) (world : Instance) (query : Query) (selector : Selector) :
    Except ArityFault Query :=
  match selector.candidates schema world with
  | .ok tuples => .ok (query.register selector.variableNames tuples)
  | .error fault => .error fault

end Selector

def Query.ofSelectors (schema : Schema) (world : Instance) (query : Query) :
    List Selector → Except ArityFault Query
  | [] => .ok query
  | selector :: rest =>
      match selector.addTo schema world query with
      | .ok next => ofSelectors schema world next rest
      | .error fault => .error fault

/-- All substitutions under which every selector of a chain holds. -/
def substitutionsOf (schema : Schema) (world : Instance) (selectors : List Selector) :
    Except ArityFault (List Substitution) :=
  (Query.ofSelectors schema world [] selectors).map Query.answers

end RelationalLayout
