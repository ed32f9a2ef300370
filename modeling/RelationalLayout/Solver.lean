/-
Placing coordinates under constraints.

Constraints are required one after the other; the first that contradicts the
earlier ones is refused. Suggestions pull coordinates towards values, each with
the strength it was first made with. A solution keeps all constraints and comes
as near to the suggestions as it can, the weighted distances added up.
-/

import RelationalLayout.Solver.Tableau

namespace RelationalLayout

inductive Strength where
  | weak
  | medium
  | strong
  | required
deriving DecidableEq, Inhabited

/-- A suggestion cannot be required. -/
def Strength.weight? : Strength → Option Nat
  | .weak => some 1
  | .medium => some 1000
  | .strong => some 1000000
  | .required => none

/-- A constraint with the text of what asks for it. -/
structure Demand (α : Type) where
  constraint : Constraint α
  source : String
deriving DecidableEq

inductive SolverError where
  /-- A constraint that contradicts those made before it, with the sources of all. -/
  | unsatisfiable (constraint source : String) (earlier : List String)
  | requiredSuggestion
  /-- A constraint after which the suggestions have no best solution. -/
  | unboundedConstraint (constraint : String)
  | unboundedSuggestion
  | stuckSuggestion
deriving DecidableEq

namespace SolverError

def ofConstraint (constraint source : String) (earlier : List String) :
    TableauError → SolverError
  | .unsatisfiable => .unsatisfiable constraint source earlier
  | _ => .unboundedConstraint constraint

def message : SolverError → String
  | .unsatisfiable constraint source _ =>
      "Unsatisfiable constraints: Cannot satisfy " ++ constraint ++ " (from '" ++ source ++
        "'): conflicts with existing constraints"
  | .requiredSuggestion =>
      "Internal solver error: Failed to add edit variable: " ++
        "The specified strength was `REQUIRED`. " ++
        "This is illegal for edit variable strengths."
  | .unboundedConstraint constraint =>
      "Internal solver error: Internal solver error for " ++ constraint ++
        ": The objective is unbounded"
  | .unboundedSuggestion =>
      "Internal solver error: Failed to add edit variable: The objective is unbounded"
  | .stuckSuggestion =>
      "Internal solver error: Failed to suggest value: Dual optimise failed."

def conflicting : SolverError → List String
  | .unsatisfiable _ source earlier => source :: earlier
  | _ => []

end SolverError

structure Solver (α : Type) where
  coordinates : List Coordinate
  demands : List (Demand α)
  tableau : Tableau α
  /-- The values of the solution before, if there was one. -/
  previous : List (Coordinate × α)

abbrev Solution (α : Type) := List (Coordinate × α)

namespace Solver

variable {α : Type} [Measure α]

def empty : Solver α := { coordinates := [], demands := [], tableau := .empty, previous := [] }

def register (solver : Solver α) (coordinate : Coordinate) : Solver α :=
  if coordinate ∈ solver.coordinates then
    solver
  else
    { solver with coordinates := solver.coordinates ++ [coordinate] }

def require (solver : Solver α) (demand : Demand α) : Except SolverError (Solver α) :=
  let registered := demand.constraint.coordinates.foldl register solver
  match registered.tableau.require demand.constraint with
  | .ok tableau =>
      .ok { registered with tableau := tableau, demands := registered.demands ++ [demand] }
  | .error fault =>
      .error (.ofConstraint demand.constraint.text demand.source
        (solver.demands.map Demand.source) fault)

def requireAll (solver : Solver α) : List (Demand α) → Except SolverError (Solver α)
  | [] => .ok solver
  | demand :: rest => do requireAll (← solver.require demand) rest

/-- The tableau with a pull on a coordinate; one that is there already stays as it is. -/
def pulled (tableau : Tableau α) (coordinate : Coordinate) (strength : Strength) :
    Except SolverError (Tableau α) :=
  if tableau.suggestions.any (fun suggestion => suggestion.coordinate = coordinate) then
    .ok tableau
  else
    match strength.weight? with
    | none => .error .requiredSuggestion
    | some weight =>
        (tableau.pull coordinate (Scalar.ofNat weight)).mapError (fun _ => .unboundedSuggestion)

/-- A later suggestion for a coordinate changes the value and keeps the strength. -/
def suggest (solver : Solver α) (coordinate : Coordinate) (value : α) (strength : Strength) :
    Except SolverError (Solver α) := do
  let registered := solver.register coordinate
  let tableau ← pulled registered.tableau coordinate strength
  let tableau ← (tableau.suggest coordinate value).mapError (fun _ => .stuckSuggestion)
  .ok { registered with tableau := tableau }

def values (solver : Solver α) : List (Coordinate × α) :=
  solver.coordinates.map (fun coordinate => (coordinate, solver.tableau.value coordinate))

/-- The value of a coordinate, if it is not what it was in the solution before. -/
def news? (solver : Solver α) (coordinate : Coordinate) : Option α :=
  let value := solver.tableau.value coordinate
  if solver.tableau.hasMoved coordinate &&
      !(solver.previous.lookup coordinate).any (Measure.isSame value) then
    some value
  else
    none

/-- The value that the next solution has: zero without news. -/
def report (solver : Solver α) (coordinate : Coordinate) : α :=
  (solver.news? coordinate).getD Scalar.zero

def solve (solver : Solver α) : Solution α × Solver α :=
  (solver.coordinates.map (fun coordinate => (coordinate, solver.report coordinate)),
    { solver with tableau := solver.tableau.settle, previous := solver.values })

end Solver

namespace Solution

variable {α : Type}

def value? (solution : Solution α) (coordinate : Coordinate) : Option α :=
  solution.lookup coordinate

def input? (solution : Solution α) (name : String) : Option α :=
  match Coordinate.ofInputName? name with
  | some coordinate => solution.value? coordinate
  | none => none

end Solution

end RelationalLayout
