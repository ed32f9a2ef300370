/-
Cycle graphs: the directed edges of one cycle, and their order on a circle.

A graph can be placed when it is one directed ring over all its atoms or one
directed path through all of them. Which of the two it is shows in its components
and in the degrees of its atoms. Its order is a topological one, for which a ring
is opened at the atom that was added first.
-/

import RelationalLayout.Diagram
import RelationalLayout.Layout

namespace RelationalLayout

/-- Atoms and edges in the order in which they were first added. -/
structure CycleGraph where
  atoms : List String
  edges : List (String × String)
deriving DecidableEq, Inhabited

inductive CycleShape where
  | ring
  | line
  | malformed
deriving DecidableEq, Inhabited

def CycleShape.name : CycleShape → String
  | .ring => "Ring"
  | .line => "Line"
  | .malformed => "Malformed"

def lineEdges (atoms : List String) : List (String × String) := atoms.zip atoms.tail

/-- The edges between consecutive atoms, and from the last to the first. -/
def ringEdges (atoms : List String) : List (String × String) :=
  match atoms with
  | [] => []
  | first :: rest => (first :: rest).zip (rest ++ [first])

namespace CycleGraph

def empty : CycleGraph := { atoms := [], edges := [] }

def addOnce {α : Type} [DecidableEq α] (items : List α) (item : α) : List α :=
  if item ∈ items then items else items ++ [item]

/-- An edge that is added again changes nothing. -/
def addEdge (graph : CycleGraph) (source target : String) : CycleGraph :=
  { atoms := addOnce (addOnce graph.atoms source) target
    edges := addOnce graph.edges (source, target) }

/-- Edges run counterclockwise. -/
def addLayout (graph : CycleGraph) (option : CyclicOption) (first second : String) : CycleGraph :=
  match option with
  | .counterclockwise => graph.addEdge first second
  | .clockwise => graph.addEdge second first

/-! ### Shapes -/

def degrees (graph : CycleGraph) (atom : String) : Nat × Nat :=
  ((graph.edges.map Prod.snd).count atom, (graph.edges.map Prod.fst).count atom)

/-- The components that an edge touches become one. -/
def connect (components : List (List String)) (edge : String × String) : List (List String) :=
  let touches (component : List String) : Bool := edge.1 ∈ component || edge.2 ∈ component
  (components.filter touches).flatten :: components.filter (fun component => !touches component)

def components (graph : CycleGraph) : List (List String) :=
  graph.edges.foldl connect (graph.atoms.map (fun atom => [atom]))

def shape (graph : CycleGraph) : CycleShape :=
  let degrees := graph.atoms.map graph.degrees
  if graph.atoms = [] ∨ graph.components.length ≠ 1 then .malformed
  else if ∀ pair ∈ degrees, pair = (1, 1) then .ring
  else if ∀ pair ∈ degrees, pair ∈ [(1, 1), (0, 1), (1, 0)] then
    if degrees.count (0, 1) = 1 ∧ degrees.count (1, 0) = 1 then .line else .malformed
  else .malformed

/-! ### Orders -/

/-- Takes so many atoms, each time the first one that no remaining atom leads to. -/
def sortAtoms (edges : List (String × String)) : Nat → List String → Option (List String)
  | 0, _ => some []
  | count + 1, remaining =>
      match remaining.find? (fun atom => remaining.all (fun other => (other, atom) ∉ edges)) with
      | none => none
      | some atom => (sortAtoms edges count (remaining.erase atom)).map (atom :: ·)

def topologicalOrder? (graph : CycleGraph) : Option (List String) :=
  sortAtoms graph.edges graph.atoms.length graph.atoms

/-- A graph that can be placed, without the edge that leaves the first atom of a ring. -/
def opened? (graph : CycleGraph) : Option CycleGraph :=
  match graph.shape with
  | .malformed => none
  | .line => some graph
  | .ring => do
      let first ← graph.atoms.head?
      let edge ← graph.edges.find? (fun edge => edge.1 = first)
      some { graph with edges := graph.edges.erase edge }

def orderBy (sort : CycleGraph → Option (List String)) (graph : CycleGraph) :
    Option (List String) :=
  graph.opened?.bind sort

def order? (graph : CycleGraph) : Option (List String) := graph.orderBy topologicalOrder?

end CycleGraph

def pi : Float := 3.141592653589793

/-- Equal steps around a circle, from the top on, the angle growing to the right. -/
def circlePoints (count : Nat) (center : Point Float) (radius : Float) : List (Point Float) :=
  (List.range count).map (fun index =>
    let angle := 2 * pi * Float.ofNat index / Float.ofNat count
    { x := center.x + radius * angle.sin, y := center.y + radius * angle.cos })

end RelationalLayout
