/-
Arranging ground layouts in the plane.

Unary and binary layouts become required constraints. The edges of one cycle id
become a graph, whose atoms are pulled to a circle of their own. All other atoms
are pulled, more weakly, to a grid.
-/

import RelationalLayout.CycleGraph
import RelationalLayout.Settings
import RelationalLayout.Solver

namespace RelationalLayout

inductive StageError where
  | unsupported (layout : GroundLayout)
  | malformedCycle (cycle : String)
  | solver (error : SolverError)
deriving DecidableEq

def StageError.message : StageError → String
  | .unsupported layout => "cannot stage '" ++ layout.text ++ "'"
  | .malformedCycle cycle => "cycle '" ++ cycle ++ "' is not a single ring or line"
  | .solver error => "constraint solver error: " ++ error.message

/-- Where atoms are pulled to. An atom without a place is pulled to the origin. -/
abbrev Placement (α : Type) := Diagram α

def Placement.at {α : Type} [Scalar α] (placement : Placement α) (atom : String) : Point α :=
  (placement.find? atom).getD { x := Scalar.zero, y := Scalar.zero }

/-! ### Constraints -/

variable {α : Type} [Measure α]

structure Gap (α : Type) where
  comparison : Comparison
  distance : α

def StagingSettings.gap (settings : StagingSettings) : Separation → Gap α
  | .unspecified =>
      { comparison := .atLeast, distance := Measure.ofFloat settings.defaultSeparation }
  | .atLeast distance => { comparison := .atLeast, distance := Measure.ofFloat distance }
  | .exactly distance => { comparison := .equal, distance := Measure.ofFloat distance }

namespace Gap

def leftOf (gap : Gap α) (first second : String) : Constraint α :=
  .offset { axis := .x, atom := second } gap.comparison { axis := .x, atom := first } gap.distance

def above (gap : Gap α) (first second : String) : Constraint α :=
  .offset { axis := .y, atom := first } gap.comparison { axis := .y, atom := second } gap.distance

def beyondOrigin (gap : Gap α) (coordinate : Coordinate) : Constraint α :=
  .fixed coordinate gap.comparison gap.distance

def beforeOrigin (gap : Gap α) (coordinate : Coordinate) : Constraint α :=
  .fixed coordinate gap.comparison.opposite (-gap.distance)

end Gap

/-- Two atoms have one coordinate in common; an atom has all in common with itself. -/
def shared (axis : Axis) (first second : String) : List (Constraint α) :=
  if first = second then
    []
  else
    [.offset { axis := axis, atom := first } .equal { axis := axis, atom := second } Scalar.zero]

def UnaryOption.constraint (option : UnaryOption) (gap : Gap α) (atom : String) : Constraint α :=
  match option with
  | .leftOfCenter => gap.beforeOrigin { axis := .x, atom := atom }
  | .rightOfCenter => gap.beyondOrigin { axis := .x, atom := atom }
  | .aboveCenter => gap.beyondOrigin { axis := .y, atom := atom }
  | .belowCenter => gap.beforeOrigin { axis := .y, atom := atom }

/-- Aligned atoms are spaced only when a separation is given, in the order in which
they are placed. There are no constraints for options that cannot be placed. -/
def BinaryOption.constraints (option : BinaryOption) (gap : Gap α) (spaced : Bool)
    (placement : Placement α) (first second : String) : List (Constraint α) :=
  match option with
  | .leftOf => [Gap.leftOf gap first second]
  | .rightOf => [Gap.leftOf gap second first]
  | .above => [Gap.above gap first second]
  | .below => [Gap.above gap second first]
  | .horizontallyAligned =>
      shared .y first second ++
        (if !spaced then []
          else if Measure.atMost (placement.at first).x (placement.at second).x then
            [Gap.leftOf gap first second]
          else
            [Gap.leftOf gap second first])
  | .verticallyAligned =>
      shared .x first second ++
        (if !spaced then []
          else if Measure.atMost (placement.at second).y (placement.at first).y then
            [Gap.above gap first second]
          else
            [Gap.above gap second first])
  | .directlyLeftOf => Gap.leftOf gap first second :: shared .y first second
  | .directlyRightOf => Gap.leftOf gap second first :: shared .y first second
  | .directlyAbove => Gap.above gap first second :: shared .x first second
  | .directlyBelow => Gap.above gap second first :: shared .x first second
  | .outsideRingOf => []
  | .insideRingOf => []
  | .contains => []

def GroundLayout.constraints (settings : StagingSettings) (placement : Placement α)
    (layout : GroundLayout) : List (Constraint α) :=
  match layout with
  | .unary option separation operand => [option.constraint (settings.gap separation) operand]
  | .binary option separation first second =>
      let spaced := separation ≠ .unspecified
      option.constraints (settings.gap separation) spaced placement first second
  | _ => []

def GroundLayout.demands (settings : StagingSettings) (placement : Placement α)
    (layout : GroundLayout) : List (Demand α) :=
  (layout.constraints settings placement).map (fun constraint =>
    { constraint := constraint, source := layout.text })

def GroundLayout.demands? (settings : StagingSettings) (placement : Placement α)
    (layout : GroundLayout) : Option (List (Demand α)) :=
  match layout with
  | .binary .outsideRingOf _ _ _ => none
  | .binary .insideRingOf _ _ _ => none
  | .binary .contains _ _ _ => none
  | .cyclic _ _ _ _ => none
  | .grouping _ _ => none
  | placed => some (placed.demands settings placement)

/-! ### Staging -/

structure Stager where
  settings : StagingSettings
  /-- Unary and binary layouts, in order. -/
  layouts : List GroundLayout
  cycles : SortedMap String CycleGraph
  /-- The operands of all layouts, in the order of their first mention. -/
  mentioned : List String

namespace Stager

def empty (settings : StagingSettings) : Stager :=
  { settings := settings, layouts := [], cycles := .empty, mentioned := [] }

def mention (stager : Stager) (atoms : List String) : Stager :=
  { stager with mentioned := atoms.foldl CycleGraph.addOnce stager.mentioned }

/-- An edge goes into the graph of its cycle, any other layout to the end of the queue. -/
def queue (stager : Stager) (layout : GroundLayout) : Stager :=
  match layout with
  | .cyclic option first second cycle =>
      let graph := (stager.cycles.find? cycle).getD .empty
      { stager with cycles := stager.cycles.insert cycle (graph.addLayout option first second) }
  | layout => { stager with layouts := stager.layouts ++ [layout] }

def stage (stager : Stager) (layout : GroundLayout) : Stager × Option StageError :=
  if layout.isStageable then
    ((stager.queue layout).mention layout.operands, none)
  else
    (stager, some (.unsupported layout))

/-- Stages layouts up to the first that is not accepted, and keeps those before it. -/
def stageEach (stager : Stager) : List GroundLayout → Stager × Option StageError
  | [] => (stager, none)
  | layout :: rest =>
      match stager.stage layout with
      | (next, none) => stageEach next rest
      | (next, some fault) => (next, some fault)

def stageAll (stager : Stager) (layouts : List GroundLayout) : Except StageError Stager :=
  match stager.stageEach layouts with
  | (staged, none) => .ok staged
  | (_, some fault) => .error fault

/-! ### Placement -/

/-- The atoms of an instance and then all others that are mentioned. -/
def atoms (stager : Stager) (world : Instance) : List String :=
  stager.mentioned.foldl CycleGraph.addOnce world.atomNames

/-- The least number of columns for a grid that is no higher than it is wide. -/
def columns (count : Nat) : Nat :=
  max 1 (((List.range (count + 1)).find? (fun width => count ≤ width * width)).getD count)

/-- Atoms on a grid, row by row and downwards. -/
def seeds (spacing : α) (atoms : List String) : List (String × Point α) :=
  let width := columns atoms.length
  atoms.zipIdx.map (fun (atom, index) =>
    (atom,
      { x := Scalar.ofNat (index % width) * spacing
        y := -Scalar.ofNat (index / width) * spacing }))

def circleCenter (settings : StagingSettings) (number : Nat) : Point Float :=
  { x := Float.ofNat number * (2 * settings.cycleRadius + settings.cycleSpacing), y := 0 }

def onCircle (settings : StagingSettings) (number : Nat) (order : List String) :
    List (String × Point α) :=
  let points := circlePoints order.length (circleCenter settings number) settings.cycleRadius
  order.zip (points.map (fun point =>
    { x := Measure.ofFloat point.x, y := Measure.ofFloat point.y }))

/-- The atoms of all cycles on their circles, in the order of the cycle ids. -/
def circles (settings : StagingSettings) :
    List ((String × CycleGraph) × Nat) → Except StageError (List (String × Point α))
  | [] => .ok []
  | ((cycle, graph), number) :: rest =>
      match graph.order? with
      | none => .error (.malformedCycle cycle)
      | some order => do .ok (onCircle settings number order ++ (← circles settings rest))

/-- Where all atoms are pulled to, and the atoms that are on a circle. -/
def placement (stager : Stager) (atoms : List String) :
    Except StageError (Placement α × List String) := do
  let circled ← circles stager.settings stager.cycles.entries.zipIdx
  let grid := seeds (Measure.ofFloat stager.settings.seedSpacing) atoms
  .ok (.ofList (grid ++ circled), circled.map Prod.fst)

def suggestAll (placement : Placement α) (circled : List String) (solver : Solver α) :
    List String → Except SolverError (Solver α)
  | [] => .ok solver
  | atom :: rest => do
      let point := placement.at atom
      let strength : Strength := if atom ∈ circled then .strong else .weak
      let solver ← solver.suggest { axis := .x, atom := atom } point.x strength
      let solver ← solver.suggest { axis := .y, atom := atom } point.y strength
      suggestAll placement circled solver rest

def solverFor (atoms : List String) : Solver α :=
  atoms.foldl (fun solver atom =>
    (solver.register { axis := .x, atom := atom }).register { axis := .y, atom := atom }) .empty

def requireLayouts (settings : StagingSettings) (placement : Placement α) (solver : Solver α) :
    List GroundLayout → Except StageError (Solver α)
  | [] => .ok solver
  | layout :: rest =>
      match layout.demands? settings placement with
      | none => .error (.unsupported layout)
      | some demands => do
          let solver ← (solver.requireAll demands).mapError .solver
          requireLayouts settings placement solver rest

def solve (stager : Stager) (placement : Placement α) (circled atoms : List String) :
    Except StageError (Solution α) := do
  let solver ← requireLayouts stager.settings placement (solverFor atoms) stager.layouts
  let solver ← (suggestAll placement circled solver atoms).mapError .solver
  .ok solver.solve.1

def arrange (stager : Stager) (world : Instance) : Except StageError (Solution α) := do
  let atoms := stager.atoms world
  let (placement, circled) ← stager.placement atoms
  stager.solve placement circled atoms

end Stager

end RelationalLayout
