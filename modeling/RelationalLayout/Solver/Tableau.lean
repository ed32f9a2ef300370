/-
Tableaus of linear constraints that grow one by one.

Every row says what an unknown equals in terms of unknowns that are zero, so the
constants of the rows are a solution. Slacks and errors are not negative. A new
constraint becomes a row; one that contradicts the rows before it is refused, and
after each the weighted sum of the errors is made as small as it can be.
Constraints that contradict one another by what is negligible are accepted.
-/

import RelationalLayout.Constraint
import RelationalLayout.Solver.Row

namespace RelationalLayout

inductive TableauError where
  | unsatisfiable
  /-- A sum that has no least value. -/
  | unbounded
  /-- A negative slack or error that nothing can be exchanged for, or exchanges without end. -/
  | stuck
deriving DecidableEq

/-- A suggestion for a coordinate, with how far the coordinate is above the suggested
value and how far below. -/
structure Suggestion (α : Type) where
  coordinate : Coordinate
  above : Unknown
  below : Unknown
  value : α

def Suggestion.revalue {α : Type} (suggestion : Suggestion α) (coordinate : Coordinate)
    (value : α) : Suggestion α :=
  if suggestion.coordinate = coordinate then { suggestion with value := value } else suggestion

structure Tableau (α : Type) where
  size : Nat
  coordinates : List (Coordinate × Unknown)
  /-- What unknowns equal, in the order of their numbers. -/
  rows : List (Unknown × Row α)
  /-- The weighted sum of the errors. -/
  objective : Row α
  /-- How far a constraint that is being added is from holding. -/
  trial : Option (Row α)
  /-- Slacks and errors whose rows may have become negative, the latest first. -/
  strained : List Unknown
  /-- Coordinates that have moved since all were last taken for settled. -/
  moved : List Unknown
  suggestions : List (Suggestion α)

namespace Tableau

variable {α : Type} [Measure α]

def empty : Tableau α :=
  { size := 0, coordinates := [], rows := [], objective := .ofConstant Scalar.zero, trial := none
    strained := [], moved := [], suggestions := [] }

/-! ### Unknowns and rows -/

def newUnknown (tableau : Tableau α) (kind : UnknownKind) : Unknown × Tableau α :=
  ({ kind := kind, number := tableau.size }, { tableau with size := tableau.size + 1 })

def unknownOf (tableau : Tableau α) (coordinate : Coordinate) : Unknown × Tableau α :=
  match tableau.coordinates.lookup coordinate with
  | some unknown => (unknown, tableau)
  | none =>
      let (unknown, tableau) := tableau.newUnknown .coordinate
      (unknown, { tableau with
        coordinates := tableau.coordinates ++ [(coordinate, unknown)] })

def row? (tableau : Tableau α) (unknown : Unknown) : Option (Row α) := tableau.rows.lookup unknown

/-- The value of a coordinate; one without a row is zero, and zero has no sign. -/
def value (tableau : Tableau α) (coordinate : Coordinate) : α :=
  match (tableau.coordinates.lookup coordinate).bind tableau.row? with
  | some row => Scalar.zero + row.constant
  | none => Scalar.zero

def hasMoved (tableau : Tableau α) (coordinate : Coordinate) : Bool :=
  (tableau.coordinates.lookup coordinate).any (fun unknown => unknown ∈ tableau.moved)

def settle (tableau : Tableau α) : Tableau α := { tableau with moved := [] }

def insertRow (unknown : Unknown) (row : Row α) : List (Unknown × Row α) → List (Unknown × Row α)
  | [] => [(unknown, row)]
  | (next, present) :: rest =>
      if unknown.number < next.number then
        (unknown, row) :: (next, present) :: rest
      else
        (next, present) :: insertRow unknown row rest

def withRow (tableau : Tableau α) (unknown : Unknown) (row : Row α) : Tableau α :=
  { tableau with rows := insertRow unknown row tableau.rows }

def withoutRow (tableau : Tableau α) (unknown : Unknown) : Tableau α :=
  { tableau with rows := tableau.rows.filter (fun entry => entry.1 ≠ unknown) }

def isStrained (entry : Unknown × Row α) : Bool :=
  entry.1.kind ≠ .coordinate && Scalar.isNegative entry.2.constant

def movers (tableau : Tableau α) (change : Row α → α) : List Unknown :=
  (tableau.rows.filter (fun entry =>
    entry.1.kind = .coordinate && !Measure.isZero (change entry.2))).map Prod.fst

def substitute (tableau : Tableau α) (unknown : Unknown) (row : Row α) : Tableau α :=
  let rows := tableau.rows.map (fun entry => (entry.1, entry.2.substitute unknown row))
  { tableau with
    rows := rows
    objective := tableau.objective.substitute unknown row
    trial := tableau.trial.map (fun trial => trial.substitute unknown row)
    strained := ((rows.filter isStrained).map Prod.fst).reverse ++ tableau.strained
    moved := tableau.movers (fun present => present.gain unknown row) ++ tableau.moved }

def enter (tableau : Tableau α) (unknown : Unknown) (row : Row α) : Tableau α :=
  let entered := (tableau.substitute unknown row).withRow unknown row
  if unknown.kind = .coordinate && !Measure.isZero row.constant then
    { entered with moved := unknown :: entered.moved }
  else
    entered

def pivot (tableau : Tableau α) (leaving : Unknown) (row : Row α) (entering : Unknown) :
    Tableau α :=
  (tableau.withoutRow leaving).enter entering (row.exchanged leaving entering)

/-! ### Making a sum smaller -/

def goal (tableau : Tableau α) : Row α := tableau.trial.getD tableau.objective

/-- An unknown that makes the goal smaller when it grows. -/
def entering? (tableau : Tableau α) : Option Unknown :=
  (tableau.goal.cells.find? (fun cell =>
    cell.1.kind ≠ .dummy && Scalar.isNegative cell.2)).map Prod.fst

/-- Keeps the candidate with the least ratio, the first of several. -/
def lessRatio {β : Type} (best : Option (α × β)) (ratio : α) (candidate : β) : Option (α × β) :=
  match best with
  | none => if Measure.isBounded ratio then some (ratio, candidate) else none
  | some (least, _) => if Scalar.exceeds least ratio then some (ratio, candidate) else best

/-- The slack or error that becomes zero first when an unknown grows, with its row. -/
def leaving? (tableau : Tableau α) (entering : Unknown) : Option (Unknown × Row α) :=
  (tableau.rows.foldl (fun best entry =>
    let coefficient := entry.2.coefficient entering
    if entry.1.kind ≠ .coordinate && Scalar.isNegative coefficient then
      lessRatio best (-entry.2.constant / coefficient) entry
    else
      best) none).map Prod.snd

/-- Bounds the exchanges that one change of a tableau may take. -/
def patience : Nat := 100000

/-- Exchanges unknowns until the goal cannot become smaller. -/
def optimise : Nat → Tableau α → Except TableauError (Tableau α)
  | 0, _ => .error .stuck
  | exchanges + 1, tableau =>
      match tableau.entering? with
      | none => .ok tableau
      | some entering =>
          match tableau.leaving? entering with
          | none => .error .unbounded
          | some (leaving, row) => optimise exchanges (tableau.pivot leaving row entering)

/-! ### Restoring negative rows -/

/-- The unknown whose growth costs the objective least for what it adds to a row. -/
def restoring? (tableau : Tableau α) (row : Row α) : Option Unknown :=
  (row.cells.foldl (fun best cell =>
    if cell.1.kind ≠ .dummy && Scalar.exceeds cell.2 Scalar.zero then
      lessRatio best (tableau.objective.coefficient cell.1 / cell.2) cell.1
    else
      best) none).map Prod.snd

/-- Exchanges unknowns until no slack or error is negative. -/
def restore : Nat → Tableau α → Except TableauError (Tableau α)
  | 0, _ => .error .stuck
  | steps + 1, tableau =>
      match tableau.strained with
      | [] => .ok tableau
      | unknown :: later =>
          let tableau := { tableau with strained := later }
          match tableau.row? unknown with
          | none => restore steps tableau
          | some row =>
              if Scalar.isNegative row.constant then
                match tableau.restoring? row with
                | none => .error .stuck
                | some entering => restore steps (tableau.pivot unknown row entering)
              else
                restore steps tableau

/-! ### Adding constraints -/

def expression (tableau : Tableau α) (constant : α) (terms : List (Coordinate × α)) :
    Row α × Tableau α :=
  terms.foldl (fun (row, tableau) (coordinate, factor) =>
    let (unknown, tableau) := tableau.unknownOf coordinate
    match tableau.row? unknown with
    | some known => (row.addRow known factor, tableau)
    | none => (row.add unknown factor, tableau)) (.ofConstant constant, tableau)

/-- What has to be zero or more, or less, under a constraint. -/
def difference (tableau : Tableau α) : Constraint α → Row α × Tableau α
  | .fixed coordinate _ value =>
      tableau.expression (Scalar.zero - value) [(coordinate, Scalar.one)]
  | .offset left _ right distance =>
      tableau.expression (Scalar.zero - distance)
        [(left, Scalar.one), (right, -Scalar.one)]

/-- The unknown that a new row is solved for: a coordinate, or else a mark of the
row that is not negative then. -/
def subject? (row : Row α) (marks : List Unknown) : Option Unknown :=
  match row.cells.find? (fun cell => cell.1.kind = .coordinate) with
  | some cell => some cell.1
  | none => marks.find? (fun mark =>
      mark.isPivotable && Scalar.isNegative (row.coefficient mark))

/-- Leaves an unknown that has no row out of all rows: it is zero from now on. -/
def forget (tableau : Tableau α) (unknown : Unknown) : Tableau α :=
  { tableau with
    rows := tableau.rows.map (fun entry => (entry.1, entry.2.without unknown))
    objective := tableau.objective.without unknown }

/-- Adds a row that cannot be solved for a subject: its value is made as small as it
can be, and has to come down to zero. -/
def addByTrial (tableau : Tableau α) (row : Row α) : Except TableauError (Tableau α) := do
  let (artificial, tableau) := tableau.newUnknown .slack
  let settled ← ({ tableau with trial := some row }.withRow artificial row).optimise patience
  if !Measure.isNegligible settled.goal.constant then
    .error .unsatisfiable
  else
    let tableau := { settled with trial := none }
    match tableau.row? artificial with
    | none => .ok (tableau.forget artificial)
    | some row =>
        if row.cells.isEmpty then
          .ok (tableau.withoutRow artificial)
        else
          match row.cells.find? (fun cell => cell.1.isPivotable) with
          | none => .error .unsatisfiable
          | some cell => .ok ((tableau.pivot artificial row cell.1).forget artificial)

def addRow (tableau : Tableau α) (row : Row α) (marks : List Unknown) :
    Except TableauError (Tableau α) := do
  let row := row.withPositiveConstant
  let added ← match subject? row marks with
    | some subject => .ok (tableau.enter subject (row.solvedFor subject))
    | none =>
        if row.cells.all (fun cell => cell.1.kind = .dummy) then
          match marks.head?, Measure.isNegligible row.constant with
          | some mark, true => .ok (tableau.enter mark (row.solvedFor mark))
          | _, _ => .error .unsatisfiable
        else
          tableau.addByTrial row
  added.optimise patience

def require (tableau : Tableau α) (constraint : Constraint α) :
    Except TableauError (Tableau α) :=
  let (row, tableau) := tableau.difference constraint
  match constraint.comparison with
  | .equal =>
      let (mark, tableau) := tableau.newUnknown .dummy
      tableau.addRow (row.add mark Scalar.one) [mark]
  | .atLeast =>
      let (mark, tableau) := tableau.newUnknown .slack
      tableau.addRow (row.add mark (-Scalar.one)) [mark]
  | .atMost =>
      let (mark, tableau) := tableau.newUnknown .slack
      tableau.addRow (row.add mark Scalar.one) [mark]

/-! ### Suggestions -/

def pull (tableau : Tableau α) (coordinate : Coordinate) (weight : α) :
    Except TableauError (Tableau α) := do
  let (row, tableau) := tableau.expression Scalar.zero [(coordinate, Scalar.one)]
  let (above, tableau) := tableau.newUnknown .error
  let (below, tableau) := tableau.newUnknown .error
  let row := (row.add above (-Scalar.one)).add below Scalar.one
  let weighed := (tableau.objective.add above weight).add below weight
  let added ← { tableau with objective := weighed }.addRow row [above, below]
  .ok { added with
    suggestions := added.suggestions ++
      [{ coordinate := coordinate, above := above, below := below, value := Scalar.zero }] }

def shiftRow (tableau : Tableau α) (unknown : Unknown) (row : Row α) (amount : α) : Tableau α :=
  let shifted := { row with constant := row.constant + amount }
  { tableau with
    rows := tableau.rows.map (fun entry =>
      if entry.1 = unknown then (unknown, shifted) else entry)
    strained :=
      if Scalar.isNegative shifted.constant then unknown :: tableau.strained
      else tableau.strained }

def shiftAll (tableau : Tableau α) (unknown : Unknown) (amount : α) : Tableau α :=
  let rows := tableau.rows.map (fun entry =>
    match entry.2.cells.lookup unknown with
    | some coefficient =>
        (entry.1, { entry.2 with constant := entry.2.constant + amount * coefficient })
    | none => entry)
  let touched := rows.filter (fun entry =>
    isStrained entry && (entry.2.cells.lookup unknown).isSome)
  { tableau with
    rows := rows
    strained := (touched.map Prod.fst).reverse ++ tableau.strained
    moved := tableau.movers (fun row => amount * row.coefficient unknown) ++ tableau.moved }

/-- Changes the value that a pulled coordinate is pulled towards. -/
def suggest (tableau : Tableau α) (coordinate : Coordinate) (value : α) :
    Except TableauError (Tableau α) :=
  match tableau.suggestions.find? (fun suggestion => suggestion.coordinate = coordinate) with
  | none => .ok tableau
  | some suggestion =>
      let moved := value - suggestion.value
      let tableau := { tableau with
        suggestions := tableau.suggestions.map (fun (other : Suggestion α) =>
          other.revalue coordinate value) }
      let shifted := match tableau.row? suggestion.above, tableau.row? suggestion.below with
        | some row, _ => tableau.shiftRow suggestion.above row (-moved)
        | none, some row => tableau.shiftRow suggestion.below row moved
        | none, none => tableau.shiftAll suggestion.above moved
      shifted.restore patience

end Tableau

end RelationalLayout
