/-
Rows: linear expressions in unknowns.

A row is a constant and unknowns with coefficients, in the order of the numbers of
the unknowns. Negligible sums are dropped, so that unknowns that cancel out do not
stay behind.
-/

import RelationalLayout.Measure

namespace RelationalLayout

inductive UnknownKind where
  | coordinate
  /-- How far an inequality is from being tight. -/
  | slack
  /-- How far a coordinate is from its suggested value, to one side. -/
  | error
  /-- The mark of an equation, always zero. -/
  | dummy
deriving DecidableEq, Inhabited

structure Unknown where
  kind : UnknownKind
  number : Nat
deriving DecidableEq, Inhabited

/-- Only slacks and errors can take part in an exchange as they like. -/
def Unknown.isPivotable (unknown : Unknown) : Bool :=
  unknown.kind = .slack || unknown.kind = .error

structure Row (α : Type) where
  constant : α
  cells : List (Unknown × α)

namespace Row

variable {α : Type} [Measure α]

def ofConstant (constant : α) : Row α := { constant := constant, cells := [] }

def coefficient (row : Row α) (unknown : Unknown) : α :=
  (row.cells.lookup unknown).getD Scalar.zero

/-- A cell in front of others, unless its coefficient is negligible. -/
def consCell (unknown : Unknown) (coefficient : α) (cells : List (Unknown × α)) :
    List (Unknown × α) :=
  if Measure.isNegligible coefficient then cells else (unknown, coefficient) :: cells

def addCell (unknown : Unknown) (coefficient : α) : List (Unknown × α) → List (Unknown × α)
  | [] => consCell unknown coefficient []
  | (next, present) :: rest =>
      if unknown = next then
        consCell next (present + coefficient) rest
      else if unknown.number < next.number then
        consCell unknown coefficient ((next, present) :: rest)
      else
        (next, present) :: addCell unknown coefficient rest

def add (row : Row α) (unknown : Unknown) (coefficient : α) : Row α :=
  { row with cells := addCell unknown coefficient row.cells }

def addRow (row other : Row α) (factor : α) : Row α :=
  { constant := row.constant + other.constant * factor
    cells := other.cells.foldl (fun cells cell => addCell cell.1 (cell.2 * factor) cells)
      row.cells }

def without (row : Row α) (unknown : Unknown) : Row α :=
  { row with cells := row.cells.filter (fun cell => cell.1 ≠ unknown) }

def opposite (row : Row α) : Row α :=
  { constant := -row.constant, cells := row.cells.map (fun cell => (cell.1, -cell.2)) }

/-- The row as it is or its opposite, whichever has no negative constant. -/
def withPositiveConstant (row : Row α) : Row α :=
  if Scalar.isNegative row.constant then row.opposite else row

/-- The row that an unknown equals where this row is zero. -/
def solvedFor (row : Row α) (unknown : Unknown) : Row α :=
  let factor := -Scalar.one / row.coefficient unknown
  { constant := row.constant * factor
    cells := (row.without unknown).cells.map (fun cell => (cell.1, cell.2 * factor)) }

/-- The row that `entering` equals where `leaving` equals this row. -/
def exchanged (row : Row α) (leaving entering : Unknown) : Row α :=
  (row.add leaving (-Scalar.one)).solvedFor entering

def substitute (row : Row α) (unknown : Unknown) (other : Row α) : Row α :=
  match row.cells.lookup unknown with
  | some coefficient => (row.without unknown).addRow other coefficient
  | none => row

def gain (row : Row α) (unknown : Unknown) (other : Row α) : α :=
  match row.cells.lookup unknown with
  | some coefficient => other.constant * coefficient
  | none => Scalar.zero

end Row

end RelationalLayout
