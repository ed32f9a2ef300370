/-
Linear constraints on coordinates.

A constraint compares a coordinate with a number, or with another coordinate at a
distance. Constraints are stated in any numbers that places can be measured in.
-/

import RelationalLayout.Diagram
import RelationalLayout.Measure

namespace RelationalLayout

inductive Comparison where
  | equal
  | atLeast
  | atMost
deriving DecidableEq, Inhabited

namespace Comparison

def symbol : Comparison → String
  | .equal => "="
  | .atLeast => ">="
  | .atMost => "<="

def Holds {α : Type} [LE α] (left right : α) : Comparison → Prop
  | .equal => left = right
  | .atLeast => right ≤ left
  | .atMost => left ≤ right

def opposite : Comparison → Comparison
  | .equal => .equal
  | .atLeast => .atMost
  | .atMost => .atLeast

end Comparison

inductive Constraint (α : Type) where
  | fixed (coordinate : Coordinate) (comparison : Comparison) (value : α)
  | offset (left : Coordinate) (comparison : Comparison) (right : Coordinate) (distance : α)
deriving DecidableEq

abbrev Assignment (α : Type) := Coordinate → α

namespace Constraint

variable {α : Type}

def coordinates : Constraint α → List Coordinate
  | .fixed coordinate _ _ => [coordinate]
  | .offset left _ right _ => [left, right]

def comparison : Constraint α → Comparison
  | .fixed _ comparison _ => comparison
  | .offset _ comparison _ _ => comparison

def Holds [LE α] [Add α] (assignment : Assignment α) : Constraint α → Prop
  | .fixed coordinate comparison value => comparison.Holds (assignment coordinate) value
  | .offset left comparison right distance =>
      comparison.Holds (assignment left) (assignment right + distance)

def text [Measure α] : Constraint α → String
  | .fixed coordinate comparison value =>
      coordinate.inputName ++ " " ++ comparison.symbol ++ " " ++ Measure.text value
  | .offset left comparison right distance =>
      left.inputName ++ " " ++ comparison.symbol ++ " " ++ right.inputName ++ " + " ++
        Measure.text distance

end Constraint

end RelationalLayout
