/-
Diagrams: the positions of atoms in the plane, y growing upwards.

A renderer gives the coordinates of an atom as two named inputs; a diagram can be
read back from them. Positions are generic in their numbers, so that what is said
of them can be said of exact numbers as well.
-/

import RelationalLayout.Instance
import RelationalLayout.SortedMap

namespace RelationalLayout

inductive Axis where
  | x
  | y
deriving DecidableEq, Inhabited

structure Coordinate where
  axis : Axis
  atom : String
deriving DecidableEq, Inhabited

def Coordinate.inputName (coordinate : Coordinate) : String :=
  match coordinate.axis with
  | .x => "x_" ++ coordinate.atom
  | .y => "y_" ++ coordinate.atom

def Coordinate.ofInputName? (name : String) : Option Coordinate :=
  match name.toList with
  | 'x' :: '_' :: atom => some { axis := .x, atom := String.ofList atom }
  | 'y' :: '_' :: atom => some { axis := .y, atom := String.ofList atom }
  | _ => none

structure Point (α : Type) where
  x : α
  y : α
deriving DecidableEq, Inhabited

def Point.along {α : Type} (axis : Axis) (point : Point α) : α :=
  match axis with
  | .x => point.x
  | .y => point.y

abbrev Diagram (α : Type) := SortedMap String (Point α)

namespace Diagram

variable {α : Type}

/-- The positions of atoms by their inputs, or the first atom that lacks one. -/
def place (inputs : String → Option α) (diagram : Diagram α) :
    List String → Except String (Diagram α)
  | [] => .ok diagram
  | atom :: rest =>
      match inputs (Coordinate.mk .x atom).inputName, inputs (Coordinate.mk .y atom).inputName with
      | some x, some y => place inputs (diagram.insert atom { x := x, y := y }) rest
      | _, _ => .error atom

def ofInputs (inputs : String → Option α) (atoms : List String) : Except String (Diagram α) :=
  place inputs .empty atoms

end Diagram

end RelationalLayout
