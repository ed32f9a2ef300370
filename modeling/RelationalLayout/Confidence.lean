/-
How well a diagram satisfies a layout.

A direction is scored by a logistic curve over the difference of the coordinates,
an alignment by a bell curve, and a direct neighbour by the product of both. The
many instances of one rule are averaged by the geometric mean.
-/

import RelationalLayout.Compilation
import RelationalLayout.Diagram
import RelationalLayout.Scalar

namespace RelationalLayout

inductive ScoreError where
  /-- The text of a layout that no curve scores. -/
  | unsupported (layout : String)
  | missingPosition (atom : String)
deriving DecidableEq, Inhabited

def ScoreError.message : ScoreError → String
  | .unsupported layout => "no confidence function for '" ++ layout ++ "'"
  | .missingPosition atom => "atom '" ++ atom ++ "' has no position in the diagram"

variable {α : Type} [Scalar α]

/-! ### Curves -/

def logistic (position : α) : α := Scalar.one / (Scalar.one + Scalar.exp (-position))

def steepness : α := Scalar.one / Scalar.ofNat 10

/-- A logistic curve that rises through one half where the difference is `offset`. -/
def rising (offset difference : α) : α := logistic (steepness * (difference - offset))

def falling (offset difference : α) : α := logistic (-(steepness * (difference - offset)))

/-- A bell curve with the value one where the difference is zero. -/
def bell (difference : α) : α :=
  Scalar.exp (-difference * difference / (Scalar.ofNat 2 * Scalar.ofNat 1600))

def horizontalOffset : α := Scalar.ofNat 50

def verticalOffset : α := Scalar.ofNat 25

/-! ### Options -/

def BinaryOption.confidence? (option : BinaryOption) (first second : Point α) : Option α :=
  let across := first.x - second.x
  let up := first.y - second.y
  match option with
  | .leftOf => some (falling (-horizontalOffset) across)
  | .rightOf => some (rising horizontalOffset across)
  | .above => some (rising verticalOffset up)
  | .below => some (falling (-verticalOffset) up)
  | .horizontallyAligned => some (bell up)
  | .verticallyAligned => some (bell across)
  | .directlyLeftOf => some (falling (-horizontalOffset) across * bell up)
  | .directlyRightOf => some (rising horizontalOffset across * bell up)
  | .directlyAbove => some (rising verticalOffset up * bell across)
  | .directlyBelow => some (falling (-verticalOffset) up * bell across)
  | .outsideRingOf => none
  | .insideRingOf => none
  | .contains => none

/-- A point is compared with the centre of the drawing. -/
def UnaryOption.confidence (option : UnaryOption) (point : Point α) : α :=
  let across := point.x - Scalar.zero
  let up := point.y - Scalar.zero
  match option with
  | .leftOfCenter => falling (-horizontalOffset) across
  | .rightOfCenter => rising horizontalOffset across
  | .aboveCenter => rising verticalOffset up
  | .belowCenter => falling (-verticalOffset) up

/-! ### Layouts -/

def Diagram.locate (diagram : Diagram α) (atom : String) : Except ScoreError (Point α) :=
  match diagram.find? atom with
  | some point => .ok point
  | none => .error (.missingPosition atom)

namespace Layout

variable {tag : Type} [LayoutTag tag]

/-- Separations play no part in the score of a layout. -/
def score (diagram : Diagram α) (layout : Layout tag) : Except ScoreError α :=
  match layout with
  | .unary option _ operand => do .ok (option.confidence (← diagram.locate operand))
  | .binary option _ first second => do
      match option.confidence? (← diagram.locate first) (← diagram.locate second) with
      | some confidence => .ok confidence
      | none => .error (.unsupported layout.text)
  | _ => .error (.unsupported layout.text)

def scoreOrZero (diagram : Diagram α) (layout : Layout tag) : α :=
  match layout.score diagram with
  | .ok confidence => confidence
  | .error _ => Scalar.zero

end Layout

/-! ### Rules -/

/-- The geometric mean by way of logarithms; no scores at all make zero. -/
def geometricMean (scores : List α) : α :=
  if scores.isEmpty then
    Scalar.zero
  else
    Scalar.exp ((scores.map Scalar.log).foldl (· + ·) Scalar.zero / Scalar.ofNat scores.length)

def Rule.confidence (schema : Schema) (world : Instance) (diagram : Diagram α) (rule : Rule) :
    Except CompileError α :=
  match rule.compile schema world 0 with
  | .ok layouts => .ok (geometricMean (layouts.map (Layout.scoreOrZero diagram)))
  | .error fault => .error fault

end RelationalLayout
