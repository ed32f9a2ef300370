/-
The vocabulary of geometric relations.

A unary option relates one atom to the centre of the drawing, a binary option
relates two atoms, and a cyclic option gives the direction of an edge on a
circle. Every option has one spelling, used in program text and in JSON alike.
-/

namespace RelationalLayout

inductive UnaryOption where
  | leftOfCenter
  | rightOfCenter
  | aboveCenter
  | belowCenter
deriving DecidableEq, Inhabited

namespace UnaryOption

def all : List UnaryOption := [.leftOfCenter, .rightOfCenter, .aboveCenter, .belowCenter]

def name : UnaryOption → String
  | .leftOfCenter => "LeftOfCenter"
  | .rightOfCenter => "RightOfCenter"
  | .aboveCenter => "AboveCenter"
  | .belowCenter => "BelowCenter"

end UnaryOption

inductive BinaryOption where
  | leftOf
  | rightOf
  | above
  | below
  | directlyLeftOf
  | directlyRightOf
  | directlyAbove
  | directlyBelow
  | horizontallyAligned
  | verticallyAligned
  | outsideRingOf
  | insideRingOf
  | contains
deriving DecidableEq, Inhabited

namespace BinaryOption

def all : List BinaryOption :=
  [.leftOf, .rightOf, .above, .below, .directlyLeftOf, .directlyRightOf, .directlyAbove,
    .directlyBelow, .horizontallyAligned, .verticallyAligned, .outsideRingOf, .insideRingOf,
    .contains]

def name : BinaryOption → String
  | .leftOf => "LeftOf"
  | .rightOf => "RightOf"
  | .above => "Above"
  | .below => "Below"
  | .directlyLeftOf => "DirectlyLeftOf"
  | .directlyRightOf => "DirectlyRightOf"
  | .directlyAbove => "DirectlyAbove"
  | .directlyBelow => "DirectlyBelow"
  | .horizontallyAligned => "HorizontallyAligned"
  | .verticallyAligned => "VerticallyAligned"
  | .outsideRingOf => "OutsideRingOf"
  | .insideRingOf => "InsideRingOf"
  | .contains => "Contains"

/-- The option that says the same with the operands swapped. Containment and
rings have none; an alignment is its own. -/
def mirror : BinaryOption → Option BinaryOption
  | .leftOf => some .rightOf
  | .rightOf => some .leftOf
  | .above => some .below
  | .below => some .above
  | .directlyLeftOf => some .directlyRightOf
  | .directlyRightOf => some .directlyLeftOf
  | .directlyAbove => some .directlyBelow
  | .directlyBelow => some .directlyAbove
  | .horizontallyAligned => some .horizontallyAligned
  | .verticallyAligned => some .verticallyAligned
  | .outsideRingOf => none
  | .insideRingOf => none
  | .contains => none

def isSupported : BinaryOption → Bool
  | .outsideRingOf => false
  | .insideRingOf => false
  | .contains => false
  | _ => true

end BinaryOption

inductive CyclicOption where
  | clockwise
  | counterclockwise
deriving DecidableEq, Inhabited

namespace CyclicOption

def all : List CyclicOption := [.clockwise, .counterclockwise]

def name : CyclicOption → String
  | .clockwise => "Clockwise"
  | .counterclockwise => "Counterclockwise"

end CyclicOption

end RelationalLayout
