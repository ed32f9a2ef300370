/-
Footprints: layouts reduced to one way of saying each thing.

Every layout is written as atomic layouts with one orientation for each relation.
Two sets of layouts ask for the same exactly when their footprints have the same
key, the sorted texts of the footprints without repetitions.
-/

import RelationalLayout.Layout

namespace RelationalLayout

namespace GroundLayout

/-- An alignment lists its operands in the order of their names. -/
def aligned (option : BinaryOption) (separation : Separation) (first second : String) :
    GroundLayout :=
  if first ≤ second then
    .binary option separation first second
  else
    .binary option separation second first

def footprints (layout : GroundLayout) : List GroundLayout :=
  match layout with
  | .binary option separation first second =>
      match option with
      | .leftOf => [.binary .leftOf separation first second]
      | .rightOf => [.binary .leftOf separation second first]
      | .above => [.binary .above separation first second]
      | .below => [.binary .above separation second first]
      | .horizontallyAligned => [aligned .horizontallyAligned separation first second]
      | .verticallyAligned => [aligned .verticallyAligned separation first second]
      | .directlyLeftOf =>
          [.binary .leftOf separation first second,
            aligned .horizontallyAligned separation first second]
      | .directlyRightOf =>
          [.binary .leftOf separation second first,
            aligned .horizontallyAligned separation first second]
      | .directlyAbove =>
          [.binary .above separation first second,
            aligned .verticallyAligned separation first second]
      | .directlyBelow =>
          [.binary .above separation second first,
            aligned .verticallyAligned separation first second]
      | .outsideRingOf => [layout]
      | .insideRingOf => [layout]
      | .contains => [layout]
  | other => [other]

def canonicalize (layouts : List GroundLayout) : List GroundLayout :=
  layouts.flatMap footprints

end GroundLayout

abbrev FootprintKey := List String

namespace FootprintKey

def ofFootprints (footprints : List GroundLayout) : FootprintKey :=
  ((footprints.map Layout.text).mergeSort (fun left right => decide (left ≤ right))).eraseDups

def text (key : FootprintKey) : String := String.intercalate ", " key

end FootprintKey

end RelationalLayout
