/-
The shortest decimal that reads back as a given floating-point number.

For one digit, two digits and so on the two neighbours of the number on that
decimal grid are tried; the first grid with a neighbour that reads back wins.
When both neighbours do, the nearer is taken, and an exact tie is settled by
the format. Seventeen digits always suffice for a finite number; should none be
found, the exact digits are used, so nothing rests on that bound.
-/

import RelationalLayout.Decimal

namespace RelationalLayout

/-- Which neighbour is written when the number lies half-way between two. -/
inductive TieRule where
  | upward
  | toEven
deriving DecidableEq

namespace Decimal

def candidate (tie : TieRule) (readsBack : Decimal → Bool) (whole : Decimal) (count : Nat) :
    Option Decimal :=
  let dropped := whole.width - count
  let unit := powerOfTen dropped
  let grid := whole.exponent + dropped
  let lower : Decimal := { digits := whole.digits / unit, exponent := grid }
  let upper : Decimal := { digits := whole.digits / unit + 1, exponent := grid }
  let past := 2 * (whole.digits % unit)
  let upperIsNearer : Bool := match tie with
    | .upward => decide (unit ≤ past)
    | .toEven => decide (unit < past ∨ unit = past ∧ lower.digits % 2 = 1)
  match readsBack lower, readsBack upper with
  | true, true => some (if upperIsNearer then upper else lower)
  | true, false => some lower
  | false, true => some upper
  | false, false => none

/-- The shortest decimal beside `whole` that reads back, without trailing zeros. -/
def shortest (tie : TieRule) (readsBack : Decimal → Bool) (whole : Decimal) : Decimal :=
  (((List.range 17).findSome? (fun fewer => candidate tie readsBack whole (fewer + 1))).getD
    whole).trim

end Decimal

def Reading.shortest (tie : TieRule) (number : Float) : Reading :=
  match Reading.exact number with
  | .finite negative magnitude =>
      .finite negative
        (magnitude.shortest tie (fun decimal => decimal.nearest == magnitude.nearest))
  | other => other

end RelationalLayout
