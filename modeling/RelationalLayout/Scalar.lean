/-
Numbers that scores are computed in.

Scores use the four operations, an exponential and its logarithm. They are stated
for any such numbers: floating-point numbers when the program runs, and others
wherever exact laws are wanted.
-/

namespace RelationalLayout

class Scalar (α : Type) extends Add α, Sub α, Mul α, Div α, Neg α where
  ofNat : Nat → α
  exp : α → α
  log : α → α
  exceeds : α → α → Bool

def Scalar.zero {α : Type} [Scalar α] : α := Scalar.ofNat 0

def Scalar.one {α : Type} [Scalar α] : α := Scalar.ofNat 1

def Scalar.isNegative {α : Type} [Scalar α] (value : α) : Bool := exceeds zero value

instance : Scalar Float where
  ofNat := Float.ofNat
  exp := Float.exp
  log := Float.log
  exceeds left right := decide (right < left)

end RelationalLayout
