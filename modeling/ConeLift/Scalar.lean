/-!
Numbers of a model. Everything that only adds, multiplies and compares is written once over
`Scalar`, so that the same definitions run on machine numbers and can be reasoned about on exact
ones (`ConeLift.Scalar.Extended`).
-/

namespace ConeLift

/-- Finite values, two infinities and an undefined value that compares with nothing. -/
class Scalar (α : Type) extends Zero α, One α, Add α, Sub α, Mul α, Neg α where
  infinity : α
  undefined : α
  decimal : Nat → Nat → α
  lt : α → α → Bool
  le : α → α → Bool
  eq : α → α → Bool
  isFinite : α → Bool
  isUndefined : α → Bool

namespace Scalar

variable {α : Type} [Scalar α]

def isInfinity (x : α) : Bool := eq x infinity

def isNegInfinity (x : α) : Bool := eq x (-infinity)

/-- The first value unless the second is greater; an undefined second value is passed over. -/
def firstMax (x y : α) : α := if lt x y then y else x

def firstMin (x y : α) : α := if lt y x then y else x

/-- The greater value, undefined as soon as one of the two is. -/
def strictMax (x y : α) : α :=
  if isUndefined x || isUndefined y then undefined else firstMax x y

def strictMin (x y : α) : α :=
  if isUndefined x || isUndefined y then undefined else firstMin x y

def clamp (x lo hi : α) : α := strictMin (strictMax x lo) hi

end Scalar

instance : Scalar Float where
  zero := 0.0
  one := 1.0
  infinity := 1.0 / 0.0
  undefined := 0.0 / 0.0
  decimal m e := Float.ofScientific m true e
  lt x y := decide (x < y)
  le x y := decide (x ≤ y)
  eq x y := x == y
  isFinite := Float.isFinite
  isUndefined := Float.isNaN

end ConeLift
