import ConeLift.Cone
import ConeLift.Matrix.Triplets

/-!
Conic problems: minimise `c x` subject to `b - A x` in the constraint cones and `x` in the
variable cones. The indices of a constraint cone are rows of `A`, those of a variable cone are
columns.
-/

namespace ConeLift

structure Problem (α : Type) where
  name : String
  cost : List α
  matrix : Triplets α
  rightHand : List α
  constraintCones : List Cone
  variableCones : List Cone
  deriving DecidableEq, Inhabited

namespace Problem

variable {α : Type}

def inconsistency? (P : Problem α) : Option Inconsistency :=
  if (P.cost.length : Int) ≠ P.matrix.numCols then
    some (.objectiveLength P.cost.length P.matrix.numCols)
  else if (P.rightHand.length : Int) ≠ P.matrix.numRows then
    some (.rightHandLength P.rightHand.length P.matrix.numRows)
  else none

end Problem

end ConeLift
