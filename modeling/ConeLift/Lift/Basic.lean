import ConeLift.ArrayLike
import ConeLift.Lift.Assembly
import ConeLift.Lift.Bounds
import ConeLift.Lift.Quadratic
import ConeLift.Problem

/-!
The lift of a conic problem to a linear model with quadratic rows. Linear cones become bounds;
every row of a second-order cone gets an auxiliary column `y = b - a x`, and the cone becomes a
quadratic row over its columns with a lower bound on the leading one.
-/

namespace ConeLift

/-- Minimise `cost x` subject to bounds on the columns, bounds on the rows of the matrix, and
quadratic rows. The last `numAux` columns are auxiliary; the first `numLinear` rows come from
linear cones. -/
structure Lifted (α : Type) where
  cost : List α
  columns : Bounds α
  matrix : RowMatrix α
  rows : Bounds α
  numOrig : Nat
  numAux : Nat
  numLinear : Nat
  quadratics : List (QuadraticRow α)
  deriving DecidableEq, Inhabited

structure ConicData (α : Type) where
  cost : ArrayLike α
  matrix : MatrixLike α
  rightHand : ArrayLike α
  constraintCones : List Cone
  variableCones : List Cone

structure Numbers (α : Type) where
  cost : List α
  matrix : RowMatrix α
  rightHand : List α
  deriving DecidableEq, Inhabited

namespace Lifted

variable {α : Type} [Scalar α]

def numVar (p : Lifted α) : Nat := p.numOrig + p.numAux

def numConstr (p : Lifted α) : Nat := p.matrix.numRows

def checkKinds (constraintCones variableCones : List Cone) : Except Error Unit :=
  match (constraintCones ++ variableCones).find? fun k => !k.kind.supported with
  | some k => .error (.unsupported k.kind)
  | none => .ok ()

def readNumbers (d : ConicData α) : Except Error (Numbers α) := do
  let cost ← d.cost.toVector
  let rightHand ← d.rightHand.toVector
  let matrix ← d.matrix.toRows
  .ok { cost, matrix, rightHand }

def ofNumbers (n : Numbers α) (constraintCones variableCones : List Cone) :
    Except Error (Lifted α) := do
  let numOrig := n.cost.length
  if ¬ (n.matrix.numRows = n.rightHand.length ∧ n.matrix.numCols = numOrig) then
    throw (.shapeMismatch n.matrix.numRows n.matrix.numCols numOrig n.rightHand.length)
  let parts := Partition.ofCones constraintCones
  let linear := parts.linear.map fun r => ((r.1 : Int), r.2)
  let secondOrder := parts.secondOrder.map fun i : Nat => (i : Int)
  let columns ← Bounds.ofVariables variableCones constraintCones numOrig parts.numAux
  let rows ← Bounds.ofRows linear n.rightHand
  let fixed ← Vec.gather n.rightHand secondOrder
  let matrix ← assemble n.matrix (linear.map (·.1)) secondOrder parts.numAux
  return {
    cost := n.cost ++ List.replicate parts.numAux 0
    columns := columns
    matrix := matrix
    rows := ⟨rows.lower ++ fixed, rows.upper ++ fixed⟩
    numOrig := numOrig
    numAux := parts.numAux
    numLinear := linear.length
    quadratics := coneQuadratics variableCones constraintCones numOrig }

/-- Unsupported kinds are reported before the numbers are looked at. -/
def build (d : ConicData α) : Except Error (Lifted α) := do
  checkKinds d.constraintCones d.variableCones
  let n ← readNumbers d
  ofNumbers n d.constraintCones d.variableCones

end Lifted

namespace Problem

variable {α : Type}

def toData [Scalar α] (P : Problem α) : Except Error (ConicData α) := do
  let A ← P.matrix.toRows
  return {
    cost := .ofList P.cost
    matrix := .compressed A
    rightHand := .ofList P.rightHand
    constraintCones := P.constraintCones
    variableCones := P.variableCones }

end Problem

end ConeLift
