import ConeLift.Model.Box
import ConeLift.Model.Program
import ConeLift.Model.Split
import ConeLift.Options

namespace ConeLift

/-- Minimise `cost x` subject to `matrix x ≤ bound`, `equations x = values` and bounds, with some
variables whole. A block without rows is left out. -/
structure LinearCall (α : Type) where
  cost : List α
  matrix : Option (RowMatrix α)
  bound : Option (List α)
  equations : Option (RowMatrix α)
  values : Option (List α)
  bounds : List (Option α × Option α)
  whole : Option (List Bool)
  maxIters : Int
  deriving DecidableEq

/-- Minimise `cost x` from a start point, subject to bounds, `equations x = values`,
`matrix x ≤ bound` and quadratic rows. -/
structure SmoothCall (α : Type) where
  start : List α
  columns : Bounds α
  cost : List α
  rows : SplitRows (List (List α)) α
  quadratics : List (QuadraticRow α)
  maxIters : Int
  tolerance : α
  deriving DecidableEq

inductive Call (α : Type) where
  | linear (c : LinearCall α)
  | smooth (c : SmoothCall α)
  deriving DecidableEq

inductive Note (α : Type) where
  | none
  | text (s : String)
  | int (i : Int)
  | real (x : α)
  deriving DecidableEq, Inhabited

structure Report (α : Type) where
  success : Bool
  code : Int
  note : Note α
  point : Option (List α)
  iterations : Option Rat
  lowerMarginals : Option (List α)
  upperMarginals : Option (List α)

inductive Response (α : Type) where
  | raised (e : Error)
  | returned (r : Report α)

/-- The answer to the call with the given number. -/
abbrev Solver (α : Type) := Nat → Call α → Response α

namespace Note

variable {α : Type} [Scalar α]

def orSilent : Note α → Note α
  | .none => .text ""
  | .int i => if i = 0 then .text "" else .int i
  | .real x => if Scalar.eq x 0 then .text "" else .real x
  | .text s => .text s

end Note

namespace Report

variable {α : Type}

def count (r : Report α) : Int :=
  match r.iterations with
  | none => 0
  | some q => Int.tdiv q.num q.den

end Report

structure ConstraintBlock (α : Type) where
  isEquation : Bool
  value : List α
  jacobian : List (List α)
  deriving DecidableEq

namespace SmoothCall

variable {α : Type} [Scalar α]

def objective (c : SmoothCall α) (x : List α) : α := Vec.dot c.cost x

def equationBlock (c : SmoothCall α) (x : List α) : ConstraintBlock α where
  isEquation := true
  value := List.zipWith (fun a b => Vec.dot a x - b) c.rows.equations c.rows.values
  jacobian := c.rows.equations

def inequalityBlock (c : SmoothCall α) (x : List α) : ConstraintBlock α where
  isEquation := false
  value := List.zipWith (fun a b => b - Vec.dot a x) c.rows.matrix c.rows.bound
  jacobian := c.rows.matrix.map fun r => r.map fun y => -y

def quadraticBlock (c : SmoothCall α) (x : List α) : Except Error (ConstraintBlock α) := do
  let value ← c.quadratics.mapM fun q => return q.bound - (← q.value x)
  let gradients ← c.quadratics.mapM fun q => q.gradient x
  return {
    isEquation := false
    value := value
    jacobian := gradients.map fun g => g.map fun y => -y }

def blocks (c : SmoothCall α) (x : List α) : Except Error (List (ConstraintBlock α)) := do
  if x.length ≠ c.cost.length then throw .unfit
  let quadratic ← c.quadraticBlock x
  return (if c.rows.equations.isEmpty then [] else [c.equationBlock x]) ++
    (if c.rows.matrix.isEmpty then [] else [c.inequalityBlock x]) ++ [quadratic]

end SmoothCall

namespace Program

variable {α : Type} [Scalar α]

def signedCost (p : Program α) : List α := p.cost.map p.sense.signed

def linearCall (p : Program α) (o : Options α) : Except Error (LinearCall α) := do
  let rows ← SplitRows.sparse p.matrix p.rows
  let whole := p.types.map VarType.isIntegral
  return {
    cost := p.signedCost
    matrix := if rows.matrix.numRows = 0 then none else some rows.matrix
    bound := if rows.bound.isEmpty then none else some rows.bound
    equations := if rows.equations.numRows = 0 then none else some rows.equations
    values := if rows.values.isEmpty then none else some rows.values
    bounds := p.columns.sides p.types
    whole := if whole.any id then some whole else none
    maxIters := o.maxIters }

def smoothCall (p : Program α) (o : Options α) (columns : Bounds α) :
    Except Error (SmoothCall α) := do
  let rows ← SplitRows.dense p.matrix.toDense p.rows
  return {
    start := List.zipWith (Scalar.clamp 1) columns.lower columns.upper
    columns := columns
    cost := p.signedCost
    rows := rows
    quadratics := p.quadratics
    maxIters := o.maxIters
    tolerance := o.tolerance }

end Program

end ConeLift
