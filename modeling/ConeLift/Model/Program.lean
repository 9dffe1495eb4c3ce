import ConeLift.ArrayLike
import ConeLift.Lift.Basic
import ConeLift.Status

namespace ConeLift

inductive Sense where
  | minimize
  | maximize
  deriving DecidableEq, Repr, Inhabited

namespace Sense

def text : Sense → String
  | minimize => "min"
  | maximize => "max"

def ofText? (s : String) : Option Sense := [minimize, maximize].find? (·.text = s)

def signed {α : Type} [Scalar α] : Sense → α → α
  | minimize, x => x
  | maximize, x => -x

end Sense

structure LinearModel (α : Type) where
  matrix : RowMatrix α
  columns : Bounds α
  cost : List α
  rows : Bounds α
  deriving DecidableEq, Inhabited

structure LinearData (α : Type) where
  matrix : MatrixLike α
  lower : ArrayLike α
  upper : ArrayLike α
  cost : ArrayLike α
  rowLower : ArrayLike α
  rowUpper : ArrayLike α

/-- A quadratic row whose coefficients and bound still have to be read. -/
abbrev QuadraticData (α : Type) := QuadraticRow (Except Error α)

structure Program (α : Type) extends LinearModel α where
  sense : Sense
  quadratics : List (QuadraticRow α)
  types : List VarType
  deriving DecidableEq, Inhabited

namespace LinearModel

variable {α : Type} [Scalar α]

def numVar (m : LinearModel α) : Nat := m.cost.length

def numConstr (m : LinearModel α) : Nat := m.matrix.numRows

/-- The order of the checks is columns, rows, crossed bounds; an undefined bound crosses nothing. -/
def check (m : LinearModel α) : Except Error Unit :=
  let n := m.cost.length
  if ¬ (m.matrix.numCols = n ∧ m.columns.lower.length = n ∧ m.columns.upper.length = n) then
    .error (.columnMismatch m.matrix.numCols n)
  else if ¬ (m.rows.lower.length = m.matrix.numRows ∧
      m.rows.upper.length = m.matrix.numRows) then
    .error (.rowMismatch m.matrix.numRows)
  else if (List.zipWith (fun l u => Scalar.lt u l) m.columns.lower m.columns.upper).any id then
    .error .crossedBounds
  else .ok ()

def ofData (d : LinearData α) : Except Error (LinearModel α) := do
  let matrix ← d.matrix.toRows
  let cost ← d.cost.toVector
  let lower ← d.lower.toVector
  let upper ← d.upper.toVector
  let rowLower ← d.rowLower.toVector
  let rowUpper ← d.rowUpper.toVector
  return { matrix, cost, columns := ⟨lower, upper⟩, rows := ⟨rowLower, rowUpper⟩ }

end LinearModel

namespace QuadraticRow

variable {α : Type}

def ready (q : QuadraticRow α) : QuadraticData α where
  linearIndex := q.linearIndex
  linearCoef := q.linearCoef.map .ok
  rowIndex := q.rowIndex
  colIndex := q.colIndex
  coef := q.coef.map .ok
  bound := .ok q.bound

def ofData (d : QuadraticData α) : Except Error (QuadraticRow α) := do
  let linearCoef ← Vec.allOk d.linearCoef
  let coef ← Vec.allOk d.coef
  let bound ← d.bound
  return ⟨d.linearIndex, linearCoef, d.rowIndex, d.colIndex, coef, bound⟩

@[simp] theorem ofData_ready (q : QuadraticRow α) : ofData q.ready = .ok q := by
  simp only [ofData, ready, Vec.allOk_map_ok]
  rfl

end QuadraticRow

def Lifted.toLinear {α : Type} (p : Lifted α) : LinearModel α where
  matrix := p.matrix
  columns := p.columns
  cost := p.cost
  rows := p.rows

namespace Program

variable {α : Type} [Scalar α]

def ofLinear (m : LinearModel α) (sense : Sense) : Except Error (Program α) := do
  m.check
  return { m with sense, quadratics := [], types := List.replicate m.cost.length .continuous }

def ofData (d : LinearData α) (sense : String) : Except Error (Program α) := do
  match Sense.ofText? sense with
  | none => throw (.unknownSense sense)
  | some sense => ofLinear (← LinearModel.ofData d) sense

def checkQuadratic {β : Type} (n : Nat) (q : QuadraticRow β) (relation : String) :
    Except Error Unit :=
  if relation ≠ QuadraticRow.relation then .error (.quadraticSense relation)
  else if q.linearIndex.length ≠ q.linearCoef.length then .error .linearLengths
  else if ¬ (q.rowIndex.length = q.colIndex.length ∧ q.colIndex.length = q.coef.length) then
    .error .quadraticLengths
  else
    match (q.linearIndex ++ q.rowIndex ++ q.colIndex).find? fun i => i < 0 || (n : Int) ≤ i with
    | some i => .error (.noSuchVariable i n)
    | none => .ok ()

theorem checkQuadratic_ready {β : Type} (n : Nat) (q : QuadraticRow β) (relation : String) :
    checkQuadratic n q.ready relation = checkQuadratic n q relation := by
  simp only [checkQuadratic, QuadraticRow.ready, List.length_map]

def addQuadratic (p : Program α) (d : QuadraticData α) (relation : String) :
    Except Error (Program α) := do
  checkQuadratic p.cost.length d relation
  let q ← QuadraticRow.ofData d
  return { p with quadratics := p.quadratics ++ [q] }

omit [Scalar α] in
theorem addQuadratic_ready (p : Program α) (q : QuadraticRow α) (relation : String) :
    p.addQuadratic q.ready relation =
      (checkQuadratic p.cost.length q relation).map fun _ =>
        { p with quadratics := p.quadratics ++ [q] } := by
  rw [addQuadratic, checkQuadratic_ready, QuadraticRow.ofData_ready]
  cases checkQuadratic p.cost.length q relation <;> rfl

def readTypes (n : Nat) (texts : List String) : Except Error (List VarType) :=
  if texts.length ≠ n then .error (.typeCount n texts.length)
  else texts.mapM fun s =>
    match VarType.ofText? s with
    | some t => .ok t
    | none => .error (.unknownType s)

end Program

end ConeLift
