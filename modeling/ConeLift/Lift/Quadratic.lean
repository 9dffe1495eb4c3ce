import ConeLift.Cone
import ConeLift.Vec

namespace ConeLift

structure QuadraticRow (α : Type) where
  linearIndex : List Int
  linearCoef : List α
  rowIndex : List Int
  colIndex : List Int
  coef : List α
  bound : α
  deriving DecidableEq, Inhabited

namespace QuadraticRow

variable {α : Type} [Scalar α]

def value (q : QuadraticRow α) (x : List α) : Except Error α := do
  let xs ← Vec.gather x q.linearIndex
  if q.linearCoef.length ≠ xs.length then .error .unfit
  let rs ← Vec.gather x q.rowIndex
  let half ← Vec.zip (· * ·) q.coef rs
  let cs ← Vec.gather x q.colIndex
  let products ← Vec.zip (· * ·) half cs
  .ok (Vec.dot q.linearCoef xs + Vec.sum products)

def scatter (grad : List α) (is : List Int) (vs : List α) : Except Error (List α) := do
  let ks ← is.mapM (Vec.position grad.length)
  let vs ← match vs with
    | [v] => .ok (List.replicate ks.length v)
    | vs => if vs.length = ks.length then .ok vs else .error .unfit
  .ok ((ks.zip vs).foldl (fun g e => g.set e.1 (g.getD e.1 0 + e.2)) grad)

def gradient (q : QuadraticRow α) (x : List α) : Except Error (List α) := do
  let g ← scatter (List.replicate x.length 0) q.linearIndex q.linearCoef
  let cs ← Vec.gather x q.colIndex
  let byRow ← Vec.zip (· * ·) q.coef cs
  let g ← scatter g q.rowIndex byRow
  let rs ← Vec.gather x q.rowIndex
  let byCol ← Vec.zip (· * ·) q.coef rs
  scatter g q.colIndex byCol

def checkIndices (q : QuadraticRow α) : Except Error Unit :=
  if (q.linearIndex ++ q.rowIndex ++ q.colIndex).all Vec.isIndex then .ok () else .error .tooLarge

def relation : String := "<="

/-- `-t^2 + y_1^2 + ... ≤ 0` for the columns `t, y_1, ...`. -/
def ofCone (columns : List Int) : QuadraticRow α where
  linearIndex := []
  linearCoef := []
  rowIndex := columns
  colIndex := columns
  coef := -1 :: List.replicate (columns.length - 1) 1
  bound := 0

end QuadraticRow

def columnsFrom (first : Int) (count : Nat) : List Int :=
  (List.range count).map fun k : Nat => first + (k : Int)

def auxiliaryQuadratics {α : Type} [Scalar α] : Int → List Cone → List (QuadraticRow α)
  | _, [] => []
  | first, k :: ks =>
    if k.isSecondOrder && !k.indices.isEmpty then
      .ofCone (columnsFrom first k.size) :: auxiliaryQuadratics (first + k.size) ks
    else auxiliaryQuadratics first ks

def coneQuadratics {α : Type} [Scalar α] (variableCones constraintCones : List Cone)
    (numOrig : Int) : List (QuadraticRow α) :=
  ((variableCones.filter fun k => k.isSecondOrder && !k.indices.isEmpty).map fun k =>
    .ofCone (k.indices.map fun i : Nat => (i : Int))) ++
  auxiliaryQuadratics numOrig constraintCones

end ConeLift
