import ConeLift.Matrix.Compressed

namespace ConeLift

variable {α : Type} [Scalar α]

/-- Fails when a row is missing or when there are not as many auxiliary columns as rows that need
one. -/
def assemble (A : RowMatrix α) (linear secondOrder : List Int) (numAux : Int) :
    Except Error (RowMatrix α) := do
  let top ← A.select linear
  if numAux = 0 then return top
  if A.numCols + numAux < 0 then throw .unfit
  let bottom ← A.select secondOrder
  if bottom.numRows ≠ numAux then throw .unfit
  let auxiliary := (Compressed.ofRows bottom).beside (.identity bottom.numRows)
  if linear.isEmpty then return auxiliary.toRows
  return (((Compressed.ofRows top).widen numAux.toNat).above auxiliary).toRows

end ConeLift
