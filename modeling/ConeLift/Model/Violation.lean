import ConeLift.Model.Program

namespace ConeLift.Program

variable {α : Type} [Scalar α]

/-- The greatest excess, at least zero; undefined as soon as one of them is. -/
def worst (excesses : List α) : α := excesses.foldl Scalar.strictMax 0

def excesses (p : Program α) (x : List α) : Except Error (List α) := do
  if x.length ≠ p.matrix.numCols then throw .unfit
  let ax := p.matrix.mulVec x
  let quadratic ← p.quadratics.mapM fun q => return (← q.value x) - q.bound
  return [worst (List.zipWith (· - ·) p.columns.lower x),
    worst (List.zipWith (· - ·) x p.columns.upper),
    worst (List.zipWith (· - ·) p.rows.lower ax),
    worst (List.zipWith (· - ·) ax p.rows.upper)] ++ quadratic

/-- The first of the greatest values: an undefined value counts only in front. -/
def leading : List α → α
  | [] => 0
  | x :: xs => xs.foldl Scalar.firstMax x

def violation (p : Program α) (x : Option (List α)) : Except Error α :=
  match x with
  | none => .ok Scalar.infinity
  | some x =>
    if x.all Scalar.isFinite then (p.excesses x).map leading else .ok Scalar.infinity

end ConeLift.Program
