import ConeLift.Matrix.Rows

namespace ConeLift

structure Triplets (α : Type) where
  numRows : Int
  numCols : Int
  rows : List Int
  cols : List Int
  vals : List α
  deriving Inhabited, DecidableEq

namespace Triplets

variable {α : Type}

def inconsistency? (T : Triplets α) : Option Inconsistency :=
  if ¬ (T.rows.length = T.cols.length ∧ T.cols.length = T.vals.length) then some .tripletLengths
  else if T.rows.any (fun r => r < 0 || T.numRows ≤ r) ||
      T.cols.any (fun j => j < 0 || T.numCols ≤ j) then
    some (.entryOutside T.numRows T.numCols)
  else none

def entries (T : Triplets α) : List (Int × Int × α) := T.rows.zip (T.cols.zip T.vals)

def insert [Scalar α] : List (Nat × α) → Nat × α → List (Nat × α)
  | [], e => [e]
  | f :: row, e =>
    if e.1 < f.1 then e :: f :: row
    else if e.1 = f.1 then (f.1, f.2 + e.2) :: row
    else f :: insert row e

/-- The sorted row `i`: numbers at one place are added, in the order in which they are listed. -/
def row [Scalar α] (T : Triplets α) (i : Nat) : List (Nat × α) :=
  ((T.entries.filter fun e => e.1 = (i : Int)).map fun e => (e.2.1.toNat, e.2.2)).foldl insert []

def toRows [Scalar α] (T : Triplets α) : Except Error (RowMatrix α) :=
  if T.numRows < 0 ∨ T.numCols < 0 ∨ T.inconsistency?.isSome then .error .unfit
  else .ok ⟨T.numCols.toNat, (List.range T.numRows.toNat).map T.row⟩

/-- Row by row, in the order of storage; zeros that are stored stay. -/
def ofRows (A : RowMatrix α) : Triplets α :=
  let entries := (A.rows.zip (List.range A.numRows)).flatMap fun p => p.1.map fun e => (p.2, e)
  { numRows := A.numRows
    numCols := A.numCols
    rows := entries.map fun e => (e.1 : Int)
    cols := entries.map fun e => (e.2.1 : Int)
    vals := entries.map fun e => e.2.2 }

end Triplets

end ConeLift
