import ConeLift.Vec

/-!
Matrices by rows. A row lists its stored entries as pairs of a column and a value; an entry may
be stored with the value zero, and a column may be stored more than once, in which case the values
add up.
-/

namespace ConeLift

structure RowMatrix (α : Type) where
  numCols : Nat
  rows : List (List (Nat × α))
  deriving Inhabited, DecidableEq

namespace RowMatrix

variable {α : Type}

def numRows (A : RowMatrix α) : Nat := A.rows.length

def rowEntry [Scalar α] (row : List (Nat × α)) (j : Nat) : α :=
  Vec.sum ((row.filter (·.1 = j)).map (·.2))

def denseRow [Scalar α] (numCols : Nat) (row : List (Nat × α)) : List α :=
  (List.range numCols).map (rowEntry row)

def toDense [Scalar α] (A : RowMatrix α) : List (List α) := A.rows.map (denseRow A.numCols)

def rowDot [Scalar α] (row : List (Nat × α)) (x : List α) : α :=
  Vec.sum (row.map fun e => e.2 * x.getD e.1 0)

def mulVec [Scalar α] (A : RowMatrix α) (x : List α) : List α := A.rows.map (rowDot · x)

def isZero [Scalar α] (x : α) : Bool := Scalar.eq x 0

def ofDenseRow [Scalar α] (row : List α) : List (Nat × α) :=
  ((List.range row.length).zip row).filter fun e => !isZero e.2

def ofDense [Scalar α] (numCols : Nat) (rows : List (List α)) : RowMatrix α :=
  ⟨numCols, rows.map ofDenseRow⟩

def select (A : RowMatrix α) (is : List Int) : Except Error (RowMatrix α) :=
  if !is.all (Vec.canIndex A.rows.length) then .error .tooLarge
  else
    match is.mapM (Vec.fetch A.rows) with
    | .ok rows => .ok ⟨A.numCols, rows⟩
    | .error _ => .error .noSuchIndex

def widen (A : RowMatrix α) (extra : Nat) : RowMatrix α := ⟨A.numCols + extra, A.rows⟩

def besideIdentity [Scalar α] (A : RowMatrix α) : RowMatrix α :=
  ⟨A.numCols + A.numRows,
    (A.rows.zip (List.range A.numRows)).map fun p => p.1 ++ [(A.numCols + p.2, 1)]⟩

def above (A B : RowMatrix α) : RowMatrix α := ⟨A.numCols, A.rows ++ B.rows⟩

def negRow [Scalar α] (row : List (Nat × α)) : List (Nat × α) := row.map fun e => (e.1, -e.2)

@[simp] theorem numCols_widen (A : RowMatrix α) (k : Nat) :
    (A.widen k).numCols = A.numCols + k := rfl

@[simp] theorem numRows_widen (A : RowMatrix α) (k : Nat) : (A.widen k).numRows = A.numRows := rfl

@[simp] theorem numRows_above (A B : RowMatrix α) :
    (A.above B).numRows = A.numRows + B.numRows := by simp [above, numRows]

@[simp] theorem numRows_besideIdentity [Scalar α] (A : RowMatrix α) :
    A.besideIdentity.numRows = A.numRows := by simp [besideIdentity, numRows]

theorem length_toDense [Scalar α] (A : RowMatrix α) : A.toDense.length = A.numRows := by
  simp [toDense, numRows]

end RowMatrix

end ConeLift
