import ConeLift.Matrix.Triplets

namespace ConeLift

inductive ArrayLike (α : Type) where
  | entry (x : α)
  /-- Something that is no number of the right range. -/
  | bad (why : Error)
  | list (xs : List (ArrayLike α))

namespace ArrayLike

variable {α : Type}

instance : Inhabited (ArrayLike α) := ⟨.list []⟩

def ofList (xs : List α) : ArrayLike α := .list (xs.map .entry)

mutual

def shape? : ArrayLike α → Option (List Nat)
  | .entry _ => some []
  | .bad _ => some []
  | .list xs =>
    match shapes? xs with
    | none => none
    | some [] => some [0]
    | some (s :: ss) => if ss.all (· = s) then some (xs.length :: s) else none

def shapes? : List (ArrayLike α) → Option (List (List Nat))
  | [] => some []
  | x :: xs =>
    match shape? x, shapes? xs with
    | some s, some ss => some (s :: ss)
    | _, _ => none

end

mutual

def flatten : ArrayLike α → List (Except Error α)
  | .entry x => [.ok x]
  | .bad e => [.error e]
  | .list xs => flattenAll xs

def flattenAll : List (ArrayLike α) → List (Except Error α)
  | [] => []
  | x :: xs => flatten x ++ flattenAll xs

end

theorem shapes?_entries (xs : List α) :
    shapes? (xs.map ArrayLike.entry) = some (xs.map fun _ => []) := by
  induction xs with
  | nil => simp [shapes?]
  | cons x xs ih => simp [shapes?, shape?, ih]

theorem flattenAll_entries (xs : List α) :
    flattenAll (xs.map ArrayLike.entry) = xs.map Except.ok := by
  induction xs with
  | nil => simp [flattenAll]
  | cons x xs ih => simp [flattenAll, flatten, ih]

def toVector (a : ArrayLike α) : Except Error (List α) :=
  if a.shape?.isNone then .error .unfit else Vec.allOk a.flatten

def toFlat (a : ArrayLike α) : Except Error (List α) :=
  match a.shape? with
  | none => .error .unfit
  | some [] => .error .wrongType
  | some [_] => Vec.allOk a.flatten
  | some _ => .error .unfit

def chunks (n : Nat) : Nat → List α → List (List α)
  | 0, _ => []
  | m + 1, xs => xs.take n :: chunks n m (xs.drop n)

/-- A single entry is a matrix with one entry, a flat list is one row; deeper nesting fails
with the given error. -/
def toMatrix [Scalar α] (tooDeep : Error) (a : ArrayLike α) : Except Error (RowMatrix α) :=
  let build (m n : Nat) : Except Error (RowMatrix α) := do
    let xs ← Vec.allOk a.flatten
    .ok (RowMatrix.ofDense n (chunks n m xs))
  match a.shape? with
  | none => .error .unfit
  | some [] => build 1 1
  | some [n] => build 1 n
  | some [m, n] => build m n
  | some _ => .error tooDeep

end ArrayLike

inductive MatrixLike (α : Type) where
  | nested (a : ArrayLike α)
  | triplets (numRows numCols : Int) (rows cols : List Int) (vals : ArrayLike α)
  | compressed (A : RowMatrix α)

namespace MatrixLike

variable {α : Type}

def toRows [Scalar α] : MatrixLike α → Except Error (RowMatrix α)
  | .nested a => a.toMatrix .unfit
  | .triplets m n rows cols vals => do
    let vals ← vals.toVector
    Triplets.toRows ⟨m, n, rows, cols, vals⟩
  | .compressed A => .ok A

end MatrixLike

end ConeLift
