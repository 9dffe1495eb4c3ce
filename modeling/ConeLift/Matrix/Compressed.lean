import ConeLift.Matrix.Rows

namespace ConeLift

structure Compressed (α : Type) where
  numCols : Nat
  pointers : List Nat
  columns : List Nat
  values : List α
  deriving Inhabited, DecidableEq

namespace Compressed

variable {α β : Type}

def pointersFrom (start : Nat) : List Nat → List Nat
  | [] => [start]
  | n :: counts => start :: pointersFrom (start + n) counts

def differences (pointers : List Nat) : List Nat :=
  List.zipWith (fun start stop => stop - start) pointers pointers.tail

def repeated (factors : List β) (counts : List Nat) : List β :=
  (List.zipWith List.replicate counts factors).flatten

def pieces : List Nat → List β → List (List β)
  | [], _ => []
  | n :: counts, xs => xs.take n :: pieces counts (xs.drop n)

def ofRows (A : RowMatrix α) : Compressed α where
  numCols := A.numCols
  pointers := pointersFrom 0 (A.rows.map List.length)
  columns := A.rows.flatten.map (·.1)
  values := A.rows.flatten.map (·.2)

def counts (M : Compressed α) : List Nat := differences M.pointers

def toRows (M : Compressed α) : RowMatrix α :=
  ⟨M.numCols, pieces M.counts (M.columns.zip M.values)⟩

def identity [Scalar α] (n : Nat) : Compressed α where
  numCols := n
  pointers := List.range (n + 1)
  columns := List.range n
  values := List.replicate n 1

def widen (M : Compressed α) (extra : Nat) : Compressed α :=
  { M with numCols := M.numCols + extra }

def beside (M N : Compressed α) : Compressed α where
  numCols := M.numCols + N.numCols
  pointers := pointersFrom 0 (List.zipWith (· + ·) M.counts N.counts)
  columns := (List.zipWith (· ++ ·) (pieces M.counts M.columns)
    (pieces N.counts (N.columns.map (M.numCols + ·)))).flatten
  values := (List.zipWith (· ++ ·) (pieces M.counts M.values) (pieces N.counts N.values)).flatten

def above (M N : Compressed α) : Compressed α where
  numCols := M.numCols
  pointers := M.pointers ++ N.pointers.tail.map (M.values.length + ·)
  columns := M.columns ++ N.columns
  values := M.values ++ N.values

def scaleRows [Scalar α] (M : Compressed α) (factors : List α) : Compressed α :=
  { M with values := List.zipWith (· * ·) M.values (repeated factors M.counts) }

end Compressed

end ConeLift
