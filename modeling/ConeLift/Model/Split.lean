import ConeLift.Lift.Bounds
import ConeLift.Matrix.Compressed

/-!
Rows `lower ≤ a x ≤ upper` as equations and one-sided inequalities. A row whose two bounds are
finite and equal is an equation; apart from those, every finite upper bound is an inequality
`a x ≤ upper` and every finite lower bound an inequality `-a x ≤ -lower`.
-/

namespace ConeLift

variable {α : Type} [Scalar α]

structure RowClasses where
  equal : List Nat
  above : List Nat
  below : List Nat
  deriving DecidableEq, Repr

namespace RowClasses

def isEqual (lo hi : α) : Bool :=
  Scalar.isFinite lo && Scalar.isFinite hi && Scalar.eq lo hi

def ofBounds (B : Bounds α) : Except Error RowClasses := do
  let equal ← Vec.zip isEqual B.lower B.upper
  let above ← Vec.zip (fun hi e => Scalar.isFinite hi && !e) B.upper equal
  let below ← Vec.zip (fun lo e => Scalar.isFinite lo && !e) B.lower equal
  return ⟨Vec.positions equal, Vec.positions above, Vec.positions below⟩

end RowClasses

def indices (ks : List Nat) : List Int := ks.map fun k : Nat => (k : Int)

structure SplitRows (μ α : Type) where
  matrix : μ
  bound : List α
  equations : μ
  values : List α
  deriving DecidableEq

namespace SplitRows

def rightHand (B : Bounds α) (k : RowClasses) : Except Error (List α) := do
  let hi ← Vec.gather B.upper (indices k.above)
  let lo ← Vec.gather B.lower (indices k.below)
  return hi ++ lo.map fun x => -x

def signs (k : RowClasses) : List α :=
  List.replicate k.above.length 1 ++ List.replicate k.below.length (-1)

def sparse (A : RowMatrix α) (B : Bounds α) : Except Error (SplitRows (RowMatrix α) α) := do
  let k ← RowClasses.ofBounds B
  let picked ← A.select (indices (k.above ++ k.below))
  let bound ← rightHand B k
  let equations ← A.select (indices k.equal)
  let values ← Vec.gather B.lower (indices k.equal)
  return { matrix := ((Compressed.ofRows picked).scaleRows (signs k)).toRows, bound, equations,
           values }

def dense (A : List (List α)) (B : Bounds α) : Except Error (SplitRows (List (List α)) α) := do
  let k ← RowClasses.ofBounds B
  let equations ← Vec.gather A (indices k.equal)
  let values ← Vec.gather B.lower (indices k.equal)
  let above ← Vec.gather A (indices k.above)
  let below ← Vec.gather A (indices k.below)
  let bound ← rightHand B k
  return { matrix := above ++ below.map fun r => r.map fun x => -x, bound, equations, values }

end SplitRows

end ConeLift
