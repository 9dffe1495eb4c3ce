import ConeLift.Lift.Partition
import ConeLift.Vec

namespace ConeLift

variable {α : Type} [Scalar α]

structure Bounds (α : Type) where
  lower : List α
  upper : List α
  deriving DecidableEq, Inhabited

namespace Bounds

def lowerOf (k : Kind) : α := if k = .free ∨ k = .nonpos then -Scalar.infinity else 0

def upperOf (k : Kind) : α := if k = .free ∨ k = .nonneg then Scalar.infinity else 0

def setBoth (B : Bounds α) (k : Kind) (i : Nat) : Except Error (Bounds α) := do
  let lower ← Vec.replace B.lower i (lowerOf k)
  let upper ← Vec.replace B.upper i (upperOf k)
  .ok ⟨lower, upper⟩

def setLower (B : Bounds α) (i : Int) (x : α) : Except Error (Bounds α) := do
  let lower ← Vec.replace B.lower i x
  .ok { B with lower }

/-- A second-order cone bounds only its leading variable, which is the first one listed. -/
def applyCone (B : Bounds α) (k : Cone) : Except Error (Bounds α) :=
  if k.isSecondOrder then
    match k.indices with
    | [] => .ok B
    | i :: _ => B.setLower i 0
  else k.indices.foldlM (fun B i => B.setBoth k.kind i) B

def applyAuxiliary (B : Bounds α) : Int → List Cone → Except Error (Bounds α)
  | _, [] => .ok B
  | first, k :: ks =>
    if k.isSecondOrder && !k.indices.isEmpty then do
      let B ← B.setLower first 0
      applyAuxiliary B (first + k.size) ks
    else applyAuxiliary B first ks

/-- Bounds of all columns: a later cone overrides an earlier one. -/
def ofVariables (variableCones constraintCones : List Cone) (numOrig numAux : Int) :
    Except Error (Bounds α) := do
  let total := numOrig + numAux
  if total < 0 then .error .unfit
  let open' : Bounds α :=
    ⟨List.replicate total.toNat (-Scalar.infinity), List.replicate total.toNat Scalar.infinity⟩
  let B ← variableCones.foldlM applyCone open'
  B.applyAuxiliary numOrig constraintCones

def ofRow (k : Kind) (b : Except Error α) : Except Error (α × α) := do
  let lo ← if k.boundsBelow then b else .ok (-Scalar.infinity)
  let hi ← if k.boundsAbove then b else .ok Scalar.infinity
  .ok (lo, hi)

def ofRows (rows : List (Int × Kind)) (b : List α) : Except Error (Bounds α) := do
  let pairs ← rows.mapM fun r => ofRow r.2 (Vec.fetch b r.1)
  .ok ⟨pairs.map (·.1), pairs.map (·.2)⟩

def ofNamedRows (rows : List Int) (names : List String) (b : List α) :
    Except Error (Bounds α) :=
  ofRows (rows.zip (names.map fun s => (Kind.ofName? s).getD .free)) b

end Bounds

end ConeLift
