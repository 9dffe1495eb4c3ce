import ConeLift.Lift.Bounds
import ConeLift.Status

namespace ConeLift

variable {α : Type} [Scalar α]

namespace Bounds

/-- The bounds of one variable. A binary variable is cut down to the unit interval; sides that are
infinite in their own direction are left out. -/
def side (t : VarType) (lo hi : α) : Option α × Option α :=
  let lo := if t = .binary then Scalar.firstMax lo 0 else lo
  let hi := if t = .binary then Scalar.firstMin hi 1 else hi
  (if Scalar.isNegInfinity lo then none else some lo,
    if Scalar.isInfinity hi then none else some hi)

def sides (B : Bounds α) (types : List VarType) : List (Option α × Option α) :=
  List.zipWith (fun b t => side t b.1 b.2) (B.lower.zip B.upper) types

def namedSides (B : Bounds α) (types : List String) : List (Option α × Option α) :=
  B.sides (types.map fun s => (VarType.ofText? s).getD .continuous)

def boxLower (limit lo hi : α) : α :=
  if Scalar.isFinite lo then lo else (if Scalar.isFinite hi then hi else 0) - limit

def boxUpper (limit lo hi : α) : α :=
  if Scalar.isFinite hi then hi else (if Scalar.isFinite lo then lo else 0) + limit

def box (B : Bounds α) (limit : α) : Except Error (Bounds α) := do
  let lower ← Vec.zip (boxLower limit) B.lower B.upper
  let upper ← Vec.zip (boxUpper limit) B.lower B.upper
  return ⟨lower, upper⟩

end Bounds

end ConeLift
