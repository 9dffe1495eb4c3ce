namespace ConeLift

inductive Kind where
  | free
  | zero
  | nonneg
  | nonpos
  | secondOrder
  | rotatedSecondOrder
  | semidefinite
  | exponential
  | dualExponential
  deriving DecidableEq, Repr, Inhabited

namespace Kind

def all : List Kind :=
  [free, zero, nonneg, nonpos, secondOrder, rotatedSecondOrder, semidefinite, exponential,
    dualExponential]

def name : Kind → String
  | free => "Free"
  | zero => "Zero"
  | nonneg => "NonNeg"
  | nonpos => "NonPos"
  | secondOrder => "SOC"
  | rotatedSecondOrder => "SOCRotated"
  | semidefinite => "SDP"
  | exponential => "ExpPrimal"
  | dualExponential => "ExpDual"

def ofName? (s : String) : Option Kind := all.find? (·.name = s)

theorem ofName?_name (k : Kind) : ofName? k.name = some k := by
  cases k <;> decide

def supported : Kind → Bool
  | free | zero | nonneg | nonpos | secondOrder => true
  | _ => false

/-- Whether the kind puts a lower bound on the linear expression of a row `b - a x`, that is a
lower bound `b` on `a x`. -/
def boundsBelow : Kind → Bool
  | zero | nonpos => true
  | _ => false

def boundsAbove : Kind → Bool
  | zero | nonneg => true
  | _ => false

end Kind

/-- The order of the indices matters: the first one leads a second-order cone. -/
structure Cone where
  kind : Kind
  indices : List Nat
  deriving DecidableEq, Repr, Inhabited

namespace Cone

def size (k : Cone) : Nat := k.indices.length

def isSecondOrder (k : Cone) : Bool := k.kind = .secondOrder

def supportedNames : List String := (Kind.all.filter Kind.supported).map Kind.name

end Cone

end ConeLift
