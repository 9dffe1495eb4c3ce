import ConeLift.Scalar

namespace ConeLift

inductive Extended where
  | finite (q : Rat)
  | infinity
  | negInfinity
  | undefined
  deriving DecidableEq, Inhabited

namespace Extended

def neg : Extended → Extended
  | .finite q => .finite (-q)
  | .infinity => .negInfinity
  | .negInfinity => .infinity
  | .undefined => .undefined

def add : Extended → Extended → Extended
  | .undefined, _ => .undefined
  | _, .undefined => .undefined
  | .infinity, .negInfinity => .undefined
  | .negInfinity, .infinity => .undefined
  | .infinity, _ => .infinity
  | _, .infinity => .infinity
  | .negInfinity, _ => .negInfinity
  | _, .negInfinity => .negInfinity
  | .finite p, .finite q => .finite (p + q)

def scaleInfinity (q : Rat) : Extended :=
  if q = 0 then .undefined else if 0 < q then .infinity else .negInfinity

def mul : Extended → Extended → Extended
  | .undefined, _ => .undefined
  | _, .undefined => .undefined
  | .finite p, .finite q => .finite (p * q)
  | .finite p, .infinity => scaleInfinity p
  | .infinity, .finite q => scaleInfinity q
  | .finite p, .negInfinity => neg (scaleInfinity p)
  | .negInfinity, .finite q => neg (scaleInfinity q)
  | .infinity, .infinity => .infinity
  | .negInfinity, .negInfinity => .infinity
  | .infinity, .negInfinity => .negInfinity
  | .negInfinity, .infinity => .negInfinity

def lt : Extended → Extended → Bool
  | .finite p, .finite q => p < q
  | .finite _, .infinity => true
  | .negInfinity, .finite _ => true
  | .negInfinity, .infinity => true
  | _, _ => false

def isUndefined : Extended → Bool
  | .undefined => true
  | _ => false

def isFinite : Extended → Bool
  | .finite _ => true
  | _ => false

def eq (x y : Extended) : Bool := x = y && !isUndefined x

def le (x y : Extended) : Bool := lt x y || eq x y

instance : Scalar Extended where
  zero := .finite 0
  one := .finite 1
  add := add
  sub x y := add x (neg y)
  mul := mul
  neg := neg
  infinity := .infinity
  undefined := .undefined
  decimal m e := .finite (m / 10 ^ e)
  lt := lt
  le := le
  eq := eq
  isFinite := isFinite
  isUndefined := isUndefined

end Extended

end ConeLift
