import ConeLift.Decimal.Rational

namespace ConeLift

structure Fixed where
  raw : Int
  deriving DecidableEq, Inhabited

namespace Fixed

def places : Nat := 192

def unit : Int := Int.pow 2 places

def ofInt (i : Int) : Fixed := ⟨i * unit⟩

instance (n : Nat) : OfNat Fixed n := ⟨ofInt n⟩

instance : Add Fixed := ⟨fun x y => ⟨x.raw + y.raw⟩⟩

instance : Sub Fixed := ⟨fun x y => ⟨x.raw - y.raw⟩⟩

instance : Neg Fixed := ⟨fun x => ⟨-x.raw⟩⟩

instance : Mul Fixed := ⟨fun x y => ⟨(x.raw * y.raw) >>> places⟩⟩

instance : Div Fixed := ⟨fun x y => ⟨x.raw * unit / y.raw⟩⟩

instance : LT Fixed := ⟨fun x y => x.raw < y.raw⟩

instance : LE Fixed := ⟨fun x y => x.raw ≤ y.raw⟩

instance (x y : Fixed) : Decidable (x < y) := inferInstanceAs (Decidable (x.raw < y.raw))

instance (x y : Fixed) : Decidable (x ≤ y) := inferInstanceAs (Decidable (x.raw ≤ y.raw))

instance : Max Fixed := ⟨fun x y => if x ≤ y then y else x⟩

instance : Min Fixed := ⟨fun x y => if x ≤ y then x else y⟩

@[simp] theorem raw_add (x y : Fixed) : (x + y).raw = x.raw + y.raw := rfl

@[simp] theorem raw_sub (x y : Fixed) : (x - y).raw = x.raw - y.raw := rfl

@[simp] theorem raw_neg (x : Fixed) : (-x).raw = -x.raw := rfl

theorem lt_iff (x y : Fixed) : x < y ↔ x.raw < y.raw := Iff.rfl

theorem le_iff (x y : Fixed) : x ≤ y ↔ x.raw ≤ y.raw := Iff.rfl

def abs (x : Fixed) : Fixed := ⟨x.raw.natAbs⟩

def ofRat (q : Rat) : Fixed := ⟨q.num * unit / q.den⟩

def toRat (x : Fixed) : Rat := mkRat x.raw (Nat.pow 2 places)

def tenth (k : Nat) : Fixed := ofRat (mkRat 1 (Nat.pow 10 k))

def ofFloat? (x : Float) : Option Fixed := (Decimal.toRat? x).map ofRat

def toFloat (x : Fixed) : Float := Decimal.ofRat x.toRat

def lowerRoot (n : Nat) : Nat → Nat → Nat
  | 0, x => x
  | fuel + 1, x =>
    let y := (x + n / x) / 2
    if y < x then lowerRoot n fuel y else x

def sqrt (x : Fixed) : Fixed :=
  let n := x.raw.toNat * Nat.pow 2 places
  if n = 0 then 0
  else
    let top := Nat.log2 n / 2 + 1
    ⟨lowerRoot n (top + 8) (Nat.pow 2 top)⟩

end Fixed

end ConeLift
