import ConeLift.Decimal.Shortest

/-!
Machine numbers as fractions. A machine number is taken for the shortest decimal that reads back
as it, so that sums of short decimals come out even.
-/

namespace ConeLift.Decimal

def Scaled.toRat (s : Scaled) : Rat :=
  if 0 ≤ s.exponent then (s.coefficient * Nat.pow 10 s.exponent.toNat : Nat)
  else mkRat s.coefficient (Nat.pow 10 (-s.exponent).toNat)

def Binary.shortestRat (b : Binary) : Rat :=
  if b.mantissa = 0 then 0
  else
    let magnitude := (shortest b.mantissa b.exponent).toRat
    if b.negative then -magnitude else magnitude

def toRat? (x : Float) : Option Rat := (Binary.ofFloat? x).map Binary.shortestRat

def places : Nat := 40

def ofRat (q : Rat) : Float :=
  let magnitude := Float.ofScientific (q.num.natAbs * Nat.pow 10 places / q.den) true places
  if q < 0 then -magnitude else magnitude

end ConeLift.Decimal
