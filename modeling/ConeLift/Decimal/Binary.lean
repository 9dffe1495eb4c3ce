namespace ConeLift

structure Binary where
  negative : Bool
  mantissa : Nat
  exponent : Int
  deriving DecidableEq, Repr

namespace Binary

def infinityField : Nat := 2047

def ofFloat? (x : Float) : Option Binary :=
  let w := x.toBits.toNat
  let negative := w / Nat.pow 2 63 = 1
  let field := w / Nat.pow 2 52 % Nat.pow 2 11
  let fraction := w % Nat.pow 2 52
  if field = infinityField then none
  else if field = 0 then some ⟨negative, fraction, -1074⟩
  else some ⟨negative, fraction + Nat.pow 2 52, (field : Int) - 1075⟩

def toRat (b : Binary) : Rat :=
  let magnitude : Rat :=
    if 0 ≤ b.exponent then (b.mantissa * Nat.pow 2 b.exponent.toNat : Nat)
    else mkRat b.mantissa (Nat.pow 2 (-b.exponent).toNat)
  if b.negative then -magnitude else magnitude

end Binary

def exactValue? (x : Float) : Option Rat := (Binary.ofFloat? x).map Binary.toRat

end ConeLift
