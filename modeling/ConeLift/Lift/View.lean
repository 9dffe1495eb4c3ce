import ConeLift.Lift.Basic
import ConeLift.Model.Program

namespace ConeLift

def finite? {α : Type} [Scalar α] (x : α) : Option α := if Scalar.isFinite x then some x else none

theorem finite?_eq_some_iff {α : Type} [Scalar α] (x y : α) :
    finite? x = some y ↔ Scalar.isFinite x = true ∧ x = y := by
  by_cases h : Scalar.isFinite x <;> simp [finite?, h]

structure LiftedView (α : Type) where
  sense : Sense
  cost : List α
  lower : List (Option α)
  upper : List (Option α)
  matrix : Triplets α
  rowLower : List (Option α)
  rowUpper : List (Option α)
  numOrig : Nat
  numAux : Nat
  numLinear : Nat
  quadratics : List (QuadraticRow α)
  deriving DecidableEq

def Lifted.view {α : Type} [Scalar α] (p : Lifted α) : LiftedView α where
  sense := .minimize
  cost := p.cost
  lower := p.columns.lower.map finite?
  upper := p.columns.upper.map finite?
  matrix := .ofRows p.matrix
  rowLower := p.rows.lower.map finite?
  rowUpper := p.rows.upper.map finite?
  numOrig := p.numOrig
  numAux := p.numAux
  numLinear := p.numLinear
  quadratics := p.quadratics

end ConeLift
