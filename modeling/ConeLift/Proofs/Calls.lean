import ConeLift.Model.Call
import ConeLift.Proofs.Points

namespace ConeLift

def IsWhole (v : ℚ) : Prop := ∃ k : ℤ, v = k

def VarType.Allows : VarType → ℚ → Prop
  | .continuous, _ => True
  | .integer, v => IsWhole v
  | .binary, v => v = 0 ∨ v = 1

structure Program.Shaped {α : Type} (p : Program α) : Prop where
  cols : p.matrix.numCols = p.cost.length
  lower : p.columns.lower.length = p.cost.length
  upper : p.columns.upper.length = p.cost.length
  rowLower : p.rows.lower.length = p.matrix.numRows
  rowUpper : p.rows.upper.length = p.matrix.numRows
  types : p.types.length = p.cost.length

structure Program.Satisfied (p : Program Extended) (x : List ℚ) : Prop where
  columns : p.columns.Hold (finites x)
  rows : p.rows.Hold (p.matrix.mulVec (finites x))
  quadratics : ∀ q ∈ p.quadratics, q.Hold (finites x)
  types : List.Forall₂ VarType.Allows p.types x

def SidesAllow (s : Option Extended × Option Extended) (v : ℚ) : Prop :=
  (∀ l ∈ s.1, Scalar.le l (.finite v) = true) ∧ ∀ u ∈ s.2, Scalar.le (.finite v) u = true

structure LinearCall.Feasible (c : LinearCall Extended) (x : List ℚ) : Prop where
  inequalities : ∀ A ∈ c.matrix, ∀ b ∈ c.bound,
    List.Forall₂ (fun v w => Scalar.le v w = true) (A.mulVec (finites x)) b
  equations : ∀ A ∈ c.equations, ∀ b ∈ c.values,
    List.Forall₂ (fun v w => Scalar.eq v w = true) (A.mulVec (finites x)) b
  sides : List.Forall₂ SidesAllow c.bounds x
  whole : ∀ w ∈ c.whole, List.Forall₂ (fun flag v => flag = true → IsWhole v) w x

def ConstraintBlock.Hold (b : ConstraintBlock Extended) : Prop :=
  ∀ v ∈ b.value, if b.isEquation then Scalar.eq v 0 = true else Scalar.le 0 v = true

structure SmoothCall.Feasible (c : SmoothCall Extended) (x : List ℚ) : Prop where
  columns : c.columns.Hold (finites x)
  blocks : ∃ bs, c.blocks (finites x) = .ok bs ∧ ∀ b ∈ bs, b.Hold

structure Minimizer (p : List ℚ → Prop) (cost : List Extended) (x : List ℚ) : Prop where
  feasible : p x
  least : ∀ y, p y → Scalar.le (Vec.dot cost (finites x)) (Vec.dot cost (finites y)) = true

def Unbounded (p : List ℚ → Prop) (cost : List Extended) : Prop :=
  ∀ B : ℚ, ∃ x, p x ∧ Scalar.lt (Vec.dot cost (finites x)) (.finite B) = true

structure LinearCall.Right (c : LinearCall Extended) (r : Report Extended) : Prop where
  optimal : r.success = true → ∃ x, r.point = some (finites x) ∧ Minimizer c.Feasible c.cost x
  infeasible : r.success = false → r.code = 2 → ∀ x, ¬c.Feasible x
  unbounded : r.success = false → r.code = 3 → Unbounded c.Feasible c.cost

structure SmoothCall.Right (c : SmoothCall Extended) (r : Report Extended) : Prop where
  optimal : r.success = true → ∃ x, r.point = some (finites x) ∧ Minimizer c.Feasible c.cost x

def Call.Right : Call Extended → Report Extended → Prop
  | .linear c, r => c.Right r
  | .smooth c, r => c.Right r

/-- All answers to the given calls are right. -/
def RightOn (solver : Solver Extended) (calls : List (Call Extended)) : Prop :=
  ∀ i c r, calls[i]? = some c → solver i c = .returned r → c.Right r

end ConeLift
