import ConeLift.Lift.Quadratic
import ConeLift.Solver.Form

namespace ConeLift

/-- `sum of plus^2 - sum of minus^2 ≤ rest`. -/
structure SquaredRow where
  plus : List Form
  minus : List Form
  rest : Form

namespace SquaredRow

abbrev Matrix := List (List Rat)

def entry (Q : Matrix) (i j : Nat) : Rat := (Q.getD i []).getD j 0

def addAt (Q : Matrix) (i j : Nat) (x : Rat) : Matrix :=
  Q.modify i fun r => r.modify j (· + x)

def addSymmetric (Q : Matrix) (i j : Nat) (x : Rat) : Matrix :=
  addAt (addAt Q i j (x / 2)) j i (x / 2)

def matrix? (n : Nat) (q : QuadraticRow Float) : Option Matrix := do
  let linear ← q.linearCoef.mapM Decimal.toRat?
  let coefs ← q.coef.mapM Decimal.toRat?
  let bound ← Decimal.toRat? q.bound
  let zero : Matrix := List.replicate (n + 1) (List.replicate (n + 1) 0)
  let Q := ((q.rowIndex.zip q.colIndex).zip coefs).foldl
    (fun Q e => addSymmetric Q e.1.1.toNat e.1.2.toNat e.2) zero
  let Q := (q.linearIndex.zip linear).foldl (fun Q e => addSymmetric Q e.1.toNat n e.2) Q
  return addAt Q n n (-bound)

def direction? (n : Nat) (Q : Matrix) : Option (List Nat) :=
  match (List.range n).find? fun i => entry Q i i ≠ 0 with
  | some i => some [i]
  | none =>
    (List.range n).findSome? fun i =>
      ((List.range i).find? fun j => entry Q i j ≠ 0).map fun j => [i, j]

structure Term where
  weight : Rat
  coefs : List Rat

def termOf (Q : Matrix) (is : List Nat) : Term :=
  let row := is.foldl (fun r i => List.zipWith (· + ·) r (Q.getD i []))
    (List.replicate Q.length 0)
  let weight := (is.map fun i => row.getD i 0).foldr (· + ·) 0
  ⟨weight, row.map (· / weight)⟩

def subtract (Q : Matrix) (t : Term) : Matrix :=
  List.zipWith (fun r x => List.zipWith (fun q y => q - t.weight * x * y) r t.coefs) Q t.coefs

def complete (n : Nat) : Nat → Matrix → List Term × Matrix
  | 0, Q => ([], Q)
  | fuel + 1, Q =>
    match direction? n Q with
    | none => ([], Q)
    | some is =>
      let t := termOf Q is
      let (ts, rest) := complete n fuel (subtract Q t)
      (t :: ts, rest)

def formOf (n : Nat) (k : Fixed) (coefs : List Rat) : Form :=
  Form.scale k ⟨(coefs.take n).map Fixed.ofRat, Fixed.ofRat (coefs.getD n 0)⟩

def Term.form (n : Nat) (t : Term) : Form :=
  formOf n (Fixed.ofRat (if t.weight < 0 then -t.weight else t.weight)).sqrt t.coefs

def ofRow? (n : Nat) (q : QuadraticRow Float) : Option SquaredRow := do
  let Q ← matrix? n q
  let (terms, rest) := complete n n Q
  let last := rest.getD n []
  return {
    plus := (terms.filter (0 < ·.weight)).map (Term.form n)
    minus := (terms.filter (·.weight < 0)).map (Term.form n)
    rest := formOf n 1 ((last.take n).map (-2 * ·) ++ [-(last.getD n 0)]) }

end SquaredRow

end ConeLift
