/-!
The simplex method on exact fractions: minimise `cost x` over `x ≥ 0` subject to equations. Among
the columns and the rows that qualify for a pivot the first one is taken, which rules out cycles.
-/

namespace ConeLift

/-- An equation solved for its basic column: the coefficient there is one, and in all other rows
it is zero. -/
structure Tableau.Row where
  basic : Nat
  coefs : List Rat
  rightHand : Rat
  deriving DecidableEq

structure Tableau where
  rows : List Tableau.Row
  goal : List Rat
  deriving DecidableEq

namespace Tableau

def clear (pivot : List Rat) (j : Nat) (coefs : List Rat) : List Rat :=
  let f := coefs.getD j 0
  if f = 0 then coefs else List.zipWith (fun x y => x - f * y) coefs pivot

def Row.clear (pivot : Row) (r : Row) : Row :=
  { r with
    coefs := Tableau.clear pivot.coefs pivot.basic r.coefs
    rightHand := r.rightHand - r.coefs.getD pivot.basic 0 * pivot.rightHand }

def Row.solveFor (r : Row) (j : Nat) : Row :=
  let p := r.coefs.getD j 1
  ⟨j, r.coefs.map (· / p), r.rightHand / p⟩

def pivot (t : Tableau) (r : Row) (j : Nat) : Tableau :=
  let solved := r.solveFor j
  { rows := t.rows.map fun s => if s.basic = r.basic then solved else solved.clear s
    goal := clear solved.coefs j t.goal }

def entering? (t : Tableau) (columns : Nat) : Option Nat :=
  (t.goal.take columns).findIdx? (· < 0)

def Row.precedes (j : Nat) (r s : Row) : Bool :=
  let x := r.rightHand * s.coefs.getD j 0
  let y := s.rightHand * r.coefs.getD j 0
  x < y || (x = y && r.basic < s.basic)

def leaving? (t : Tableau) (j : Nat) : Option Row :=
  (t.rows.filter fun r => 0 < r.coefs.getD j 0).foldl
    (fun best r =>
      match best with
      | none => some r
      | some s => if r.precedes j s then some r else some s) none

inductive End where
  | optimal
  | unbounded
  | exhausted
  deriving DecidableEq

def run (columns : Nat) : Nat → Tableau → End × Tableau
  | 0, t => (.exhausted, t)
  | fuel + 1, t =>
    match t.entering? columns with
    | none => (.optimal, t)
    | some j =>
      match t.leaving? j with
      | none => (.unbounded, t)
      | some r => run columns fuel (t.pivot r j)

def pivotLimit : Nat := 20000

def value (t : Tableau) (j : Nat) : Rat :=
  match t.rows.find? (·.basic = j) with
  | some r => r.rightHand
  | none => 0

def expel (columns : Nat) (t : Tableau) (artificial : Nat) : Tableau :=
  let relax (r : Row) : Row := if r.basic = artificial then { r with rightHand := 0 } else r
  let t : Tableau := { t with rows := t.rows.map relax }
  match t.rows.find? (·.basic = artificial) with
  | none => t
  | some r =>
    match (r.coefs.take columns).findIdx? (· ≠ 0) with
    | none => t
    | some j => t.pivot r j

def price (t : Tableau) (cost : List Rat) : Tableau :=
  { t with goal := t.rows.foldl (fun g r => clear r.coefs r.basic g) cost }

end Tableau

structure StandardProgram where
  cost : List Rat
  equations : List (List Rat × Rat)
  deriving DecidableEq

namespace StandardProgram

inductive Verdict where
  | optimal (point prices : List Rat)
  | infeasible
  | unbounded
  | exhausted
  deriving DecidableEq

def tolerance : Rat := 1 / 10 ^ (8 : Nat)

def unit (n i : Nat) : List Rat := (List.range n).map fun k => if k = i then 1 else 0

def sign (b : Rat) : Rat := if b < 0 then -1 else 1

def start (p : StandardProgram) : Tableau :=
  let n := p.cost.length
  let m := p.equations.length
  let rows := (p.equations.zip (List.range m)).map fun e =>
    let s := sign e.1.2
    { basic := n + e.2, coefs := e.1.1.map (s * ·) ++ unit m e.2, rightHand := s * e.1.2 }
  { rows := rows
    goal := List.replicate n 0 ++ List.replicate m 1 }

def artificials (p : StandardProgram) : List Nat :=
  (List.range p.equations.length).map (p.cost.length + ·)

def solve (p : StandardProgram) : Verdict :=
  let n := p.cost.length
  let m := p.equations.length
  let first := p.start
  match (first.price first.goal).run n Tableau.pivotLimit with
  | (.exhausted, _) | (.unbounded, _) => .exhausted
  | (.optimal, t) =>
    if tolerance < (p.artificials.map t.value).foldr (· + ·) 0 then .infeasible
    else
      let t := p.artificials.foldl (Tableau.expel n) t
      match (t.price (p.cost ++ List.replicate m 0)).run n Tableau.pivotLimit with
      | (.exhausted, _) => .exhausted
      | (.unbounded, _) => .unbounded
      | (.optimal, t) =>
        .optimal ((List.range n).map t.value)
          (List.zipWith (fun e g => -(sign e.2) * g) p.equations (t.goal.drop n))

end StandardProgram

end ConeLift
