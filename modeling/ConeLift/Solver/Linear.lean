import ConeLift.Decimal.Rational
import ConeLift.Model.Call
import ConeLift.Solver.Tableau

namespace ConeLift

structure BoundedProgram where
  cost : List Rat
  rows : List (List Rat × Rat)
  equations : List (List Rat × Rat)
  bounds : List (Option Rat × Option Rat)
  deriving DecidableEq

namespace BoundedProgram

structure Split where
  offset : Rat
  parts : List Rat
  width : Option Rat
  deriving DecidableEq

def Split.ofBounds : Option Rat × Option Rat → Split
  | (some lo, some hi) => ⟨lo, [1], some (hi - lo)⟩
  | (some lo, none) => ⟨lo, [1], none⟩
  | (none, some hi) => ⟨hi, [-1], none⟩
  | (none, none) => ⟨0, [1, -1], none⟩

def dot (a x : List Rat) : Rat := (List.zipWith (· * ·) a x).foldr (· + ·) 0

def spread (splits : List Split) (a : List Rat) : List Rat :=
  (List.zipWith (fun c s => s.parts.map (c * ·)) a splits).flatten

def gather : List Split → List Rat → List Rat
  | [], _ => []
  | s :: ss, xs => (s.offset + dot s.parts xs) :: gather ss (xs.drop s.parts.length)

def unit (n i : Nat) : List Rat := StandardProgram.unit n i

def widths (splits : List Split) : List (List Rat × Rat) :=
  (splits.zip (List.range splits.length)).filterMap fun s =>
    s.1.width.map fun w => (unit splits.length s.2, w)

def standard (p : BoundedProgram) (splits : List Split) : StandardProgram :=
  let offsets := splits.map Split.offset
  let limits := widths splits
  let slacks := p.rows.length + limits.length
  let shifted (r : List Rat × Rat) : List Rat × Rat :=
    (spread splits r.1, r.2 - dot r.1 offsets)
  let slacked (first : Nat) (rs : List (List Rat × Rat)) : List (List Rat × Rat) :=
    (rs.zip (List.range rs.length)).map fun r => (r.1.1 ++ unit slacks (first + r.2), r.1.2)
  let bare (r : List Rat × Rat) : List Rat × Rat := (r.1 ++ List.replicate slacks 0, r.2)
  { cost := spread splits p.cost ++ List.replicate slacks 0
    equations :=
      slacked 0 (p.rows.map shifted) ++ (p.equations.map shifted).map bare ++
        slacked p.rows.length (limits.map fun r => (spread splits r.1, r.2)) }

def reducedCosts (p : BoundedProgram) (prices : List Rat) : List Rat :=
  (List.zipWith (fun (r : List Rat × Rat) y => r.1.map (y * ·)) (p.rows ++ p.equations)
    prices).foldl (fun c r => List.zipWith (· - ·) c r) p.cost

inductive Verdict where
  | optimal (point reducedCosts : List Rat)
  | infeasible
  | unbounded
  | exhausted
  deriving DecidableEq

def crossed : Option Rat × Option Rat → Bool
  | (some lo, some hi) => hi < lo
  | _ => false

def solve (p : BoundedProgram) : Verdict :=
  if p.bounds.any crossed then .infeasible
  else
    let splits := p.bounds.map Split.ofBounds
    match (p.standard splits).solve with
    | .infeasible => .infeasible
    | .unbounded => .unbounded
    | .exhausted => .exhausted
    | .optimal xs prices => .optimal (gather splits xs) (p.reducedCosts prices)

def fractional? (whole : List Bool) (x : List Rat) : Option (Nat × Rat) :=
  ((List.range x.length).zip (x.zip whole)).findSome? fun e =>
    if e.2.2 && e.2.1.den ≠ 1 then some (e.1, e.2.1) else none

def cut (bounds : List (Option Rat × Option Rat)) (j : Nat) (x : Rat) :
    List (List (Option Rat × Option Rat)) :=
  let b := bounds.getD j (none, none)
  [bounds.set j (b.1, some x.floor), bounds.set j (some (x.floor + 1), b.2)]

def search (p : BoundedProgram) (whole : List Bool) :
    Nat → List (List (Option Rat × Option Rat)) → Option (List Rat) → Verdict
  | _, [], none => .infeasible
  | _, [], some x => .optimal x (x.map fun _ => 0)
  | 0, _ :: _, _ => .exhausted
  | fuel + 1, bounds :: rest, best =>
    match { p with bounds }.solve with
    | .infeasible => search p whole fuel rest best
    | .unbounded => .unbounded
    | .exhausted => .exhausted
    | .optimal x _ =>
      let isWorse : Bool := match best with
        | some y => decide (dot p.cost y ≤ dot p.cost x)
        | none => false
      if isWorse then search p whole fuel rest best
      else
        match fractional? whole x with
        | none => search p whole fuel rest (some x)
        | some (j, v) => search p whole fuel (cut bounds j v ++ rest) best

def nodeLimit : Nat := 20000

def solveWhole (p : BoundedProgram) (whole : Option (List Bool)) : Verdict :=
  match whole with
  | none => p.solve
  | some whole => p.search whole nodeLimit [p.bounds] none

end BoundedProgram

namespace LinearCall

def exactRow (numCols : Nat) (row : List (Nat × Float)) (b : Float) : Option (List Rat × Rat) := do
  let b ← Decimal.toRat? b
  let entries ← row.mapM fun e => return (e.1, ← Decimal.toRat? e.2)
  let values := (List.range numCols).map fun j =>
    ((entries.filter (·.1 = j)).map (·.2)).foldr (· + ·) 0
  return (values, b)

def exactRows (A : Option (RowMatrix Float)) (b : Option (List Float)) :
    Option (List (List Rat × Rat)) :=
  let A := A.getD ⟨0, []⟩
  (A.rows.zip (b.getD [])).mapM fun r => exactRow A.numCols r.1 r.2

/-- An undefined bound is none, and no number is above an infinite lower bound. -/
inductive Side where
  | absent
  | at (q : Rat)
  | beyond

def Side.ofBound (isLower : Bool) : Option Float → Side
  | none => .absent
  | some x =>
    match Decimal.toRat? x with
    | some q => .at q
    | none => if x.isNaN || (isLower == (x < 0 : Bool)) then .absent else .beyond

def exactBounds (b : Option Float × Option Float) : Option Rat × Option Rat :=
  match Side.ofBound true b.1, Side.ofBound false b.2 with
  | .beyond, _ | _, .beyond => (some 1, some 0)
  | lo, hi => (side lo, side hi)
where
  side : Side → Option Rat
    | .at q => some q
    | _ => none

def isSized (c : LinearCall Float) : Bool :=
  let fits (A : RowMatrix Float) : Bool := A.numCols = c.cost.length
  c.bounds.length = c.cost.length && c.matrix.all fits && c.equations.all fits

def inFractions? (c : LinearCall Float) : Option BoundedProgram := do
  if c.cost.isEmpty || !c.isSized then none
  else
    return {
      cost := ← c.cost.mapM Decimal.toRat?
      rows := ← exactRows c.matrix c.bound
      equations := ← exactRows c.equations c.values
      bounds := c.bounds.map exactBounds }

def report (success : Bool) (code : Int) (point costs : Option (List Float)) : Report Float where
  success := success
  code := code
  note := .text ""
  point := point
  iterations := none
  lowerMarginals := costs
  upperMarginals := costs.map fun xs => xs.map fun _ => 0

def solve (c : LinearCall Float) : Response Float :=
  match c.inFractions? with
  | none => .raised .refused
  | some p =>
    .returned <|
      match p.solveWhole c.whole with
      | .optimal x costs =>
        report true 0 (some (x.map Decimal.ofRat)) (some (costs.map Decimal.ofRat))
      | .exhausted => report false 1 none none
      | .infeasible => report false 2 none none
      | .unbounded => report false 3 none none

end LinearCall

end ConeLift
