import ConeLift.Solver.Dense
import ConeLift.Solver.Form

/-!
Minimising a linear cost over a product of second-order cones: every block of affine forms has to
lie in the cone of vectors whose first entry is at least the length of the rest. The method walks
through the interior of the cones, and scales problem and dual problem together, so that it ends
at an optimum or at a proof that there is none.
-/

namespace ConeLift

namespace SecondOrder

open Form (dot norm)

def det : List Fixed → Fixed
  | [] => 1
  | a :: u => (a - norm u) * (a + norm u)

def identity : List Fixed → List Fixed
  | [] => []
  | _ :: u => 1 :: u.map fun _ => 0

def product : List Fixed → List Fixed → List Fixed
  | a :: u, b :: v => (a * b + dot u v) :: List.zipWith (fun x y => a * y + b * x) u v
  | _, _ => []

def divide : List Fixed → List Fixed → List Fixed
  | a :: u, b :: v =>
    let x := (a * b - dot u v) / det (a :: u)
    x :: List.zipWith (fun y w => (w - x * y) / a) u v
  | _, _ => []

structure Scaling where
  factor : Fixed
  point : List Fixed

namespace Scaling

def ofPair (s z : List Fixed) : Scaling :=
  let ds := (det s).sqrt
  let dz := (det z).sqrt
  let s' := s.map (· / ds)
  let z' := z.map (· / dz)
  let half := ((1 + dot s' z') / 2).sqrt
  let point := match s', z' with
    | a :: u, b :: v => (a + b) / (2 * half) :: List.zipWith (fun x y => (x - y) / (2 * half)) u v
    | _, _ => []
  ⟨(ds / dz).sqrt, point⟩

def stretch (k : Fixed) (point v : List Fixed) : List Fixed :=
  match point, v with
  | w :: ws, a :: u =>
    let inner := dot ws u
    k * (w * a + inner) ::
      List.zipWith (fun p x => k * (x + (a + inner / (1 + w)) * p)) ws u
  | _, _ => []

def apply (W : Scaling) (v : List Fixed) : List Fixed := stretch W.factor W.point v

def undo (W : Scaling) (v : List Fixed) : List Fixed :=
  match W.point with
  | [] => []
  | w :: ws => stretch (1 / W.factor) (w :: ws.map fun x => -x) v

def squareRows (W : Scaling) : List (List Fixed) :=
  let n := W.point.length
  let k := W.factor * W.factor
  ((List.range n).zip W.point).map fun p =>
    ((List.range n).zip W.point).map fun q =>
      let d : Fixed := if p.1 ≠ q.1 then 0 else if p.1 = 0 then 1 else -1
      k * (2 * p.2 * q.2 - d)

end Scaling

def far : Fixed := .ofInt (Int.pow 10 30)

def reach (s d : List Fixed) : Fixed :=
  match s, d with
  | a :: u, b :: v =>
    let linear := if b < 0 then -a / b else far
    let x := b * b - dot v v
    let y := a * b - dot u v
    let c := det (a :: u)
    let disc := y * y - x * c
    let root :=
      if disc < 0 then far
      else
        let r := disc.sqrt
        -- The two roots of `x t^2 + 2 y t + c`, written without cancellation.
        let q := if y < 0 then -y + r else -y - r
        let first := if x = 0 then far else q / x
        let second := if q = 0 then far else c / q
        let positive (t : Fixed) : Fixed := if 0 < t then t else far
        min (positive first) (positive second)
    min linear root
  | _, _ => far

end SecondOrder

structure ConeProgram where
  cost : List Fixed
  blocks : List (List Form)

namespace ConeProgram

open Form (dot norm)
open SecondOrder (far)

structure Iterate where
  point : List Fixed
  slacks : List (List Fixed)
  duals : List (List Fixed)
  scale : Fixed
  gap : Fixed

def linearParts (p : ConeProgram) (x : List Fixed) : List (List Fixed) :=
  p.blocks.map fun b => b.map fun f => dot f.coefs x

def constants (p : ConeProgram) : List (List Fixed) := p.blocks.map fun b => b.map Form.const

def adjoint (p : ConeProgram) (z : List (List Fixed)) : List Fixed :=
  (p.blocks.flatten.zip z.flatten).foldl
    (fun acc e => List.zipWith (fun a c => a + e.2 * c) acc e.1.coefs) (p.cost.map fun _ => 0)

def start (p : ConeProgram) : Iterate :=
  let unit := p.constants.map SecondOrder.identity
  { point := p.cost.map fun _ => 0
    slacks := unit
    duals := unit
    scale := 1
    gap := 1 }

structure Residual where
  dual : List Fixed
  primal : List (List Fixed)
  value : Fixed

def combine (f : Fixed → Fixed → Fixed) (u v : List (List Fixed)) : List (List Fixed) :=
  List.zipWith (List.zipWith f) u v

def residual (p : ConeProgram) (t : Iterate) : Residual where
  dual := List.zipWith (fun a c => a - c * t.scale) (p.adjoint t.duals) p.cost
  primal :=
    combine (· - ·) (combine (· - ·) t.slacks (p.linearParts t.point))
      (p.constants.map fun b => b.map (· * t.scale))
  value := t.gap + dot p.cost t.point + dot p.constants.flatten t.duals.flatten

def mean (p : ConeProgram) (t : Iterate) : Fixed :=
  (dot t.slacks.flatten t.duals.flatten + t.scale * t.gap) / .ofInt (p.blocks.length + 1)

def systemRows (p : ConeProgram) (t : Iterate) (scalings : List SecondOrder.Scaling)
    (dual primal : List Fixed) (value : Fixed) : List (List Fixed) :=
  let forms := p.blocks.flatten
  let numForms := forms.length
  let squares := scalings.map SecondOrder.Scaling.squareRows
  let offsets := (scalings.foldl
    (fun acc W => (acc.1 ++ [acc.2], acc.2 + W.point.length)) (([] : List Nat), 0)).1
  let padded := (squares.zip offsets).flatMap fun e =>
    e.1.map fun r =>
      List.replicate e.2 0 ++ r ++ List.replicate (numForms - e.2 - r.length) 0
  let dualRows := ((List.range p.cost.length).zip (p.cost.zip dual)).map fun e =>
    (p.cost.map fun _ => 0) ++ (forms.map fun f => -(f.coefs.getD e.1 0)) ++ [e.2.1, e.2.2]
  let primalRows := ((forms.zip padded).zip primal).map fun e =>
    e.1.1.coefs ++ e.1.2 ++ [e.1.1.const, e.2]
  let valueRow := p.cost ++ forms.map Form.const ++ [-(t.gap / t.scale), value]
  dualRows ++ primalRows ++ [valueRow]

def cut : List (List Form) → List Fixed → List (List Fixed)
  | [], _ => []
  | b :: bs, xs => xs.take b.length :: cut bs (xs.drop b.length)

def direction? (p : ConeProgram) (t : Iterate) (r : Residual)
    (scalings : List SecondOrder.Scaling) (share : Fixed) (targets : List (List Fixed))
    (gapTarget : Fixed) : Option Iterate := do
  let pushed := List.zipWith SecondOrder.Scaling.apply scalings targets
  let rows := p.systemRows t scalings (r.dual.map (share * ·))
    (combine (fun a b => share * a + b) r.primal pushed).flatten
    (-(share * r.value) - gapTarget / t.scale)
  let n := p.cost.length
  let xs ← Dense.solve? rows.length rows
  let duals := cut p.blocks (xs.drop n)
  let scale := xs.getLastD 0
  let point := xs.take n
  let moved := combine (fun a b => a + scale * b) (p.linearParts point) p.constants
  return {
    point := point
    slacks := combine (fun a b => a - share * b) moved r.primal
    duals := duals
    scale := scale
    gap := (gapTarget - t.gap * scale) / t.scale }

def reach (t d : Iterate) : Fixed :=
  let blocks := List.zipWith SecondOrder.reach t.slacks d.slacks ++
    List.zipWith SecondOrder.reach t.duals d.duals
  let single (x y : Fixed) : Fixed := if y < 0 then -x / y else far
  (blocks ++ [single t.scale d.scale, single t.gap d.gap]).foldl min far

def advance (t d : Iterate) (k : Fixed) : Iterate :=
  let add (x y : Fixed) : Fixed := x + k * y
  { point := List.zipWith add t.point d.point
    slacks := combine add t.slacks d.slacks
    duals := combine add t.duals d.duals
    scale := add t.scale d.scale
    gap := add t.gap d.gap }

def step? (p : ConeProgram) (t : Iterate) : Option Iterate := do
  let r := p.residual t
  let scalings := List.zipWith SecondOrder.Scaling.ofPair t.slacks t.duals
  let lambdas := List.zipWith SecondOrder.Scaling.apply scalings t.duals
  let aim ← p.direction? t r scalings 1 (lambdas.map fun l => l.map fun x => -x)
    (-(t.gap * t.scale))
  let rate := min 1 (reach t aim)
  let center := (1 - rate) * (1 - rate) * (1 - rate)
  let mu := center * p.mean t
  let targets := (lambdas.zip (scalings.zip (aim.slacks.zip aim.duals))).map fun e =>
    let (l, W, ds, dz) := e
    let second := SecondOrder.product (W.undo ds) (W.apply dz)
    let wanted := List.zipWith (fun i x => mu * i - x) (SecondOrder.identity l) second
    List.zipWith (fun x y => x - y) (SecondOrder.divide l wanted) l
  let d ← p.direction? t r scalings (1 - center) targets
    (mu - t.gap * t.scale - aim.gap * aim.scale)
  return advance t d (min 1 ((1 - .tenth 2) * reach t d))

def error (p : ConeProgram) (t : Iterate) : Fixed :=
  let r := p.residual t
  let value := dot p.cost t.point / t.scale
  let primal := norm r.primal.flatten / t.scale / (1 + norm p.constants.flatten)
  let dual := norm r.dual / t.scale / (1 + norm p.cost)
  let gap := dot t.slacks.flatten t.duals.flatten / (t.scale * t.scale) / (1 + value.abs)
  max primal (max dual gap)

inductive Verdict where
  | optimal (point : List Fixed)
  | infeasible
  | unbounded
  | undecided

def certainty : Fixed := .tenth 12

def showsInfeasible (p : ConeProgram) (t : Iterate) : Bool :=
  let gain := -(dot p.constants.flatten t.duals.flatten)
  0 < gain && norm (p.adjoint t.duals) ≤ certainty * gain

def showsUnbounded (p : ConeProgram) (t : Iterate) : Bool :=
  let gain := -(dot p.cost t.point)
  0 < gain && norm (combine (· - ·) t.slacks (p.linearParts t.point)).flatten ≤ certainty * gain

def isSound (t : Iterate) : Bool :=
  0 < t.scale && 0 < t.gap && (t.slacks ++ t.duals).all fun v => 0 < SecondOrder.det v

def acceptable : Fixed := .tenth 6

def target : Fixed := .tenth 20

def settled : Fixed := .tenth 12

def conclude (best : Iterate × Fixed) : Verdict :=
  if best.2 ≤ acceptable then .optimal (best.1.point.map (· / best.1.scale)) else .undecided

def walk (p : ConeProgram) : Nat → Iterate → Iterate × Fixed → Verdict
  | 0, _, best => conclude best
  | fuel + 1, t, best =>
    match p.step? t with
    | none => conclude best
    | some t =>
      if !isSound t then conclude best
      else if p.showsInfeasible t then .infeasible
      else if p.showsUnbounded t then .unbounded
      else
        let e := p.error t
        if e < best.2 then
          if e ≤ target then conclude (t, e) else walk p fuel t (t, e)
        else if best.2 ≤ settled then conclude best
        else walk p fuel t best

def stepLimit : Nat := 150

def solve (p : ConeProgram) : Verdict :=
  let t := p.start
  p.walk stepLimit t (t, p.error t)

end ConeProgram

end ConeLift
