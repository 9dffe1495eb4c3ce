import ConeLift.Model.Call
import ConeLift.Solver.Reduction
import ConeLift.Solver.Squares

/-!
Linear costs under linear and quadratic rows. Every quadratic row that bounds a convex region, or
two opposite ones, is written as a second-order cone; where there are two regions both are tried.
-/

namespace ConeLift

namespace SquaredRow

inductive Region where
  | everything
  | anyOf (blocks : List (List Form))
  | other

def constantPart (numVars : Nat) (x : Fixed) : List Form :=
  if x = 0 then [] else [Form.ofConst numVars x.sqrt]

def convexRegion (numVars : Nat) (plus : List Form) (rest : Form) : Region :=
  if plus.isEmpty then .anyOf [[rest]]
  else if rest.isConst then
    if rest.const < 0 then .anyOf [[rest]]
    else .anyOf [Form.ofConst numVars rest.const.sqrt :: plus]
  else
    let one := Form.ofConst numVars 1
    .anyOf [rest.addScaled 1 one :: rest.addScaled (-1) one :: plus.map (Form.scale 2)]

def doubleRegion (numVars : Nat) (plus : List Form) (lead rest : Form) : Region :=
  if !rest.isConst then .other
  else if 0 < rest.const then (if plus.isEmpty then .everything else .other)
  else
    let tail := plus ++ constantPart numVars (-rest.const)
    if tail.isEmpty then .everything
    else .anyOf [lead :: tail, lead.scale (-1) :: tail]

def region (numVars : Nat) (r : SquaredRow) : Region :=
  match r.minus with
  | [] => convexRegion numVars r.plus r.rest
  | [lead] => doubleRegion numVars r.plus lead r.rest
  | _ => .other

end SquaredRow

namespace SmoothCall

abbrev Sides := List (Option Fixed × Option Fixed)

def sidesOf (B : Bounds Float) : Sides :=
  (B.lower.zip B.upper).map fun b => (Fixed.ofFloat? b.1, Fixed.ofFloat? b.2)

def leastValue? (sides : Sides) (f : Form) : Option Fixed :=
  (f.coefs.zip sides).foldlM (fun acc e =>
    if e.1 = 0 then some acc
    else (if 0 < e.1 then e.2.1 else e.2.2).map fun b => acc + e.1 * b) f.const

def isNeverPositive (sides : Sides) (f : Form) : Bool :=
  match leastValue? sides (f.scale (-1)) with
  | some x => 0 ≤ x
  | none => false

def possible (sides : Sides) (blocks : List (List Form)) : List (List Form) :=
  match blocks.filter fun b => !isNeverPositive sides (b.headD default) with
  | [] => blocks.take 1
  | left => left

def combinations : List (List (List Form)) → List (List (List Form))
  | [] => [[]]
  | blocks :: rest => (combinations rest).flatMap fun c => blocks.map fun b => b :: c

def sideForm (numVars j : Nat) (k const : Fixed) : Form :=
  (Form.single numVars j k).addScaled 1 (Form.ofConst numVars const)

def boundForms (sides : Sides) : List (List Form) × List Form :=
  let n := sides.length
  let named := (List.range n).zip sides
  let isFixed (s : Nat × Option Fixed × Option Fixed) : Bool :=
    s.2.1.isSome && s.2.1 = s.2.2
  let open' := named.filter fun s => !isFixed s
  ((open'.filterMap fun s => s.2.1.map fun lo => [sideForm n s.1 1 (-lo)]) ++
      (open'.filterMap fun s => s.2.2.map fun hi => [sideForm n s.1 (-1) hi]),
    (named.filter isFixed).filterMap fun s => s.2.1.map fun x => sideForm n s.1 1 (-x))

def regions? (c : SmoothCall Float) (sides : Sides) : Option (List (List (List Form))) := do
  let n := c.cost.length
  let rows ← c.quadratics.mapM (SquaredRow.ofRow? n)
  rows.foldrM (fun r acc =>
    match r.region n with
    | .everything => some acc
    | .anyOf [b] => some ([b] :: acc)
    | .anyOf bs => some (possible sides bs :: acc)
    | .other => none) []

def rowForms? (k : Fixed) (rows : List (List Float)) (values : List Float) :
    Option (List Form) :=
  (rows.zip values).mapM fun r => do
    let coefs ← r.1.mapM Fixed.ofFloat?
    let b ← Fixed.ofFloat? r.2
    return Form.scale k ⟨coefs, -b⟩

def programs? (c : SmoothCall Float) : Option (List FormProgram) := do
  let sides := sidesOf c.columns
  let regions ← c.regions? sides
  let cost ← c.cost.mapM Fixed.ofFloat?
  let equations ← rowForms? 1 c.rows.equations c.rows.values
  let rows ← rowForms? (-1) c.rows.matrix c.rows.bound
  let (boundBlocks, fixed) := boundForms sides
  return (combinations regions).map fun blocks =>
    { numVars := c.cost.length
      cost := ⟨cost, 0⟩
      equations := fixed ++ equations
      blocks := boundBlocks ++ rows.map (fun f => [f]) ++ blocks }

def better (cost : Form) : FormProgram.Verdict → FormProgram.Verdict → FormProgram.Verdict
  | .unbounded, _ => .unbounded
  | _, .unbounded => .unbounded
  | .undecided, _ => .undecided
  | _, .undecided => .undecided
  | .infeasible, v => v
  | v, .infeasible => v
  | .optimal x, .optimal y => if cost.value y < cost.value x then .optimal y else .optimal x

def verdict (c : SmoothCall Float) : FormProgram.Verdict :=
  match c.programs? with
  | none => .undecided
  | some ps => ps.foldl (fun v p => better p.cost v p.solve) .infeasible

def foundCode : Int := 0

def noPointCode : Int := 4

def gaveUpCode : Int := 8

def report (success : Bool) (code : Int) (point : List Float) : Report Float where
  success := success
  code := code
  note := .text ""
  point := some point
  iterations := none
  lowerMarginals := none
  upperMarginals := none

def solve (c : SmoothCall Float) : Response Float :=
  if (List.zipWith (fun lo hi => decide (hi < lo)) c.columns.lower c.columns.upper).any id then
    .raised .unfit
  else
    .returned <|
      match c.verdict with
      | .optimal x => report true foundCode (x.map Fixed.toFloat)
      | .infeasible => report false noPointCode c.start
      | .unbounded | .undecided => report false gaveUpCode c.start

end SmoothCall

end ConeLift
