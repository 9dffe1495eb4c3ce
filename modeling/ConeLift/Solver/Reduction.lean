import ConeLift.Solver.InteriorPoint

namespace ConeLift

structure FormProgram where
  numVars : Nat
  cost : Form
  equations : List Form
  blocks : List (List Form)

namespace FormProgram

inductive Reading where
  | open (block : List Form)
  | always
  | never
  | equations (fs : List Form)

def lengthOf (fs : List Form) : Fixed := Form.norm (fs.map Form.const)

def readBlock : List Form → Reading
  | [] => .always
  | lead :: rest =>
    if !lead.isConst then .open (lead :: rest)
    else if lead.const < -Form.slack then .never
    else if rest.all Form.isConst then
      if lengthOf rest ≤ lead.const + Form.slack then .always else .never
    else if lead.const ≤ Form.slack then .equations rest
    else .open (lead :: rest)

def newEquations : Reading → List Form
  | .equations fs => fs
  | _ => []

def isNever : Reading → Bool
  | .never => true
  | _ => false

def open? : Reading → Option (List Form)
  | .open b => some b
  | _ => none

def areOpposite (f g : Form) : Bool :=
  let k := f.peak.2
  k > Form.tolerance &&
    (let sum := (f.scale (1 / k)).addScaled (1 / k) g
     sum.isConst && sum.const.abs ≤ Form.tolerance)

def single? : List Form → Option Form
  | [f] => some f
  | _ => none

def pinched (blocks : List (List Form)) : List Form :=
  let singles := blocks.filterMap single?
  singles.filter fun f => singles.any (areOpposite f)

def settle (blocks : List (List Form)) : Nat → List Form → Option (Elimination × List (List Form))
  | fuel, equations => do
    let e ← Elimination.ofEquations equations
    let readings := blocks.map fun b => readBlock (b.map e.reduce)
    if readings.any isNever then none
    else
      let left := readings.filterMap open?
      let more := readings.flatMap newEquations ++ pinched left
      match fuel with
      | 0 => return (e, left)
      | fuel + 1 =>
        if more.isEmpty then return (e, left)
        else settle blocks fuel (equations ++ more)

def evenBlock (b : List Form) : List Form :=
  let size := (b.map fun f => f.peak.2).foldl max 0
  if size ≤ Form.tolerance then b else b.map (Form.scale (1 / size))

inductive Verdict where
  | optimal (point : List Fixed)
  | infeasible
  | unbounded
  | undecided

def fromDirection (p : ConeProgram) : Verdict :=
  match { p with cost := p.cost.map fun _ => 0 }.solve with
  | .optimal _ => .unbounded
  | .infeasible => .infeasible
  | .unbounded | .undecided => .undecided

def spread (numVars : Nat) (js : List Nat) (x : List Fixed) : List Fixed :=
  let named := js.zip x
  (List.range numVars).map fun j => ((named.find? (·.1 = j)).map (·.2)).getD 0

def solveFree (numVars : Nat) (cost : Form) (blocks : List (List Form)) : Verdict :=
  let directions := blocks.flatten.map fun f => { f with const := 0 }
  let basis := (Elimination.ofEquations directions).getD []
  let js := basis.map (·.1)
  let program : ConeProgram :=
    { cost := (cost.restrict js).coefs
      blocks := blocks.map fun b => evenBlock (b.map (Form.restrict js)) }
  if !(basis.reduce cost).isConst then fromDirection program
  else
    match program.solve with
    | .optimal x => .optimal (spread numVars js x)
    | .unbounded => fromDirection program
    | .infeasible => .infeasible
    | .undecided => .undecided

def settleLimit : Nat := 20

def solve (p : FormProgram) : Verdict :=
  match settle p.blocks settleLimit p.equations with
  | none => .infeasible
  | some (e, blocks) =>
    match solveFree p.numVars (e.reduce p.cost).normalize blocks with
    | .optimal x => .optimal (e.complete p.numVars ((e.kept p.numVars).map fun j => x.getD j 0))
    | v => v

end FormProgram

end ConeLift
