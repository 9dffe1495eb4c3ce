import ConeLift.Solver.Fixed

namespace ConeLift

structure Form where
  coefs : List Fixed
  const : Fixed
  deriving Inhabited

namespace Form

def dot (x y : List Fixed) : Fixed := (List.zipWith (· * ·) x y).foldl (· + ·) 0

def norm (x : List Fixed) : Fixed := (dot x x).sqrt

def value (f : Form) (x : List Fixed) : Fixed := dot f.coefs x + f.const

def scale (k : Fixed) (f : Form) : Form := ⟨f.coefs.map (k * ·), k * f.const⟩

def addScaled (f : Form) (k : Fixed) (g : Form) : Form :=
  ⟨List.zipWith (fun x y => x + k * y) f.coefs g.coefs, f.const + k * g.const⟩

def ofConst (numVars : Nat) (x : Fixed) : Form := ⟨List.replicate numVars 0, x⟩

def single (numVars j : Nat) (k : Fixed) : Form :=
  ⟨(List.range numVars).map fun i => if i = j then k else 0, 0⟩

def peak (f : Form) : Nat × Fixed :=
  ((List.range f.coefs.length).zip f.coefs).foldl
    (fun best e => if best.2 < e.2.abs then (e.1, e.2.abs) else best) (0, 0)

def tolerance : Fixed := .tenth 9

def slack : Fixed := .tenth 7

def isConst (f : Form) : Bool := f.peak.2 ≤ tolerance

def dust : Fixed := .tenth 30

def clean (f : Form) : Form :=
  { f with coefs := f.coefs.map fun x => if x.abs ≤ dust then 0 else x }

def normalize (f : Form) : Form :=
  let size := f.peak.2
  if size ≤ tolerance then f else f.scale (1 / size)

def clear (g : Form) (j : Nat) (f : Form) : Form := f.addScaled (-(f.coefs.getD j 0)) g

end Form

abbrev Elimination := List (Nat × Form)

namespace Elimination

def takeLargest : List Form → Option (Form × List Form)
  | [] => none
  | f :: fs =>
    match takeLargest fs with
    | none => some (f, [])
    | some (g, gs) => if g.peak.2 < f.peak.2 then some (f, g :: gs) else some (g, f :: gs)

def extend : Nat → List Form → Elimination → Option Elimination
  | 0, fs, solved => if fs.all fun f => f.const.abs ≤ Form.slack then some solved else none
  | fuel + 1, fs, solved =>
    match takeLargest fs with
    | none => some solved
    | some (f, rest) =>
      if f.isConst then
        if (f :: rest).all fun f => f.const.abs ≤ Form.slack then some solved else none
      else
        let j := f.peak.1
        let f := f.scale (1 / f.coefs.getD j 1)
        extend fuel (rest.map fun g => (Form.clear f j g).clean)
          ((j, f) :: solved.map fun e => (e.1, (Form.clear f j e.2).clean))

def ofEquations (fs : List Form) : Option Elimination :=
  extend fs.length (fs.map Form.normalize) []

def reduce (e : Elimination) (f : Form) : Form :=
  (e.foldl (fun f p => Form.clear p.2 p.1 f) f).clean

def kept (e : Elimination) (numVars : Nat) : List Nat :=
  (List.range numVars).filter fun j => !e.any fun p => p.1 = j

def complete (e : Elimination) (numVars : Nat) (values : List Fixed) : List Fixed :=
  let named := (e.kept numVars).zip values
  let x := (List.range numVars).map fun j => ((named.find? (·.1 = j)).map (·.2)).getD 0
  (List.range numVars).map fun j =>
    match e.find? (·.1 = j) with
    | some p => -(p.2.value x)
    | none => x.getD j 0

end Elimination

def Form.restrict (js : List Nat) (f : Form) : Form :=
  { f with coefs := js.map fun j => f.coefs.getD j 0 }

end ConeLift
