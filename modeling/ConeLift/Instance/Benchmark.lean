import ConeLift.Bridge
import ConeLift.Decimal.Layout
import ConeLift.Instance.Seeded

namespace ConeLift.Instance

def diet : Problem Float where
  name := "diet-toy"
  cost := [3, 2]
  matrix := ⟨2, 2, [0, 0, 1, 1], [0, 1, 0, 1], [1, 2, 3, 1]⟩
  rightHand := [8, 6]
  constraintCones := [⟨.nonpos, [0, 1]⟩]
  variableCones := [⟨.nonneg, [0, 1]⟩]

def distance : Problem Float where
  name := "distance-to-origin"
  cost := [1, 0, 0]
  matrix := ⟨3, 3, [0, 1, 2], [0, 1, 2], [-1, 1, 1]⟩
  rightHand := [0, 3, 4]
  constraintCones := [⟨.secondOrder, [0, 1, 2]⟩]
  variableCones := [⟨.free, [0]⟩, ⟨.nonpos, [1, 2]⟩]

structure BenchmarkRow where
  name : String
  status : Status
  objective : Option Float
  numAux : Nat
  numQuadratic : Nat

namespace BenchmarkRow

def header : List String := ["name", "status", "objective", "auxiliary", "quadratic"]

def cells (r : BenchmarkRow) : List String :=
  [r.name, r.status.text, (r.objective.map Decimal.exactText).getD "None", toString r.numAux,
    toString r.numQuadratic]

def ofProblem (solver : Solver Float) (name : String) (P : Problem Float) :
    Except Error BenchmarkRow := do
  let B := Model.backend (.default Float) solver
  let (loaded, s) := Bridge.loadProblem B ⟨none, (Model.empty, [])⟩ P
  loaded
  let lifted ← s.lifted
  let (solved, model, _) := B.optimize s.inner
  solved
  let objective ← if model.status = .optimal then model.objective else .ok none
  return {
    name := name
    status := model.status
    objective := objective
    numAux := lifted.numAux
    numQuadratic := lifted.quadratics.length }

end BenchmarkRow

def seeds : List Int := [0, 1, 2]

def cases : Except Error (List (String × Problem Float)) := do
  let random ← seeds.mapM fun (seed : Int) =>
    match ofSeed 4 3 seed with
    | .ok P => .ok ("random-" ++ toString seed, P)
    | .error fs => .error (Error.invalid fs)
  return ("examples/small_lp.json", diet) :: ("examples/small_socp.json", distance) :: random

def benchmark (solver : Solver Float) : Except Error (List BenchmarkRow) := do
  (← cases).mapM fun c => BenchmarkRow.ofProblem solver c.1 c.2

def benchmarkText (rows : List BenchmarkRow) : String :=
  "\n".intercalate ((BenchmarkRow.header :: rows.map BenchmarkRow.cells).map (",".intercalate ·))

end ConeLift.Instance
