import ConeLift.Bridge
import ConeLift.Lift.View

namespace ConeLift

inductive Answer (β : Type) where
  | found (b : β)
  | declined (text : String)
  deriving DecidableEq

namespace Error

def account : Error → String
  | .refused => "Invalid input for linprog"
  | e => (e.text?).getD ""

def isUnliftable (e : Error) : Bool := e.family = .unsupportedCone || e.family = .dimension

def isAboutValues (e : Error) : Bool :=
  e.isUnliftable || e.family = .value || e.family = .validation

end Error

variable {α : Type} [Scalar α]

def Problem.reformulate (P : Problem α) : Except Error (Answer (LiftedView α)) :=
  match P.toData.bind Lifted.build with
  | .ok p => .ok (.found p.view)
  | .error e => if e.isUnliftable then .ok (.declined e.account) else .error e

/-- The solution of a conic problem. The first `numVariables` entries of `extended` are those of
the problem itself. -/
structure Solution (α : Type) where
  status : Status
  objective : Option α
  point : Option (List α)
  extended : Option (List α)
  reducedCosts : Option (List (Option α))
  numVariables : Nat
  numAuxiliary : Nat
  numLinear : Nat
  numQuadratic : Nat
  message : Message α
  deriving DecidableEq

namespace Solution

def isText : Message α → Bool
  | .note (.int _) | .note (.real _) => false
  | _ => true

def optimal (m : Model α) : Except Error (List α × α × List α) := do
  let x ← m.solution
  match ← m.objective with
  | none => throw .wrongType
  | some value => return (x, value, ← m.reducedCosts)

def ofModel (p : Lifted α) (m : Model α) : Except Error (Solution α) := do
  let values ← if m.status = .optimal then (optimal m).map some else .ok none
  if !isText m.outcome.message then
    throw (.invalid [⟨[.field "message"], .notText⟩])
  return {
    status := m.status
    objective := values.map fun v => v.2.1
    point := values.map fun v => v.1.take p.numOrig
    extended := values.map fun v => v.1
    reducedCosts := values.map fun v => v.2.2.map finite?
    numVariables := p.numOrig
    numAuxiliary := p.numAux
    numLinear := p.numLinear
    numQuadratic := p.quadratics.length
    message := m.outcome.message }

end Solution

def Problem.solve (P : Problem α) (o : Options α) (solver : Solver α) :
    Except Error (Answer (Solution α)) × List (Call α) :=
  let B := Model.backend o solver
  match Bridge.loadProblem B ⟨none, (Model.empty, [])⟩ P with
  | (.error e, s) => (if e.isUnliftable then .ok (.declined e.account) else .error e, s.inner.2)
  | (.ok (), s) =>
    let (result, model, calls) := B.optimize s.inner
    match result with
    | .error e =>
      (if e.isAboutValues then .ok (.declined ("Failed to solve problem: " ++ e.account))
        else .error e, calls)
    | .ok () => ((s.lifted.bind fun p => Solution.ofModel p model).map .found, calls)

end ConeLift
