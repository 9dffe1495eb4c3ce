import ConeLift.Model.Optimize

/-!
The solver model: at most one program, and the outcome of the last attempt to solve it. An
operation that fails returns the model unchanged; only an attempt to solve may leave a trace and
still fail. Every change of the program discards the outcome.
-/

namespace ConeLift

structure Model (α : Type) where
  program : Option (Program α)
  outcome : Outcome α
  deriving DecidableEq

namespace Model

variable {α : Type} [Scalar α]

def empty : Model α := ⟨none, .fresh⟩

def change (m : Model α) : Except Error (Program α) → Except Error Unit × Model α
  | .ok p => (.ok (), ⟨some p, .fresh⟩)
  | .error e => (.error e, m)

def load (m : Model α) (d : LinearData α) (sense : String) : Except Error Unit × Model α :=
  m.change (Program.ofData d sense)

def loadLinear (m : Model α) (l : LinearModel α) (sense : String) :
    Except Error Unit × Model α :=
  m.change <|
    match Sense.ofText? sense with
    | none => .error (.unknownSense sense)
    | some s => Program.ofLinear l s

def addQuadratic (m : Model α) (d : QuadraticData α) (relation : String) :
    Except Error Unit × Model α :=
  m.change <|
    match m.program with
    | none => .error .quadraticBeforeLoad
    | some p => p.addQuadratic d relation

def setTypes (m : Model α) (texts : List String) : Except Error Unit × Model α :=
  match m.program with
  | some p =>
    m.change ((Program.readTypes p.types.length texts).map fun types => { p with types })
  | none =>
    match Program.readTypes 0 texts with
    | .ok _ => (.ok (), { m with outcome := .fresh })
    | .error e => (.error e, m)

def optimize (m : Model α) (o : Options α) (solver : Solver α) :
    Except Error Unit × Model α × List (Call α) :=
  match m.program with
  | none => (.error .nothingLoaded, m, [])
  | some p =>
    let a := p.solve o solver
    let result := match a.error with
      | none => .ok ()
      | some e => .error e
    (result, { m with outcome := a.outcome }, a.calls)

def status (m : Model α) : Status := m.outcome.status

def solution (m : Model α) : Except Error (List α) :=
  match m.outcome.point with
  | some x => .ok x
  | none => .error (.noSolution m.outcome.status)

/-- Absent when the solution does not fit the program. -/
def objective (m : Model α) : Except Error (Option α) :=
  match m.outcome.point with
  | some _ => .ok m.outcome.objective
  | none => .error (.noSolution m.outcome.status)

def reducedCosts (m : Model α) : Except Error (List α) :=
  match m.outcome.point, m.outcome.reducedCosts with
  | some _, some costs => .ok costs
  | some _, none => .error .wrongType
  | none, _ => .error (.noSolution m.outcome.status)

def types (m : Model α) : List VarType := (m.program.map Program.types).getD []

def numVar (m : Model α) : Nat := (m.program.map fun p => p.cost.length).getD 0

def numConstr (m : Model α) : Nat := (m.program.map fun p => p.matrix.numRows).getD 0

def numQuadratic (m : Model α) : Nat := (m.program.map fun p => p.quadratics.length).getD 0

def violation (m : Model α) (x : Option (List α)) : Except Error α :=
  match m.program with
  | some p => p.violation x
  | none =>
    match x with
    | some x => if x.all Scalar.isFinite then .error .unfit else .ok Scalar.infinity
    | none => .ok Scalar.infinity

end Model

end ConeLift
