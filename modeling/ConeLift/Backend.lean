import ConeLift.Model.Basic

namespace ConeLift

structure Backend (α σ : Type) where
  load : LinearModel α → (sense : String) → σ → Except Error Unit × σ
  addQuadratic : QuadraticRow α → (relation : String) → σ → Except Error Unit × σ
  setTypes : List String → σ → Except Error Unit × σ
  optimize : σ → Except Error Unit × σ
  status : σ → String
  types : σ → List String
  solution : σ → Except Error (List α)
  objective : σ → Except Error (Option α)
  reducedCosts : σ → Except Error (List α)

namespace Backend

variable {α σ : Type}

def addQuadratics (B : Backend α σ) : List (QuadraticRow α) → σ → Except Error Unit × σ
  | [], s => (.ok (), s)
  | q :: qs, s =>
    match B.addQuadratic q QuadraticRow.relation s with
    | (.ok (), s) => B.addQuadratics qs s
    | (.error e, s) => (.error e, s)

def loadLifted (B : Backend α σ) (p : Lifted α) (s : σ) : Except Error Unit × σ :=
  match B.load p.toLinear Sense.minimize.text s with
  | (.ok (), s) => B.addQuadratics p.quadratics s
  | (.error e, s) => (.error e, s)

end Backend

namespace Model

variable {α : Type} [Scalar α]

def backend (o : Options α) (solver : Solver α) : Backend α (Model α × List (Call α)) where
  load l sense s :=
    let (r, m) := s.1.loadLinear l sense
    (r, m, s.2)
  addQuadratic q relation s :=
    let (r, m) := s.1.addQuadratic q.ready relation
    (r, m, s.2)
  setTypes texts s :=
    let (r, m) := s.1.setTypes texts
    (r, m, s.2)
  optimize s :=
    let (r, m, calls) := s.1.optimize o solver
    (r, m, s.2 ++ calls)
  status s := s.1.status.text
  types s := s.1.types.map VarType.text
  solution s := s.1.solution
  objective s := s.1.objective
  reducedCosts s := s.1.reducedCosts

end Model

end ConeLift
