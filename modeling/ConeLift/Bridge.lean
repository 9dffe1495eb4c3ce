import ConeLift.Backend

namespace ConeLift

structure Kept (α : Type) where
  numbers : Numbers α
  constraintCones : List Cone
  variableCones : List Cone
  lifted : Lifted α
  deriving DecidableEq

def Kept.ofData {α : Type} [Scalar α] (d : ConicData α) : Except Error (Kept α) := do
  Lifted.checkKinds d.constraintCones d.variableCones
  let numbers ← Lifted.readNumbers d
  let lifted ← Lifted.ofNumbers numbers d.constraintCones d.variableCones
  return {
    numbers := numbers
    constraintCones := d.constraintCones
    variableCones := d.variableCones
    lifted := lifted }

structure Bridge (α σ : Type) where
  kept : Option (Kept α)
  inner : σ

namespace Bridge

variable {α σ : Type} [Scalar α]

/-- The lift is built before the backend is touched. -/
def load (B : Backend α σ) (s : Bridge α σ) (d : ConicData α) :
    Except Error Unit × Bridge α σ :=
  match Kept.ofData d with
  | .error e => (.error e, s)
  | .ok kept =>
    match B.loadLifted kept.lifted s.inner with
    | (.ok (), inner) => (.ok (), ⟨some kept, inner⟩)
    | (.error e, inner) => (.error e, { s with inner })

def loadProblem (B : Backend α σ) (s : Bridge α σ) (P : Problem α) :
    Except Error Unit × Bridge α σ :=
  match P.toData with
  | .ok d => load B s d
  | .error e => (.error e, s)

def lifted (s : Bridge α σ) : Except Error (Lifted α) :=
  match s.kept with
  | some k => .ok k.lifted
  | none => .error .noConicProblem

def numVar (s : Bridge α σ) : Except Error Nat := s.lifted.map Lifted.numOrig

def numConstr (s : Bridge α σ) : Except Error Nat := s.lifted.map Lifted.numLinear

def onInner {β : Type} (f : σ → Except Error β × σ) (s : Bridge α σ) :
    Except Error β × Bridge α σ :=
  let (r, inner) := f s.inner
  (r, { s with inner })

end Bridge

end ConeLift
