import ConeLift.Backend

namespace ConeLift

inductive Recorded (α : Type) where
  | load (m : LinearModel α) (sense : String)
  | quadratic (q : QuadraticRow α) (relation : String)
  | types (texts : List String)
  | optimize
  deriving DecidableEq

structure Recorder (α : Type) where
  calls : List (Recorded α)
  numVar : Nat
  numConstr : Nat
  types : List String
  deriving DecidableEq

namespace Recorder

variable {α : Type} [Scalar α]

def empty : Recorder α := ⟨[], 0, 0, []⟩

def record (s : Recorder α) (c : Recorded α) : Recorder α := { s with calls := s.calls ++ [c] }

def ramp (step : α) : Nat → List α
  | 0 => []
  | n + 1 => 0 :: (ramp step n).map (· + step)

def backend : Backend α (Recorder α) where
  load m sense s :=
    (.ok (), { s.record (.load m sense) with
      numVar := m.numVar
      numConstr := m.numConstr
      types := List.replicate m.numVar VarType.continuous.text })
  addQuadratic q relation s := (.ok (), s.record (.quadratic q relation))
  setTypes texts s := (.ok (), { s.record (.types texts) with types := texts })
  optimize s := (.ok (), s.record .optimize)
  status _ := "recorded"
  types s := s.types
  solution s := .ok (ramp 1 s.numVar)
  objective _ := .ok (some (Scalar.decimal 42 0))
  reducedCosts s := .ok (ramp (-1) s.numVar)

end Recorder

end ConeLift
