import ConeLift.Scalar

namespace ConeLift

structure Options (α : Type) where
  maxIters : Int
  tolerance : α
  feasibility : α
  boxLimit : α
  deriving DecidableEq, Inhabited

namespace Options

def default (α : Type) [Scalar α] : Options α where
  maxIters := 10000
  tolerance := Scalar.decimal 1 9
  feasibility := Scalar.decimal 1 6
  boxLimit := Scalar.decimal 10000 0

def smoothMethod : String := "SLSQP"

def linearMethod : String := "highs"

end Options

end ConeLift
