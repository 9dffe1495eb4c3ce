import ConeLift.Solver.Linear
import ConeLift.Solver.Smooth

namespace ConeLift

def solve : Solver Float := fun _ call =>
  match call with
  | .linear c => c.solve
  | .smooth c => c.solve

end ConeLift
