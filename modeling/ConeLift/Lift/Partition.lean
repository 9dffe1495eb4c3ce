import ConeLift.Cone

namespace ConeLift

structure Partition where
  linear : List (Nat × Kind)
  secondOrder : List Nat
  deriving DecidableEq

namespace Partition

def ofCones (cones : List Cone) : Partition where
  linear := (cones.filter fun k => !k.isSecondOrder).flatMap fun k =>
    k.indices.map fun i => (i, k.kind)
  secondOrder := (cones.filter Cone.isSecondOrder).flatMap Cone.indices

def numAux (p : Partition) : Nat := p.secondOrder.length

end Partition

end ConeLift
