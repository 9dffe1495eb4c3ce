import ConeLift.Instance.Basic
import ConeLift.Instance.Twister

namespace ConeLift.Instance

def ofSeed (n coneSize seed : Int) : Checked (Problem Float) :=
  let numbers := ((Twister.ofSeed seed).take (drawCount n coneSize)).toArray
  generate n coneSize fun k => numbers.getD k 0

end ConeLift.Instance
