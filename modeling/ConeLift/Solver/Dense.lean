import ConeLift.Solver.Fixed

namespace ConeLift.Dense

def takeLargest : List (List Fixed) → Option (List Fixed × List (List Fixed))
  | [] => none
  | r :: rs =>
    match takeLargest rs with
    | none => some (r, [])
    | some (s, ss) =>
      if (s.headD 0).abs < (r.headD 0).abs then some (r, s :: ss) else some (s, r :: ss)

def clearHead (pivot : List Fixed) : List Fixed → List Fixed
  | [] => []
  | b :: r => List.zipWith (fun y x => y - b * x) r pivot

def solve? : Nat → List (List Fixed) → Option (List Fixed)
  | 0, _ => some []
  | n + 1, rows =>
    match takeLargest rows with
    | none | some ([], _) => none
    | some (a :: r, rest) =>
      if a = 0 then none
      else
        let pivot := r.map (· / a)
        match solve? n (rest.map (clearHead pivot)) with
        | none => none
        | some xs =>
          some (-((List.zipWith (· * ·) pivot (xs ++ [-1])).foldl (· + ·) 0) :: xs)

end ConeLift.Dense
