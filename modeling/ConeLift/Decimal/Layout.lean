import ConeLift.Decimal.Shortest

namespace ConeLift.Decimal

structure Layout where
  leastPositional : Int
  mostPositional : Int
  wholeSuffix : String

def exactLayout : Layout := ⟨-4, 15, ".0"⟩

def generalLayout : Layout := ⟨-4, 5, ""⟩

def generalDigits : Nat := 6

def zeros (n : Nat) : String := String.ofList (List.replicate n '0')

def Scaled.significant (s : Scaled) : List Char × Int :=
  let all := Nat.toDigits 10 s.coefficient
  let kept := (all.reverse.dropWhile (· = '0')).reverse
  (if kept.isEmpty then ['0'] else kept, s.exponent + all.length - 1)

def exponentText (e : Int) : String :=
  let digits := toString e.natAbs
  (if e < 0 then "e-" else "e+") ++ zeros (2 - digits.length) ++ digits

def Layout.text (L : Layout) (s : Scaled) : String :=
  let (digits, e) := s.significant
  if L.leastPositional ≤ e ∧ e ≤ L.mostPositional then
    if e < 0 then "0." ++ zeros ((-e).toNat - 1) ++ String.ofList digits
    else
      let whole := digits.take (e.toNat + 1)
      let rest := digits.drop (e.toNat + 1)
      String.ofList whole ++ zeros (e.toNat + 1 - whole.length) ++
        (if rest.isEmpty then L.wholeSuffix else "." ++ String.ofList rest)
  else
    match digits with
    | [] => exponentText e
    | d :: rest =>
      String.ofList [d] ++ (if rest.isEmpty then "" else "." ++ String.ofList rest) ++
        exponentText e

def textWith (L : Layout) (scale : Nat → Int → Scaled) (x : Float) : String :=
  match Binary.ofFloat? x with
  | some b =>
    (if b.negative then "-" else "") ++
      L.text (if b.mantissa = 0 then ⟨0, 0⟩ else scale b.mantissa b.exponent)
  | none => if x.isNaN then "nan" else if x < 0 then "-inf" else "inf"

def exactText (x : Float) : String := textWith exactLayout shortest x

def generalText (x : Float) : String := textWith generalLayout (rounded generalDigits) x

end ConeLift.Decimal
