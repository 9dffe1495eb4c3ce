import ConeLift.Text.Whole

namespace ConeLift.Text

def nearest (negative : Bool) (coefficient : Nat) (exponent : Int) : Float :=
  let top := exponent + (Nat.toDigits 10 coefficient).length
  let magnitude :=
    if coefficient = 0 ∨ top < -400 then 0.0
    else if 400 < top then 1.0 / 0.0
    else Float.ofScientific coefficient (exponent < 0) exponent.natAbs
  if negative then -magnitude else magnitude

def plainDigits (cs : List Char) : Option (List Nat) := cs.mapM asciiDigit?

def exponent? (cs : List Char) : Option Int := do
  let (negative, body) := splitSign cs
  let ds ← plainDigits body
  if ds.isEmpty then none else some (applySign negative (ofDigits ds))

def unsigned? (negative : Bool) (cs : List Char) : Option Float := do
  let isMark (c : Char) : Bool := c = 'e' || c = 'E'
  let front := cs.takeWhile fun c => !isMark c
  let e ← match cs.dropWhile fun c => !isMark c with
    | [] => some 0
    | _ :: r => exponent? r
  let (integral, fraction) := splitPoint front
  let is ← plainDigits integral
  let fs ← plainDigits (fraction.getD [])
  if is.isEmpty && fs.isEmpty then none
  else some (nearest negative (ofDigits (is ++ fs)) (e - fs.length))

def number? (cs : List Char) : Option Float :=
  let (negative, body) := splitSign cs
  let word := String.ofList (body.map Char.toLower)
  if word = "inf" ∨ word = "infinity" then some (if negative then -1.0 / 0.0 else 1.0 / 0.0)
  else if word = "nan" then some (0.0 / 0.0)
  else unsigned? negative body

/-- The number behind the space at both ends, or else in the whole text without underscores. -/
def laxNumber? (s : String) : Option Float :=
  match number? (trimEnds isBlank s.toList) with
  | some x => some x
  | none => (dropUnderscores s.toList).bind number?

class Rules where
  whole : String → WholeText
  number? : String → Option Float

instance lax : Rules := ⟨laxWhole, laxNumber?⟩

end ConeLift.Text
