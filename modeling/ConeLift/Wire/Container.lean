import ConeLift.Decimal.Layout
import ConeLift.Wire.Check

namespace ConeLift

inductive Container where
  | single (v : Value)
  | tuple (xs : List Value)
  | array (xs : List Value)
  | range (start stop step : Int)

inductive ElementError where
  | unreadable
  | stop (e : Error)
  deriving DecidableEq

namespace Container

def truncate (x : Float) : Except ElementError Int :=
  match exactValue? x with
  | some q => .ok (Int.tdiv q.num q.den)
  | none => if x.isNaN then .error .unreadable else .error (.stop .tooLarge)

def element : Value → Except ElementError Int
  | .int i => .ok i
  | .bool b => .ok (if b then 1 else 0)
  | .real x => truncate x
  | .text s =>
    match Text.whole? s with
    | some i => .ok i
    | none => .error .unreadable
  | _ => .error (.stop .wrongType)

def isNested : Value → Bool
  | .list _ => true
  | _ => false

def isText : Value → Bool
  | .text _ => true
  | _ => false

def isReal : Value → Bool
  | .real _ => true
  | _ => false

def isOther : Value → Bool
  | .null | .record _ => true
  | _ => false

def isWide (v : Value) : Bool :=
  match v with
  | .int i => Int.pow 2 63 ≤ i && i < Int.pow 2 64
  | _ => false

def isHuge (v : Value) : Bool :=
  match v with
  | .int i => i < -Int.pow 2 63 || Int.pow 2 64 ≤ i
  | _ => false

def asReal : Value → Value
  | .int i => .real (Float.ofInt i)
  | .bool b => .real (if b then 1.0 else 0.0)
  | v => v

def asText : Value → Value
  | .int i => .text (toString i)
  | .bool b => .text (if b then "True" else "False")
  | .real x => .text (Decimal.exactText x)
  | v => v

/-- The elements of an array in their common type: texts if there is one, else machine numbers if
there is one or if signed and unsigned words meet. -/
def unify (xs : List Value) : List Value :=
  if xs.any isOther then xs
  else if xs.any isText then xs.map asText
  else if xs.any isReal then xs.map asReal
  else if xs.any isHuge || !xs.any isWide || xs.all isWide then xs
  else xs.map asReal

def isRectangular (xs : List Value) : Bool :=
  match xs.filterMap (fun | .list r => some r.length | _ => none) with
  | [] => true
  | n :: ns => ns.length + 1 = xs.length && ns.all (· = n)

def rangeValues (start stop step : Int) : List Int :=
  let count := if 0 < step then (stop - start + step - 1) / step
    else (start - stop + -step - 1) / -step
  (List.range count.toNat).map fun k : Nat => start + k * step

def elements : Container → Except ElementError (List Int)
  | .single v => (element v).map fun i => [i]
  | .tuple xs => xs.mapM element
  | .array xs =>
    if !isRectangular xs then .error (.stop .unfit)
    else if xs.any isNested then .error (.stop .wrongType)
    else (unify xs).mapM element
  | .range start stop step =>
    if step = 0 then .error (.stop .unfit) else .ok (rangeValues start stop step)

def readCone (fields : List (String × Value)) (c : Container) : Except Error Cone :=
  let kind := Value.required fields "kind" Value.toKind
  match c.elements with
  | .error (.stop e) => .error e
  | .error .unreadable =>
    let indices : Checked (List Nat) :=
      Checked.under (.field "indices") (Checked.fail (.inconsistent .unreadableIndex))
    Value.orInvalid ((Checked.both kind indices).map fun p => ⟨p.1, p.2⟩)
  | .ok is =>
    let indices := Checked.under (.field "indices")
      (Value.toIndices (.list (is.map Value.int)))
    Value.orInvalid ((Checked.both kind indices).map fun p => ⟨p.1, p.2⟩)

end Container

end ConeLift
