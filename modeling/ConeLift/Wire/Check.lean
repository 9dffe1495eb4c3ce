import ConeLift.Decimal.Binary
import ConeLift.Fault
import ConeLift.Options
import ConeLift.Problem
import ConeLift.Text.Number
import ConeLift.Wire.Value

/-!
Reading cones, matrices, problems and options from documents. Numbers are read leniently: a whole
number may be a flag, a machine number without a fraction or a text. All faults of the fields are
collected; only when there are none is a record looked at as a whole.
-/

namespace ConeLift.Value

open Checked

def wholeLimit : Rat := 2 ^ (63 : Nat)

def wholeOfReal (x : Float) : Checked Int :=
  match exactValue? x with
  | none => fail .notFinite
  | some q =>
    if q.den ≠ 1 then fail .fractional
    else if -wholeLimit < q ∧ q < wholeLimit then .ok q.num
    else fail .integerSize

def realOfInt? (i : Int) : Option Float :=
  let x := Float.ofInt i
  if x.isInf then none else some x

def toText : Value → Checked String
  | .text s => .ok s
  | _ => fail .notText

def toList {β : Type} (check : Value → Checked β) : Value → Checked (List β)
  | .list xs => items check 0 xs
  | _ => fail .notList

def toRecord : Value → Checked (List (String × Value))
  | .record fields => .ok fields
  | _ => fail .notRecord

def required {β : Type} (fields : List (String × Value)) (name : String)
    (check : Value → Checked β) : Checked β :=
  under (.field name) (match lookup fields name with
    | some v => check v
    | none => fail .missing)

def optional {β : Type} (fields : List (String × Value)) (name : String)
    (check : Value → Checked β) (absent : β) : Checked β :=
  match lookup fields name with
  | some v => under (.field name) (check v)
  | none => .ok absent

def toKind : Value → Checked Kind
  | .text s =>
    match Kind.ofName? s with
    | some k => .ok k
    | none => fail .notListed
  | _ => fail .notListed

def toMethod : Value → Checked Unit
  | .text s => if s = Options.smoothMethod then .ok () else fail .notListed
  | _ => fail .notListed

def orInvalid {β : Type} : Checked β → Except Error β
  | .ok b => .ok b
  | .error fs => .error (.invalid fs)

section

variable [Text.Rules]

def toInt : Value → Checked Int
  | .int i => .ok i
  | .bool b => .ok (if b then 1 else 0)
  | .real x => wholeOfReal x
  | .text s =>
    match Text.Rules.whole s with
    | .value i => .ok i
    | .unreadable => fail .integerText
    | .tooLong => fail .integerSize
  | _ => fail .notInteger

def toNat (v : Value) : Checked Nat := do
  let i ← v.toInt
  if i < 0 then fail .negative else .ok i.toNat

def toReal : Value → Checked Float
  | .real x => .ok x
  | .int i =>
    match realOfInt? i with
    | some x => .ok x
    | none => fail .notNumber
  | .bool b => .ok (if b then 1.0 else 0.0)
  | .text s =>
    match Text.Rules.number? s with
    | some x => .ok x
    | none => fail .numberText
  | _ => fail .notNumber

def toPair : Value → Checked (Int × Int)
  | .list (_ :: _ :: _ :: _) => fail .tooLong
  | .list xs =>
    let place (i : Nat) : Checked Int :=
      under (.item i) (match xs[i]? with
        | some v => v.toInt
        | none => fail .missing)
    both (place 0) (place 1)
  | _ => fail .notPair

/-- A list of natural numbers, or a single whole number or flag in place of a list. -/
def toIndices : Value → Checked (List Nat)
  | .int i => items toNat 0 [.int i]
  | .bool b => items toNat 0 [.bool b]
  | v => v.toList toNat

def coneOfFields (fields : List (String × Value)) : Checked Cone :=
  (both (required fields "kind" toKind) (optional fields "indices" toIndices [])).map
    fun p => ⟨p.1, p.2⟩

def toCone (v : Value) : Checked Cone := do coneOfFields (← v.toRecord)

def tripletsOfFields (fields : List (String × Value)) : Checked (Triplets Float) := do
  let (shape, rows, cols, vals) ←
    both (required fields "shape" toPair) <|
      both (optional fields "rows" (toList toInt) []) <|
        both (optional fields "cols" (toList toInt) []) <|
          optional fields "vals" (toList toReal) []
  let T : Triplets Float := ⟨shape.1, shape.2, rows, cols, vals⟩
  match T.inconsistency? with
  | some why => fail (.inconsistent why)
  | none => .ok T

def toTriplets (v : Value) : Checked (Triplets Float) := do tripletsOfFields (← v.toRecord)

def problemOfFields (fields : List (String × Value)) : Checked (Problem Float) := do
  let (name, cost, matrix, rightHand, constraintCones, variableCones) ←
    both (optional fields "name" toText "problem") <|
      both (required fields "c" (toList toReal)) <|
        both (required fields "A" toTriplets) <|
          both (required fields "b" (toList toReal)) <|
            both (optional fields "constr_cones" (toList toCone) []) <|
              optional fields "var_cones" (toList toCone) []
  let P : Problem Float := { name, cost, matrix, rightHand, constraintCones, variableCones }
  match P.inconsistency? with
  | some why => fail (.inconsistent why)
  | none => .ok P

def toProblem (v : Value) : Checked (Problem Float) := do problemOfFields (← v.toRecord)

def optionsOfFields (fields : List (String × Value)) : Checked (Options Float) :=
  let d := Options.default Float
  (both (optional fields "max_iters" toInt d.maxIters) <|
    both (optional fields "tol" toReal d.tolerance) <|
      both (optional fields "feas_tol" toReal d.feasibility) <|
        both (optional fields "box_limit" toReal d.boxLimit) <|
          optional fields "qp_method" toMethod ()).map
    fun (maxIters, tolerance, feasibility, boxLimit, _) =>
      { maxIters, tolerance, feasibility, boxLimit }

def toOptions (v : Value) : Checked (Options Float) := do optionsOfFields (← v.toRecord)

/-- A cone given as a record, or as a pair of a kind and indices; a text of two characters counts
as a pair as well. -/
def readCone : Value → Except Error Cone
  | .record fields => orInvalid (coneOfFields fields)
  | .list [kind, indices] => ofPair kind indices
  | .list _ => .error .unfit
  | .text s =>
    match s.toList with
    | [a, b] => ofPair (.text (String.ofList [a])) (.text (String.ofList [b]))
    | _ => .error .unfit
  | _ => .error .wrongType
where
  ofPair (kind indices : Value) : Except Error Cone :=
    orInvalid (coneOfFields [("kind", kind), ("indices", indices)])

end

end ConeLift.Value
