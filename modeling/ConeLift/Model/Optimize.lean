import ConeLift.Model.Call
import ConeLift.Model.Violation

/-!
Solving a program by calls to a solver. Without quadratic rows there is one call. With quadratic
rows a first attempt that gives up, without claiming that there is no feasible point, is repeated
inside a box: a feasible point that presses against the box means that the objective has no limit.
-/

namespace ConeLift

inductive Message (α : Type) where
  | note (n : Note α)
  | spelled (n : Note α)
  | boxLimit (limit : α)
  deriving DecidableEq, Inhabited

structure Outcome (α : Type) where
  status : Status
  point : Option (List α)
  objective : Option α
  reducedCosts : Option (List α)
  message : Message α
  iterations : Int
  deriving DecidableEq

structure Attempt (α : Type) where
  outcome : Outcome α
  error : Option Error
  calls : List (Call α)

namespace Outcome

variable {α : Type}

def fresh : Outcome α where
  status := .notSolved
  point := none
  objective := none
  reducedCosts := none
  message := .note (.text "")
  iterations := 0

instance : Inhabited (Outcome α) := ⟨fresh⟩

end Outcome

namespace Program

variable {α : Type} [Scalar α]

def objective (p : Program α) (x : Option (List α)) : Except Error α :=
  match x with
  | some x => if x.length = p.cost.length then .ok (Vec.dot p.cost x) else .error .unfit
  | none => .error .unfit

def unknownCosts (p : Program α) : List α := p.cost.map fun _ => Scalar.undefined

def reducedCosts (p : Program α) (r : Report α) : Except Error (List α) :=
  match r.lowerMarginals, r.upperMarginals with
  | some lo, some hi => (Vec.zip (· + ·) lo hi).map (·.map p.sense.signed)
  | _, _ => .ok p.unknownCosts

def accept (p : Program α) (r : Report α) (base : Outcome α)
    (reduced : Except Error (List α)) : Outcome α × Option Error :=
  let found := { base with status := .optimal, point := r.point }
  match p.objective r.point with
  | .error e => (found, some e)
  | .ok value =>
    let found := { found with objective := some value }
    match reduced with
    | .error e => (found, some e)
    | .ok costs => ({ found with reducedCosts := some costs }, none)

def solveLinear (p : Program α) (o : Options α) (solver : Solver α) : Attempt α :=
  match p.linearCall o with
  | .error e => ⟨.fresh, some e, []⟩
  | .ok call =>
    match solver 0 (.linear call) with
    | .raised e => ⟨.fresh, some e, [.linear call]⟩
    | .returned r =>
      let base := { Outcome.fresh with message := .note r.note.orSilent, iterations := r.count }
      if r.success then
        let (outcome, error) := p.accept r base (p.reducedCosts r)
        ⟨outcome, error, [.linear call]⟩
      else ⟨{ base with status := .ofLinearCode r.code }, none, [.linear call]⟩

/-- Whether an entry lies within the margin of a side of the box that took the place of an
infinite bound. -/
def atSide (margin : α) (x : α) (bound box : α × α) : Bool :=
  (!Scalar.isFinite bound.2 && Scalar.le (box.2 - margin) x) ||
    (!Scalar.isFinite bound.1 && Scalar.le x (box.1 + margin))

def pressesBox (p : Program α) (box : Bounds α) (limit : α) (x : Option (List α)) :
    Except Error Bool :=
  let n := p.columns.lower.length
  let margin := Scalar.decimal 1 2 * limit
  let test (xs : List α) : Bool :=
    (List.zipWith (fun x b => atSide margin x b.1 b.2) xs
      ((p.columns.lower.zip p.columns.upper).zip (box.lower.zip box.upper))).any id
  match x with
  | none => .ok false
  | some [x] => .ok (test (List.replicate n x))
  | some xs => if xs.length = n then .ok (test xs) else .error .unfit

inductive Retry (α : Type) where
  | keep
  | unbounded
  | replace
  | failed (e : Error)

/-- A point of the box counts only if it is feasible for the program itself. -/
def judgeRetry (p : Program α) (o : Options α) (box : Bounds α) (boxed : Report α) : Retry α :=
  match p.violation boxed.point with
  | .error e => .failed e
  | .ok v =>
    if !Scalar.le v o.feasibility then .keep
    else
      match p.pressesBox box o.boxLimit boxed.point with
      | .error e => .failed e
      | .ok true => .unbounded
      | .ok false => if boxed.success then .replace else .keep

def conclude (p : Program α) (o : Options α) (r : Report α) (base : Outcome α) :
    Outcome α × Option Error :=
  if r.success then p.accept r base (.ok p.unknownCosts)
  else
    match Status.ofSmoothCode r.code with
    | .failed =>
      let base := { base with status := .failed }
      match p.violation r.point with
      | .error e => (base, some e)
      | .ok v =>
        if Scalar.lt o.feasibility v then ({ base with status := .infeasible }, none)
        else (base, none)
    | status => ({ base with status }, none)

def solveBoxed (p : Program α) (o : Options α) (solver : Solver α) (first : Report α)
    (base : Outcome α) (calls : List (Call α)) : Attempt α :=
  let prepared := do
    let box ← p.columns.box o.boxLimit
    return (box, ← p.smoothCall o box)
  match prepared with
  | .error e => ⟨base, some e, calls⟩
  | .ok (box, call) =>
    let calls := calls ++ [.smooth call]
    match solver 1 (.smooth call) with
    | .raised e => ⟨base, some e, calls⟩
    | .returned boxed =>
      let base := { base with iterations := base.iterations + boxed.count }
      match p.judgeRetry o box boxed with
      | .failed e => ⟨base, some e, calls⟩
      | .unbounded =>
        ⟨{ base with status := .unbounded, message := .boxLimit o.boxLimit }, none, calls⟩
      | .keep =>
        let (outcome, error) := p.conclude o first base
        ⟨outcome, error, calls⟩
      | .replace =>
        let (outcome, error) := p.conclude o boxed { base with message := .spelled boxed.note }
        ⟨outcome, error, calls⟩

def incompatible : Int := 4

def solveSmooth (p : Program α) (o : Options α) (solver : Solver α) : Attempt α :=
  if p.types.any (· ≠ .continuous) then ⟨.fresh, some .integerWithQuadratic, []⟩
  else
    match p.smoothCall o p.columns with
    | .error e => ⟨.fresh, some e, []⟩
    | .ok call =>
      let calls := [.smooth call]
      match solver 0 (.smooth call) with
      | .raised e => ⟨.fresh, some e, calls⟩
      | .returned r =>
        let base := { Outcome.fresh with message := .spelled r.note, iterations := r.count }
        if !r.success && r.code ≠ incompatible then p.solveBoxed o solver r base calls
        else
          let (outcome, error) := p.conclude o r base
          ⟨outcome, error, calls⟩

def solve (p : Program α) (o : Options α) (solver : Solver α) : Attempt α :=
  if p.quadratics.isEmpty then p.solveLinear o solver else p.solveSmooth o solver

end Program

end ConeLift
