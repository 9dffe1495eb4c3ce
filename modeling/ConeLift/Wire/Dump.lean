import ConeLift.Answer.Basic
import ConeLift.Decimal.Layout
import ConeLift.Wire.Value

namespace ConeLift

namespace Value

def ofOption {β : Type} (f : β → Value) : Option β → Value
  | none => null
  | some b => f b

def ofOptionalReals (xs : List (Option Float)) : Value := .list (xs.map (ofOption .real))

end Value

def Cone.toValue (k : Cone) : Value :=
  .record [("kind", .text k.kind.name), ("indices", .ofNats k.indices)]

def Triplets.toValue (T : Triplets Float) : Value :=
  .record [
    ("shape", .list [.int T.numRows, .int T.numCols]),
    ("rows", .ofInts T.rows),
    ("cols", .ofInts T.cols),
    ("vals", .ofReals T.vals)]

def Problem.toValue (P : Problem Float) : Value :=
  .record [
    ("name", .text P.name),
    ("c", .ofReals P.cost),
    ("A", P.matrix.toValue),
    ("b", .ofReals P.rightHand),
    ("constr_cones", .list (P.constraintCones.map Cone.toValue)),
    ("var_cones", .list (P.variableCones.map Cone.toValue))]

def Options.toValue (o : Options Float) : Value :=
  .record [
    ("max_iters", .int o.maxIters),
    ("tol", .real o.tolerance),
    ("feas_tol", .real o.feasibility),
    ("box_limit", .real o.boxLimit),
    ("qp_method", .text Options.smoothMethod)]

namespace QuadraticRow

def leftFields (q : QuadraticRow Float) : List (String × Value) :=
  [("linear_idx", .ofInts q.linearIndex),
    ("linear_coef", .ofReals q.linearCoef),
    ("quad_row_idx", .ofInts q.rowIndex),
    ("quad_col_idx", .ofInts q.colIndex),
    ("quad_coef", .ofReals q.coef)]

def toValue (q : QuadraticRow Float) : Value :=
  .record (q.leftFields ++ [("sense", .text relation), ("rhs", .real q.bound)])

end QuadraticRow

def LiftedView.toValue (v : LiftedView Float) : Value :=
  .record [
    ("sense", .text v.sense.text),
    ("c", .ofReals v.cost),
    ("l", .ofOptionalReals v.lower),
    ("u", .ofOptionalReals v.upper),
    ("A", v.matrix.toValue),
    ("lb", .ofOptionalReals v.rowLower),
    ("ub", .ofOptionalReals v.rowUpper),
    ("num_orig", .int v.numOrig),
    ("num_aux", .int v.numAux),
    ("num_linear", .int v.numLinear),
    ("quad_constraints", .list (v.quadratics.map QuadraticRow.toValue))]

def Note.spell : Note Float → String
  | .none => "None"
  | .text s => s
  | .int i => toString i
  | .real x => Decimal.exactText x

namespace Message

def boxLimitText (limit : Float) : String :=
  "Objective keeps improving up to the box limit " ++ Decimal.generalText limit ++ "."

def toValue : Message Float → Value
  | .note .none => .text ""
  | .note (.text s) => .text s
  | .note (.int i) => .int i
  | .note (.real x) => .real x
  | .spelled n => .text n.spell
  | .boxLimit limit => .text (boxLimitText limit)

end Message

def Solution.toValue (s : Solution Float) : Value :=
  .record [
    ("status", .text s.status.text),
    ("objective_value", .ofOption .real s.objective),
    ("x", .ofOption .ofReals s.point),
    ("x_extended", .ofOption .ofReals s.extended),
    ("reduced_costs", .ofOption .ofOptionalReals s.reducedCosts),
    ("num_variables", .int s.numVariables),
    ("num_auxiliary", .int s.numAuxiliary),
    ("num_linear_constraints", .int s.numLinear),
    ("num_quadratic_constraints", .int s.numQuadratic),
    ("message", s.message.toValue)]

def Answer.toValue {β : Type} (name : String) (f : β → Value) : Answer β → Value
  | .found b => .record [(name, f b)]
  | .declined text => .record [("error", .text text), (name, .null)]

end ConeLift
