import ConeLift.Cone
import ConeLift.Fault
import ConeLift.Status

namespace ConeLift

inductive Error where
  | unsupported (kind : Kind)
  | shapeMismatch (numRows numCols costs rightHand : Nat)
  | outOfBounds (index : Int) (size : Nat)
  | noSuchIndex
  | tooLarge
  | unfit
  | wrongType
  | unknownSense (text : String)
  | columnMismatch (columns costs : Nat)
  | rowMismatch (rows : Nat)
  | crossedBounds
  | quadraticBeforeLoad
  | quadraticSense (text : String)
  | linearLengths
  | quadraticLengths
  | noSuchVariable (index : Int) (size : Nat)
  | typeCount (expected given : Nat)
  | unknownType (text : String)
  | nothingLoaded
  | integerWithQuadratic
  | noSolution (status : Status)
  | noConicProblem
  | solver (text : String)
  | refused
  | invalid (faults : List Fault)
  deriving DecidableEq, Repr

inductive ErrorFamily where
  | unsupportedCone
  | dimension
  | value
  | index
  | type
  | state
  | overflow
  | validation
  deriving DecidableEq, Repr

namespace Error

def family : Error → ErrorFamily
  | unsupported _ => .unsupportedCone
  | shapeMismatch .. => .dimension
  | outOfBounds .. | noSuchIndex | noSuchVariable .. => .index
  | tooLarge => .overflow
  | wrongType => .type
  | quadraticBeforeLoad | nothingLoaded | noSolution _ | noConicProblem => .state
  | invalid _ => .validation
  | _ => .value

def text? : Error → Option String
  | unsupported k => some s!"Cone type {k.name} not supported"
  | shapeMismatch m n c b =>
    some s!"A has shape ({m}, {n}) but c has {c} entries and b has {b}."
  | outOfBounds i n => some s!"index {i} is out of bounds for axis 0 with size {n}"
  | noSuchIndex | tooLarge | unfit | wrongType | refused | invalid _ => none
  | unknownSense s => some s!"Unknown objective sense '{s}'."
  | columnMismatch k n => some s!"Column data disagrees: A has {k} columns, c has {n} entries."
  | rowMismatch m => some s!"Row bounds disagree with the {m} rows of A."
  | crossedBounds => some "Variable has inconsistent bounds (lb > ub)."
  | quadraticBeforeLoad => some "Load a problem before adding quadratic constraints."
  | quadraticSense s => some s!"Only '<=' quadratic constraints are supported, got '{s}'."
  | linearLengths => some "Linear indices and coefficients differ in length."
  | quadraticLengths => some "Quadratic indices and coefficients differ in length."
  | noSuchVariable i n =>
    let last : Int := n - 1
    some s!"Quadratic constraint references variable {i} outside 0..{last}."
  | typeCount k n => some s!"Expected {k} variable types, got {n}."
  | unknownType s => some s!"Unknown variable type '{s}'."
  | nothingLoaded => some "No problem loaded."
  | integerWithQuadratic =>
    some "Integer variables are not supported together with quadratic constraints."
  | noSolution s => some s!"No solution available (status: {s.text})."
  | noConicProblem => some "No conic problem has been loaded."
  | solver s => some s

end Error

end ConeLift
