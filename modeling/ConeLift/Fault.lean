namespace ConeLift

inductive Step where
  | field (name : String)
  | item (position : Nat)
  deriving DecidableEq, Repr

inductive Inconsistency where
  | tripletLengths
  | entryOutside (numRows numCols : Int)
  | objectiveLength (entries : Nat) (columns : Int)
  | rightHandLength (entries : Nat) (rows : Int)
  | unreadableIndex
  deriving DecidableEq, Repr

namespace Inconsistency

def text? : Inconsistency → Option String
  | tripletLengths => some "rows, cols and vals must have the same length."
  | entryOutside m n => some s!"Matrix entry outside of shape ({m}, {n})."
  | objectiveLength k n => some s!"Objective has {k} entries but A has {n} columns."
  | rightHandLength k m => some s!"Right-hand side has {k} entries but A has {m} rows."
  | unreadableIndex => none

end Inconsistency

inductive FaultKind where
  | missing
  | notRecord
  | notList
  | notPair
  | tooLong
  | notInteger
  | integerText
  | integerSize
  | fractional
  | notFinite
  | negative
  | notNumber
  | numberText
  | notText
  | notListed
  | inconsistent (why : Inconsistency)
  deriving DecidableEq, Repr

namespace FaultKind

def code : FaultKind → String
  | missing => "missing"
  | notRecord => "model_type"
  | notList => "list_type"
  | notPair => "tuple_type"
  | tooLong => "too_long"
  | notInteger => "int_type"
  | integerText => "int_parsing"
  | integerSize => "int_parsing_size"
  | fractional => "int_from_float"
  | notFinite => "finite_number"
  | negative => "greater_than_equal"
  | notNumber => "float_type"
  | numberText => "float_parsing"
  | notText => "string_type"
  | notListed => "literal_error"
  | inconsistent _ => "value_error"

def text? : FaultKind → Option String
  | inconsistent why => why.text?
  | _ => none

end FaultKind

structure Fault where
  path : List Step
  kind : FaultKind
  deriving DecidableEq, Repr

abbrev Checked (β : Type) := Except (List Fault) β

namespace Checked

def fail {β : Type} (kind : FaultKind) : Checked β := .error [⟨[], kind⟩]

def under {β : Type} (step : Step) : Checked β → Checked β
  | .ok b => .ok b
  | .error fs => .error (fs.map fun f => { f with path := step :: f.path })

def both {β γ : Type} : Checked β → Checked γ → Checked (β × γ)
  | .ok b, .ok c => .ok (b, c)
  | .ok _, .error gs => .error gs
  | .error fs, .ok _ => .error fs
  | .error fs, .error gs => .error (fs ++ gs)

def items {β γ : Type} (check : β → Checked γ) : Nat → List β → Checked (List γ)
  | _, [] => .ok []
  | i, x :: xs =>
    (both ((check x).under (.item i)) (items check (i + 1) xs)).map fun p => p.1 :: p.2

end Checked

end ConeLift
