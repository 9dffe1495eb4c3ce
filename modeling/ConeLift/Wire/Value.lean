namespace ConeLift

inductive Value where
  | null
  | bool (b : Bool)
  | int (i : Int)
  | real (x : Float)
  | text (s : String)
  | list (xs : List Value)
  | record (fields : List (String × Value))
  deriving Inhabited

namespace Value

def lookup (fields : List (String × Value)) (name : String) : Option Value :=
  (fields.reverse.find? fun f => f.1 = name).map (·.2)

def ofReals (xs : List Float) : Value := .list (xs.map .real)

def ofInts (xs : List Int) : Value := .list (xs.map .int)

def ofNats (xs : List Nat) : Value := .list (xs.map fun n : Nat => .int n)

def ofTexts (xs : List String) : Value := .list (xs.map .text)

end Value

end ConeLift
