namespace ConeLift

inductive Status where
  | notSolved
  | optimal
  | infeasible
  | unbounded
  | iterationLimit
  | failed
  deriving DecidableEq, Repr, Inhabited

namespace Status

def text : Status → String
  | notSolved => "not_solved"
  | optimal => "optimal"
  | infeasible => "infeasible"
  | unbounded => "unbounded"
  | iterationLimit => "iteration_limit"
  | failed => "error"

def ofLinearCode (code : Int) : Status :=
  if code = 0 then optimal
  else if code = 1 then iterationLimit
  else if code = 2 then infeasible
  else if code = 3 then unbounded
  else failed

/-- The exit codes of a smooth solver, most of which only say that it gave up. -/
def ofSmoothCode (code : Int) : Status :=
  if code = 0 then optimal
  else if code = 4 then infeasible
  else if code = 9 then iterationLimit
  else failed

end Status

inductive VarType where
  | continuous
  | integer
  | binary
  deriving DecidableEq, Repr, Inhabited

namespace VarType

def all : List VarType := [continuous, integer, binary]

def text : VarType → String
  | continuous => "continuous"
  | integer => "integer"
  | binary => "binary"

def ofText? (s : String) : Option VarType := all.find? (·.text = s)

def isIntegral : VarType → Bool
  | continuous => false
  | _ => true

end VarType

end ConeLift
