import ConeLift.Instance.Flags
import ConeLift.Instance.Seeded
import ConeLift.Wire.Dump
import ConeLift.Wire.Indented

namespace ConeLift.Instance

structure Effect where
  exit : Nat
  stdout : String
  stderr : String
  file : Option (String × String)
  deriving DecidableEq

namespace Summary

def width : Nat := 78

def blanks (n : Nat) : String := String.ofList (List.replicate n ' ')

def wrap (indent : Nat) : String → List String → List String
  | line, [] => [line]
  | line, p :: ps =>
    if line.length + 1 + p.length ≤ width then wrap indent (line ++ " " ++ p) ps
    else line :: wrap indent (blanks indent ++ p) ps

def bracketed (f : Flag) : String :=
  if f = .help then "[" ++ Flag.shortHelp ++ "]"
  else "[" ++ f.name ++ " " ++ f.placeholder ++ "]"

def usage (program : String) : String :=
  let front := "usage: " ++ program
  "\n".intercalate (wrap (front.length + 1) front (Flag.all.map bracketed))

def heading (f : Flag) : String :=
  if f = .help then Flag.shortHelp ++ ", " ++ f.name else f.name ++ " " ++ f.placeholder

def entries : List String :=
  let column := ((Flag.all.map fun f => (heading f).length).foldl max 0) + 2
  Flag.all.map fun f =>
    "  " ++ heading f ++ blanks (column - (heading f).length) ++ f.purpose

def description : String := "Generate random feasible SOCP instances."

def text (program : String) : String :=
  usage program ++ "\n\n" ++ description ++ "\n\noptions:\n" ++ "\n".intercalate entries ++ "\n"

end Summary

namespace Request

def problems (r : Request) : Checked (List (Problem Float)) :=
  (List.range r.count.toNat).mapM fun k : Nat => ofSeed r.vars r.coneSize (r.seed.getD 0 + k)

def effect (r : Request) : Checked Effect := do
  let text := (Value.list ((← r.problems).map Problem.toValue)).indented
  match r.out with
  | none => return { exit := 0, stdout := text ++ "\n", stderr := "", file := none }
  | some path => return { exit := 0, stdout := "", stderr := "", file := some (path, text) }

end Request

def misuseCode : Nat := 2

def command (program : String) (args : List String) : Checked Effect :=
  match Reading.ofArgs args with
  | .run r => r.effect
  | .help => .ok { exit := 0, stdout := Summary.text program, stderr := "", file := none }
  | .misuse =>
    .ok { exit := misuseCode, stdout := "", stderr := Summary.usage program ++ "\n", file := none }

end ConeLift.Instance
