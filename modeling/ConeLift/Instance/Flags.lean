import ConeLift.Text.Whole

/-!
The words of a command line that asks for random problems. A flag may be shortened as long as one
flag only begins with what is left, and its value may follow behind an equals sign or as the next
word. Of a flag that is given twice the last value counts.
-/

namespace ConeLift.Instance

inductive Flag where
  | help
  | vars
  | coneSize
  | seed
  | count
  | out
  deriving DecidableEq, Repr

namespace Flag

def all : List Flag := [help, vars, coneSize, seed, count, out]

def name : Flag → String
  | help => "--help"
  | vars => "--vars"
  | coneSize => "--soc-size"
  | seed => "--seed"
  | count => "--count"
  | out => "--out"

def shortHelp : String := "-h"

def placeholder : Flag → String
  | help => ""
  | vars => "VARS"
  | coneSize => "SOC_SIZE"
  | seed => "SEED"
  | count => "COUNT"
  | out => "OUT"

def purpose : Flag → String
  | help => "show this help message and exit"
  | vars => "Number of variables (including t)"
  | coneSize => "Size of the second-order cone"
  | seed => "Random seed"
  | count => "Number of instances"
  | out => "Optional output file"

end Flag

inductive Word where
  | value (s : String)
  | flag (f : Flag) (attached : Option String)
  | unknown
  | separator
  deriving DecidableEq, Repr

namespace Word

def isNegative (cs : List Char) : Bool :=
  match cs with
  | '-' :: body =>
    let isDigit (c : Char) : Bool := (Text.digit? c).isSome
    match Text.splitPoint body with
    | (whole, none) => !whole.isEmpty && whole.all isDigit
    | (whole, some fraction) => whole.all isDigit && !fraction.isEmpty && fraction.all isDigit
  | _ => false

def splitEquals (cs : List Char) : List Char × Option (List Char) :=
  (cs.takeWhile (· ≠ '='), match cs.dropWhile (· ≠ '=') with
    | [] => none
    | _ :: r => some r)

def candidates (cs : List Char) : List Flag :=
  Flag.all.filter fun f => cs.isPrefixOf f.name.toList

def spelled? (cs : List Char) : Option Flag :=
  if cs = Flag.shortHelp.toList then some .help
  else Flag.all.find? fun f => f.name.toList = cs

def classifyRest (s : String) (cs : List Char) : Word :=
  if isNegative cs ∨ ' ' ∈ cs then value s else unknown

def ofString? (s : String) : Option Word :=
  let cs := s.toList
  let (front, attached) := splitEquals cs
  match cs with
  | '-' :: c :: _ =>
    if cs = ['-', '-'] then some separator
    else
      match spelled? cs, spelled? front with
      | some f, _ => some (flag f none)
      | none, some f => some (flag f (attached.map String.ofList))
      | none, none =>
        if c = '-' then
          match candidates front with
          | [] => some (classifyRest s cs)
          | [f] => some (flag f (attached.map String.ofList))
          | _ => none
        else if Flag.shortHelp.toList.isPrefixOf cs then some (flag .help none)
        else some (classifyRest s cs)
  | _ => some (value s)

def ofStrings? : List String → Option (List Word)
  | [] => some []
  | s :: ss => do
    match ← ofString? s with
    | separator => return separator :: ss.map value
    | w => return w :: (← ofStrings? ss)

end Word

structure Request where
  vars : Int
  coneSize : Int
  seed : Option Int
  count : Int
  out : Option String
  deriving DecidableEq, Repr

inductive Reading where
  | run (r : Request)
  | help
  | misuse
  deriving DecidableEq, Repr

namespace Request

def default : Request where
  vars := 3
  coneSize := 3
  seed := none
  count := 1
  out := none

def set (r : Request) (f : Flag) (s : String) : Option Request :=
  match f with
  | .help => none
  | .vars => (Text.whole? s).map fun i => { r with vars := i }
  | .coneSize => (Text.whole? s).map fun i => { r with coneSize := i }
  | .seed => (Text.whole? s).map fun i => { r with seed := some i }
  | .count => (Text.whole? s).map fun i => { r with count := i }
  | .out => some { r with out := some s }

def read (r : Request) (spoiled : Bool) : List Word → Reading
  | [] => if spoiled then .misuse else .run r
  | .value _ :: ws => read r true ws
  | .unknown :: ws => read r true ws
  | .separator :: _ => .misuse
  | .flag .help none :: _ => .help
  | .flag f (some s) :: ws =>
    match r.set f s with
    | some r => read r spoiled ws
    | none => .misuse
  | .flag f none :: .value s :: ws =>
    match r.set f s with
    | some r => read r spoiled ws
    | none => .misuse
  | .flag _ none :: _ => .misuse

end Request

def Reading.ofArgs (args : List String) : Reading :=
  match Word.ofStrings? args with
  | some ws => Request.default.read false ws
  | none => .misuse

end ConeLift.Instance
