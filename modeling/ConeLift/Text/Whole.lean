import ConeLift.Text.Character

namespace ConeLift.Text

def groupedTail (digit : Char → Option Nat) : List Char → Option (List Nat)
  | [] => some []
  | '_' :: c :: r => do
    let d ← digit c
    let ds ← groupedTail digit r
    return d :: ds
  | c :: r => do
    let d ← digit c
    let ds ← groupedTail digit r
    return d :: ds

def grouped (digit : Char → Option Nat) : List Char → Option (List Nat)
  | [] => none
  | c :: r => do
    let d ← digit c
    let ds ← groupedTail digit r
    return d :: ds

def ofDigits (ds : List Nat) : Nat := ds.foldl (fun n d => 10 * n + d) 0

def splitSign : List Char → Bool × List Char
  | '-' :: r => (true, r)
  | '+' :: r => (false, r)
  | r => (false, r)

def applySign (negative : Bool) (n : Nat) : Int := if negative then -n else n

def digitLimit : Nat := 4300

def whole? (s : String) : Option Int := do
  let (negative, body) := splitSign (trimEnds isSpace s.toList)
  let ds ← grouped digit? body
  if digitLimit < ds.length then none else some (applySign negative (ofDigits ds))

inductive WholeText where
  | value (i : Int)
  | unreadable
  | tooLong
  deriving DecidableEq, Repr

def splitPoint (cs : List Char) : List Char × Option (List Char) :=
  (cs.takeWhile (· ≠ '.'), match cs.dropWhile (· ≠ '.') with
    | [] => none
    | _ :: r => some r)

def isAsciiDigit (c : Char) : Bool := (asciiDigit? c).isSome

def plainWhole (cs : List Char) : WholeText :=
  let negative := cs.head? = some '-'
  let body := if negative then cs.drop 1 else cs
  let front := body.takeWhile isAsciiDigit
  let rest := body.dropWhile isAsciiDigit
  if front.isEmpty || (front.head? = some '0' && front.length ≠ 1) then .unreadable
  else if digitLimit < cs.length - rest.length then .tooLong
  else if !rest.isEmpty then .unreadable
  else .value (applySign negative (ofDigits (front.filterMap asciiDigit?)))

def dropPlus : List Char → List Char
  | '+' :: c :: r => if isAsciiDigit c then c :: r else '+' :: c :: r
  | cs => cs

def dropZeros (last : Char) : List Char → Option (List Char)
  | [] => some [last]
  | c :: r =>
    if c = '0' ∨ c = '_' then dropZeros c r
    else if c = '.' then some (last :: c :: r)
    else if isAsciiDigit c then some (c :: r)
    else none

def dropLeadingZeros : List Char → Option (List Char)
  | [] => none
  | c :: r =>
    if c = '0' then dropZeros c r
    else if c = '-' ∨ isAsciiDigit c then some (c :: r)
    else none

def dropZeroFraction (cs : List Char) : Option (List Char) :=
  match splitPoint cs with
  | (front, none) => some front
  | (front, some r) => if !r.isEmpty && r.all (· = '0') then some front else none

def hasPairOf (x : Char) : List Char → Bool
  | a :: b :: r => (a = x && b = x) || hasPairOf x (b :: r)
  | _ => false

def dropUnderscores (cs : List Char) : Option (List Char) :=
  if cs.head? = some '_' ∨ cs.getLast? = some '_' ∨ hasPairOf '_' cs then none
  else some (cs.filter (· ≠ '_'))

def cleanedWhole (cs : List Char) : Option (List Char) := do
  let cs ← dropLeadingZeros (dropPlus (trimEnds isBlank cs))
  let cs ← dropZeroFraction cs
  return (dropUnderscores cs).getD cs

/-- A whole number in ASCII digits, with space around it, zeros before it, and a point and zeros
behind it. -/
def laxWhole (s : String) : WholeText :=
  match plainWhole s.toList with
  | .unreadable => ((cleanedWhole s.toList).map plainWhole).getD .unreadable
  | read => read

end ConeLift.Text
