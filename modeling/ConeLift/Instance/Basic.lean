import ConeLift.Problem
import ConeLift.Scalar

namespace ConeLift.Instance

variable {α : Type} [Scalar α]

def stretch (lo hi u : α) : α := lo + (hi - lo) * u

def symmetric (r : Nat) (u : α) : α := stretch (-Scalar.decimal r 0) (Scalar.decimal r 0) u

def coefRange : Nat := 2

def rightHandRange : Nat := 3

/-- A problem that is written row by row, and how many numbers have been drawn for it. -/
structure Draft (α : Type) where
  rows : List Int
  cols : List Int
  vals : List α
  rightHand : List α
  drawn : Nat

namespace Draft

def blank : Draft α := ⟨[], [], [], [], 0⟩

def next (d : Draft α) : Nat := d.rightHand.length

def entry (d : Draft α) (row : Nat) (j : Int) (x : α) : Draft α :=
  { d with rows := d.rows ++ [(row : Int)], cols := d.cols ++ [j], vals := d.vals ++ [x] }

def close (d : Draft α) (b : α) : Draft α := { d with rightHand := d.rightHand ++ [b] }

def draw (d : Draft α) : Draft α := { d with drawn := d.drawn + 1 }

def matrix (d : Draft α) (n : Int) : Triplets α := ⟨d.next, n, d.rows, d.cols, d.vals⟩

def cap (d : Draft α) (j : Int) : Draft α := (d.entry d.next j 1).close 1

def lead (d : Draft α) : Draft α := (d.entry d.next 0 (-1)).close 0

def drawEntry (u : Nat → α) (row : Nat) (d : Draft α) (j : Int) : Draft α :=
  (d.entry row j (symmetric coefRange (u d.drawn))).draw

def drawRow (u : Nat → α) (others : List Int) (d : Draft α) : Draft α :=
  let d := others.foldl (drawEntry u d.next) d
  (d.close (symmetric rightHandRange (u d.drawn))).draw

end Draft

def others (n : Int) : List Int := (List.range (n - 1).toNat).map fun j : Nat => (j : Int) + 1

def problem (n coneSize : Int) (u : Nat → α) : Problem α :=
  let capped := (others n).foldl Draft.cap .blank
  let d := (List.range (coneSize - 1).toNat).foldl (fun d _ => d.drawRow u (others n)) capped.lead
  { name := "random-socp"
    cost := 1 :: List.replicate (n - 1).toNat 0
    matrix := d.matrix n
    rightHand := d.rightHand
    constraintCones :=
      [⟨.nonneg, List.range capped.next⟩,
        ⟨.secondOrder, List.range' capped.next (d.next - capped.next)⟩]
    variableCones := [⟨.free, [0]⟩, ⟨.nonneg, (others n).map Int.toNat⟩] }

def drawCount (n coneSize : Int) : Nat := (coneSize - 1).toNat * ((n - 1).toNat + 1)

def generate (n coneSize : Int) (u : Nat → α) : Checked (Problem α) :=
  let P := problem n coneSize u
  match P.matrix.inconsistency?, P.inconsistency? with
  | some why, _ => Checked.fail (.inconsistent why)
  | none, some why => Checked.fail (.inconsistent why)
  | none, none => .ok P

end ConeLift.Instance
