import ConeLift.Decimal.Binary

/-!
The fewest decimal digits that read back as the same machine number. The reals that round to
`m * 2 ^ q` form an interval, which contains its ends if `m` is even. On the grid of the multiples
of `10 ^ p` only the two neighbours of the value have to be tried; the coarsest grid with a
neighbour in the interval has the shortest digits, and the nearer neighbour is the better one.
-/

namespace ConeLift.Decimal

structure Scaled where
  coefficient : Nat
  exponent : Int
  deriving DecidableEq, Repr

structure Grid where
  unit : Nat
  step : Nat

namespace Grid

def ofExponents (q p : Int) : Grid where
  unit := Nat.pow 2 q.toNat * Nat.pow 10 (-p).toNat
  step := 4 * (Nat.pow 2 (-q).toNat * Nat.pow 10 p.toNat)

def floor (g : Grid) (m : Nat) : Nat := 4 * m * g.unit / g.step

end Grid

/-- The ends of the interval of reals that round to a magnitude, in quarters of its last place.
Below a power of two the numbers lie twice as close. -/
def roundingEnds (m : Nat) (q : Int) : Nat × Nat :=
  (if m = Nat.pow 2 52 ∧ -1074 < q then 4 * m - 1 else 4 * m - 2, 4 * m + 2)

def inInterval (m : Nat) (q : Int) (g : Grid) (c : Nat) : Bool :=
  let (lo, hi) := roundingEnds m q
  if m % 2 = 0 then lo * g.unit ≤ c * g.step && c * g.step ≤ hi * g.unit
  else lo * g.unit < c * g.step && c * g.step < hi * g.unit

def neighbour? (m : Nat) (q p : Int) : Option Scaled :=
  let g := Grid.ofExponents q p
  let c := g.floor m
  let below := 4 * m * g.unit - c * g.step
  let above := (c + 1) * g.step - 4 * m * g.unit
  match inInterval m q g c, inInterval m q g (c + 1) with
  | true, true =>
    if below < above ∨ (below = above ∧ c % 2 = 0) then some ⟨c, p⟩ else some ⟨c + 1, p⟩
  | true, false => some ⟨c, p⟩
  | false, true => some ⟨c + 1, p⟩
  | false, false => none

def search (m : Nat) (q : Int) : Nat → Int → Scaled
  | 0, p => ⟨(Grid.ofExponents q p).floor m, p⟩
  | fuel + 1, p =>
    match neighbour? m q p with
    | some s => s
    | none => search m q fuel (p - 1)

def topExponent (m : Nat) (q : Int) : Int := (Nat.log2 m + 1 + q) * 30103 / 100000 + 2

def shortest (m : Nat) (q : Int) : Scaled := search m q 22 (topExponent m q)

def rounded (digits : Nat) (m : Nat) (q : Int) : Scaled :=
  let lead := leadExponent 6 (topExponent m q)
  let p := lead - digits + 1
  let g := Grid.ofExponents q p
  let c := g.floor m
  let twice := 2 * (4 * m * g.unit - c * g.step)
  let c := if twice > g.step ∨ (twice = g.step ∧ c % 2 = 1) then c + 1 else c
  if c = Nat.pow 10 digits then ⟨Nat.pow 10 (digits - 1), p + 1⟩ else ⟨c, p⟩
where
  leadExponent : Nat → Int → Int
    | 0, p => p
    | fuel + 1, p =>
      if 0 < (Grid.ofExponents q p).floor m then p else leadExponent fuel (p - 1)

end ConeLift.Decimal
