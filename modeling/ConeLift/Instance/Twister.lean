namespace ConeLift.Instance

structure Twister where
  words : Array UInt32
  next : Nat
  deriving DecidableEq

namespace Twister

def size : Nat := 624

def offset : Nat := 397

def wordAt (w : Array UInt32) (i : Nat) : UInt32 := w.getD (i % size) 0

def fold (x : UInt32) : UInt32 := x ^^^ (x >>> 30)

def ofWord (seed : UInt32) : Array UInt32 :=
  (List.range (size - 1)).foldl
    (fun w k => w.push (1812433253 * fold (wordAt w k) + UInt32.ofNat (k + 1))) #[seed]

def stir (f : UInt32 → UInt32 → Nat → UInt32) (s : Array UInt32 × Nat) :
    Array UInt32 × Nat :=
  let (w, i) := s
  let w := w.setIfInBounds i (f (wordAt w i) (fold (wordAt w (i - 1))) i)
  if i + 1 < size then (w, i + 1)
  else (w.setIfInBounds 0 (wordAt w (size - 1)), 1)

def ofKey (key : List UInt32) : Twister :=
  let keyed (s : Array UInt32 × Nat) (j : Nat) : Array UInt32 × Nat :=
    stir (fun x y _ => (x ^^^ (y * 1664525)) + key.getD j 0 + UInt32.ofNat j) s
  let s := (List.range (max size key.length)).foldl
    (fun s k => keyed s (k % key.length)) (ofWord 19650218, 1)
  let s := (List.range (size - 1)).foldl
    (fun s _ => stir (fun x y i => (x ^^^ (y * 1566083941)) - UInt32.ofNat i) s) s
  ⟨s.1.setIfInBounds 0 0x80000000, size⟩

def digits (n : Nat) : List UInt32 :=
  if n < 0x100000000 then [UInt32.ofNat n]
  else UInt32.ofNat n :: digits (n / 0x100000000)
termination_by n

def ofSeed (seed : Int) : Twister := ofKey (digits seed.natAbs)

def advance (w : Array UInt32) (i : Nat) : Array UInt32 :=
  let y := (wordAt w i &&& 0x80000000) ||| (wordAt w (i + 1) &&& 0x7fffffff)
  let twist : UInt32 := if y &&& 1 = 0 then 0 else 0x9908b0df
  w.setIfInBounds i (wordAt w (i + offset) ^^^ (y >>> 1) ^^^ twist)

def temper (x : UInt32) : UInt32 :=
  let x := x ^^^ (x >>> 11)
  let x := x ^^^ ((x <<< 7) &&& 0x9d2c5680)
  let x := x ^^^ ((x <<< 15) &&& 0xefc60000)
  x ^^^ (x >>> 18)

def nextWord (t : Twister) : UInt32 × Twister :=
  let t := if t.next < size then t else ⟨(List.range size).foldl advance t.words, 0⟩
  (temper (wordAt t.words t.next), { t with next := t.next + 1 })

def nextReal (t : Twister) : Float × Twister :=
  let (a, t) := t.nextWord
  let (b, t) := t.nextWord
  let n := (a >>> 5).toNat * Nat.pow 2 26 + (b >>> 6).toNat
  (Float.ofNat n / Float.ofNat (Nat.pow 2 53), t)

def take : Nat → Twister → List Float
  | 0, _ => []
  | n + 1, t =>
    let (x, t) := t.nextReal
    x :: take n t

theorem length_take (n : Nat) (t : Twister) : (take n t).length = n := by
  induction n generalizing t with
  | zero => rfl
  | succ n ih => simp [take, ih]

end Twister

end ConeLift.Instance
