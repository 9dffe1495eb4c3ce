import ConeLift.Error
import ConeLift.Scalar

namespace ConeLift.Vec

variable {α β γ δ : Type}

def dot [Scalar α] : List α → List α → α
  | x :: xs, y :: ys => x * y + dot xs ys
  | _, _ => 0

/-- From the left, as machine numbers are added up one after the other. -/
def sum [Scalar α] (xs : List α) : α := xs.foldl (· + ·) 0

theorem sum_concat [Scalar α] (xs : List α) (x : α) : sum (xs ++ [x]) = sum xs + x := by
  simp [sum]

def indexLimit : Int := Int.pow 2 63

def isIndex (i : Int) : Bool := -indexLimit ≤ i && i < indexLimit

def canIndex (size : Nat) (i : Int) : Bool := isIndex i || (-(size : Int) ≤ i && i < size)

def position (size : Nat) (i : Int) : Except Error Nat :=
  if 0 ≤ i ∧ i < size then .ok i.toNat
  else if i < 0 ∧ -i ≤ size then .ok (i + size).toNat
  else if isIndex i then .error (.outOfBounds i size)
  else .error .noSuchIndex

theorem position_ofNat {size i : Nat} (h : i < size) : position size i = .ok i := by
  simp [position, h]

def fetch (xs : List β) (i : Int) : Except Error β := do
  let k ← position xs.length i
  match xs[k]? with
  | some x => .ok x
  | none => .error (.outOfBounds i xs.length)

def replace (xs : List β) (i : Int) (x : β) : Except Error (List β) := do
  let k ← position xs.length i
  .ok (xs.set k x)

def gather (xs : List β) (is : List Int) : Except Error (List β) :=
  if is.all (canIndex xs.length) then is.mapM (fetch xs) else .error .noSuchIndex

def zip (f : β → γ → δ) : List β → List γ → Except Error (List δ)
  | [x], ys => .ok (ys.map (f x))
  | xs, [y] => .ok (xs.map (f · y))
  | xs, ys => if xs.length = ys.length then .ok (List.zipWith f xs ys) else .error .unfit

theorem zip_of_length_eq (f : β → γ → δ) {xs : List β} {ys : List γ}
    (h : xs.length = ys.length) : zip f xs ys = .ok (List.zipWith f xs ys) := by
  match xs, ys with
  | [], [] => rfl
  | [x], [y] => rfl
  | x :: x' :: xs, y :: y' :: ys => simp [zip, List.length_cons] at h ⊢; omega

def positions (flags : List Bool) : List Nat :=
  (List.range flags.length).filter fun k => flags[k]? = some true

def allOk (xs : List (Except Error β)) : Except Error (List β) := xs.mapM id

theorem allOk_map_ok (xs : List β) : allOk (xs.map .ok) = .ok xs := by
  rw [allOk, List.mapM_map]
  exact List.mapM_pure.trans (congrArg Except.ok xs.map_id)

end ConeLift.Vec
