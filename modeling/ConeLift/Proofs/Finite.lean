import Mathlib.Algebra.Order.Field.Rat
import ConeLift.Problem
import ConeLift.Lift.Basic
import ConeLift.Scalar.Extended
import ConeLift.Proofs.Traversal

namespace ConeLift

namespace Extended

@[simp] theorem zero_eq : (0 : Extended) = .finite 0 := rfl

@[simp] theorem one_eq : (1 : Extended) = .finite 1 := rfl

@[simp] theorem infinity_eq : (Scalar.infinity : Extended) = .infinity := rfl

@[simp] theorem neg_infinity_eq : -(Extended.infinity) = .negInfinity := rfl

@[simp] theorem finite_add (p q : ℚ) : Extended.finite p + .finite q = .finite (p + q) := rfl

@[simp] theorem finite_mul (p q : ℚ) : Extended.finite p * .finite q = .finite (p * q) := rfl

@[simp] theorem neg_finite (p : ℚ) : -(Extended.finite p) = .finite (-p) := rfl

@[simp] theorem finite_sub (p q : ℚ) : Extended.finite p - .finite q = .finite (p - q) := by
  rw [sub_eq_add_neg]
  rfl

protected theorem add_comm (a b : Extended) : a + b = b + a := by
  cases a with
  | finite p =>
    cases b with
    | finite q => simp [Rat.add_comm p q]
    | _ => rfl
  | _ => cases b <;> rfl

protected theorem add_assoc (a b c : Extended) : a + b + c = a + (b + c) := by
  cases a with
  | finite p =>
    cases b with
    | finite q =>
      cases c with
      | finite r => simp [Rat.add_assoc p q r]
      | _ => rfl
    | _ => cases c <;> rfl
  | _ => cases b <;> cases c <;> rfl

protected theorem zero_add (a : Extended) : 0 + a = a := by
  cases a with
  | finite p => simp
  | _ => rfl

protected theorem one_mul (a : Extended) : 1 * a = a := by
  cases a with
  | finite p => exact congrArg Extended.finite (Rat.one_mul p)
  | _ => rfl

theorem sum_cons (x : Extended) (xs : List Extended) : Vec.sum (x :: xs) = x + Vec.sum xs := by
  have hfold (a b : Extended) : xs.foldl (· + ·) (a + b) = a + xs.foldl (· + ·) b := by
    induction xs generalizing b with
    | nil => rfl
    | cons y xs ih => rw [List.foldl_cons, List.foldl_cons, Extended.add_assoc, ih]
  rw [Vec.sum, List.foldl_cons, Extended.add_comm 0, hfold, Vec.sum]

theorem mul_one (a : Extended) : a * 1 = a := by
  cases a with
  | finite p => exact congrArg Extended.finite (Rat.mul_one p)
  | _ => rfl

theorem mul_neg_one (a : Extended) : a * -1 = -a := by
  cases a with
  | finite p =>
    rw [one_eq, neg_finite, finite_mul, neg_finite]
    ring_nf
  | _ => rfl

@[simp] theorem lt_finite_iff (p q : ℚ) :
    Scalar.lt (Extended.finite p) (.finite q) = true ↔ p < q := by
  simp [Scalar.lt, Extended.lt]

@[simp] theorem eq_finite_iff (p q : ℚ) :
    Scalar.eq (Extended.finite p) (.finite q) = true ↔ p = q := by
  simp [Scalar.eq, Extended.eq, Extended.isUndefined]

@[simp] theorem le_finite_iff (p q : ℚ) :
    Scalar.le (Extended.finite p) (.finite q) = true ↔ p ≤ q := by
  have hle : Scalar.le (Extended.finite p) (.finite q) =
      (Scalar.lt (Extended.finite p) (.finite q) || Scalar.eq (Extended.finite p) (.finite q)) :=
    rfl
  rw [hle, Bool.or_eq_true, lt_finite_iff, eq_finite_iff, le_iff_lt_or_eq]

@[simp] theorem negInfinity_le (q : ℚ) : Scalar.le Extended.negInfinity (.finite q) = true := rfl

@[simp] theorem le_infinity (q : ℚ) : Scalar.le (Extended.finite q) .infinity = true := rfl

end Extended

def finites (x : List ℚ) : List Extended := x.map .finite

def finiteRow (row : List (ℕ × ℚ)) : List (ℕ × Extended) := row.map fun e => (e.1, .finite e.2)

def RowMatrix.finite (A : RowMatrix ℚ) : RowMatrix Extended := ⟨A.numCols, A.rows.map finiteRow⟩

def Triplets.finite (T : Triplets ℚ) : Triplets Extended :=
  ⟨T.numRows, T.numCols, T.rows, T.cols, finites T.vals⟩

def Numbers.finite (n : Numbers ℚ) : Numbers Extended :=
  ⟨finites n.cost, n.matrix.finite, finites n.rightHand⟩

def Problem.finite (P : Problem ℚ) : Problem Extended where
  name := P.name
  cost := finites P.cost
  matrix := P.matrix.finite
  rightHand := finites P.rightHand
  constraintCones := P.constraintCones
  variableCones := P.variableCones

def dot (c x : List ℚ) : ℚ := (List.zipWith (· * ·) c x).sum

def rowValue (row : List (ℕ × ℚ)) (x : List ℚ) : ℚ := (row.map fun e => e.2 * x.getD e.1 0).sum

@[simp] theorem rowValue_nil (x : List ℚ) : rowValue [] x = 0 := rfl

@[simp] theorem rowValue_cons (e : ℕ × ℚ) (row : List (ℕ × ℚ)) (x : List ℚ) :
    rowValue (e :: row) x = e.2 * x.getD e.1 0 + rowValue row x := by simp [rowValue]

def RowMatrix.apply (A : RowMatrix ℚ) (x : List ℚ) : List ℚ := A.rows.map (rowValue · x)

@[simp] theorem length_finites (x : List ℚ) : (finites x).length = x.length := by simp [finites]

@[simp] theorem numRows_finite (A : RowMatrix ℚ) : A.finite.numRows = A.numRows := by
  simp [RowMatrix.finite, RowMatrix.numRows]

@[simp] theorem numCols_finite (A : RowMatrix ℚ) : A.finite.numCols = A.numCols := rfl

theorem getD_finites (x : List ℚ) (i : ℕ) :
    (finites x).getD i 0 = .finite (x.getD i 0) :=
  List.getD_map x 0 Extended.finite

theorem finites_injective : Function.Injective finites :=
  List.map_injective_iff.mpr fun _ _ h => Extended.finite.inj h

theorem exists_eq_finites {xs : List Extended} (h : ∀ x ∈ xs, Scalar.isFinite x = true) :
    ∃ ys, xs = finites ys := by
  induction xs with
  | nil => exact ⟨[], rfl⟩
  | cons x xs ih =>
    rw [List.forall_mem_cons] at h
    obtain ⟨ys, rfl⟩ := ih h.2
    cases x with
    | finite y => exact ⟨y :: ys, rfl⟩
    | infinity => cases h.1
    | negInfinity => cases h.1
    | undefined => cases h.1

theorem sum_finites (x : List ℚ) : Vec.sum (finites x) = .finite x.sum := by
  induction x with
  | nil => rfl
  | cons v x ih =>
    have hcons : Vec.sum (finites (v :: x)) = Extended.finite v + Vec.sum (finites x) :=
      Extended.sum_cons _ _
    rw [hcons, ih, Extended.finite_add, List.sum_cons]

theorem dot_finites (c x : List ℚ) : Vec.dot (finites c) (finites x) = .finite (dot c x) := by
  induction c generalizing x with
  | nil => rfl
  | cons a c ih =>
    cases x with
    | nil => rfl
    | cons v x =>
      have hcons : Vec.dot (finites (a :: c)) (finites (v :: x)) =
          Extended.finite a * .finite v + Vec.dot (finites c) (finites x) := rfl
      rw [hcons, ih, Extended.finite_mul, Extended.finite_add]
      rfl

theorem map_neg_finites (c : List ℚ) :
    (finites c).map (fun y => -y) = finites (c.map fun y => -y) := by
  simp [finites]

theorem dot_neg (c x : List ℚ) : dot (c.map fun y => -y) x = -(dot c x) := by
  induction c generalizing x with
  | nil => rfl
  | cons a c ih =>
    cases x with
    | nil => rfl
    | cons v x =>
      have htail := ih x
      simp only [dot, List.map_cons, List.zipWith_cons_cons, List.sum_cons] at htail ⊢
      rw [htail]
      ring

theorem rowDot_finite (row : List (ℕ × ℚ)) (x : List ℚ) :
    RowMatrix.rowDot (finiteRow row) (finites x) = .finite (rowValue row x) := by
  have hmap : (finiteRow row).map (fun e => e.2 * (finites x).getD e.1 0) =
      finites (row.map fun e => e.2 * x.getD e.1 0) := by
    simp only [finiteRow, finites, List.map_map]
    apply List.map_congr_left
    intro e _
    have hx : (x.map Extended.finite).getD e.1 0 = .finite (x.getD e.1 0) := getD_finites x e.1
    simp only [Function.comp_apply, hx, Extended.finite_mul]
  rw [RowMatrix.rowDot, hmap, sum_finites, rowValue]

theorem mulVec_finite (A : RowMatrix ℚ) (x : List ℚ) :
    A.finite.mulVec (finites x) = finites (A.apply x) := by
  simp only [RowMatrix.mulVec, RowMatrix.finite, RowMatrix.apply, finites, List.map_map]
  apply List.map_congr_left
  intro row _
  exact rowDot_finite row x

theorem dot_append_zeros (c x y : List ℚ) (k : ℕ) (h : c.length = x.length) :
    dot (c ++ List.replicate k 0) (x ++ y) = dot c x := by
  have hzeros : ∀ (k : ℕ) (y : List ℚ), dot (List.replicate k 0) y = 0 := by
    intro k
    induction k with
    | zero => simp [dot]
    | succ k ih =>
      intro y
      cases y with
      | nil => simp [dot]
      | cons v y => simpa [dot, List.replicate_succ] using ih y
  have happend : dot (c ++ List.replicate k 0) (x ++ y) =
      dot c x + dot (List.replicate k 0) y := by
    simp only [dot, List.zipWith_append h, List.sum_append]
  rw [happend, hzeros, add_zero]

end ConeLift
