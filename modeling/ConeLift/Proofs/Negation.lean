import ConeLift.Proofs.Finite

namespace ConeLift

namespace Extended

theorem neg_neg (a : Extended) : - -a = a := by
  cases a with
  | finite q => simp
  | _ => rfl

theorem neg_add (a b : Extended) : -(a + b) = -a + -b := by
  cases a with
  | finite p =>
    cases b with
    | finite q =>
      simp only [neg_finite, finite_add, finite.injEq]
      ring
    | _ => rfl
  | _ => cases b <;> rfl

theorem scaleInfinity_neg (q : ℚ) : scaleInfinity (-q) = -scaleInfinity q := by
  rcases lt_trichotomy q 0 with hq | rfl | hq
  · have hneg : 0 < -q := neg_pos.mpr hq
    rw [scaleInfinity, scaleInfinity, if_neg hneg.ne', if_pos hneg, if_neg hq.ne,
      if_neg hq.not_gt]
    rfl
  · rfl
  · have hneg : -q < 0 := neg_lt_zero.mpr hq
    rw [scaleInfinity, scaleInfinity, if_neg hneg.ne, if_neg hneg.not_gt, if_neg hq.ne',
      if_pos hq]
    rfl

theorem neg_mul (a b : Extended) : -a * b = -(a * b) := by
  cases a with
  | finite p =>
    cases b with
    | finite q => simp
    | infinity => exact scaleInfinity_neg p
    | negInfinity => exact congrArg neg (scaleInfinity_neg p)
    | undefined => rfl
  | infinity =>
    cases b with
    | finite q => rfl
    | _ => rfl
  | negInfinity =>
    cases b with
    | finite q => exact (neg_neg (scaleInfinity q)).symm
    | _ => rfl
  | undefined => cases b <;> rfl

theorem dot_map_neg (c x : List Extended) : Vec.dot (c.map (-·)) x = -Vec.dot c x := by
  induction c generalizing x with
  | nil => rfl
  | cons a c ih =>
    cases x with
    | nil => rfl
    | cons v x =>
      calc -a * v + Vec.dot (c.map (-·)) x
          = -(a * v) + -Vec.dot c x := by rw [neg_mul, ih]
        _ = -(a * v + Vec.dot c x) := (neg_add _ _).symm

end Extended

namespace RowMatrix

theorem sum_map_neg (xs : List Extended) : Vec.sum (xs.map fun x => -x) = -Vec.sum xs := by
  induction xs with
  | nil => rfl
  | cons x xs ih =>
    rw [List.map_cons, Extended.sum_cons, Extended.sum_cons, ih, Extended.neg_add]

theorem rowDot_negRow (row : List (ℕ × Extended)) (x : List Extended) :
    rowDot (negRow row) x = -rowDot row x := by
  rw [rowDot, rowDot, ← sum_map_neg, negRow, List.map_map, List.map_map]
  congr 1
  apply List.map_congr_left
  intro e _
  exact Extended.neg_mul e.2 _

end RowMatrix

end ConeLift
