import ConeLift.Proofs.Negation
import ConeLift.Proofs.RowEntries

namespace ConeLift

namespace Extended

theorem infinity_add_mul (b : Extended) (v : ℚ) :
    (Extended.infinity + b) * .finite v = .infinity * .finite v + b * .finite v := by
  have hscale : scaleInfinity v = .undefined ∨ scaleInfinity v = .infinity ∨
      scaleInfinity v = .negInfinity := by
    rw [scaleInfinity]
    split_ifs <;> simp
  have hinfinity : Extended.infinity * .finite v = scaleInfinity v := rfl
  have hnegInfinity : Extended.negInfinity * .finite v = -scaleInfinity v := rfl
  cases b with
  | undefined => cases hv : Extended.infinity * .finite v <;> rfl
  | finite q =>
    have hsum : Extended.infinity + .finite q = .infinity := rfl
    rw [hsum, hinfinity, finite_mul]
    rcases hscale with h | h | h <;> rw [h] <;> rfl
  | infinity =>
    have hsum : Extended.infinity + .infinity = .infinity := rfl
    rw [hsum, hinfinity]
    rcases hscale with h | h | h <;> rw [h] <;> rfl
  | negInfinity =>
    have hsum : Extended.infinity + .negInfinity = .undefined := rfl
    rw [hsum, hinfinity, hnegInfinity]
    rcases hscale with h | h | h <;> rw [h] <;> rfl

theorem negInfinity_add_mul (b : Extended) (v : ℚ) :
    (Extended.negInfinity + b) * .finite v = .negInfinity * .finite v + b * .finite v := by
  calc (Extended.negInfinity + b) * .finite v
      = -(.infinity + -b) * .finite v := by rw [neg_add, neg_neg, neg_infinity_eq]
    _ = -(.infinity * .finite v + -b * .finite v) := by rw [neg_mul, infinity_add_mul]
    _ = -.infinity * .finite v + - -b * .finite v := by
      rw [neg_add, neg_mul .infinity, neg_mul (-b)]
    _ = .negInfinity * .finite v + b * .finite v := by rw [neg_neg, neg_infinity_eq]

protected theorem add_mul (a b : Extended) (v : ℚ) :
    (a + b) * .finite v = a * .finite v + b * .finite v := by
  cases a with
  | infinity => exact infinity_add_mul b v
  | negInfinity => exact negInfinity_add_mul b v
  | undefined => rfl
  | finite p =>
    cases b with
    | finite q => simp [Rat.add_mul]
    | infinity => rw [Extended.add_comm, infinity_add_mul, Extended.add_comm]
    | negInfinity => rw [Extended.add_comm, negInfinity_add_mul, Extended.add_comm]
    | undefined => rfl

end Extended

namespace RowMatrix

theorem dot_set_add {c : List Extended} {x : List ℚ} (a : Extended) {k : ℕ} (hc : k < c.length)
    (hx : k < x.length) :
    Vec.dot (c.set k (a + c.getD k 0)) (finites x) =
      a * .finite (x.getD k 0) + Vec.dot c (finites x) := by
  induction c generalizing x k with
  | nil => cases hc
  | cons b c ih =>
    cases x with
    | nil => cases hx
    | cons v x =>
      cases k with
      | zero =>
        calc (a + b) * .finite v + Vec.dot c (finites x)
            = a * .finite v + b * .finite v + Vec.dot c (finites x) := by rw [Extended.add_mul]
          _ = a * .finite v + (b * .finite v + Vec.dot c (finites x)) := Extended.add_assoc _ _ _
      | succ k =>
        have htail := ih (Nat.lt_of_succ_lt_succ hc) (Nat.lt_of_succ_lt_succ hx)
        calc b * .finite v + Vec.dot (c.set k (a + c.getD k 0)) (finites x)
            = b * .finite v + (a * .finite (x.getD k 0) + Vec.dot c (finites x)) := by rw [htail]
          _ = a * .finite (x.getD k 0) + (b * .finite v + Vec.dot c (finites x)) := by
            rw [← Extended.add_assoc, Extended.add_comm (b * _), Extended.add_assoc]

theorem dot_zeros (n : ℕ) (x : List ℚ) :
    Vec.dot (List.replicate n 0) (finites x) = 0 := by
  induction n generalizing x with
  | zero => rfl
  | succ n ih =>
    cases x with
    | nil => rfl
    | cons v x =>
      calc Extended.finite 0 * .finite v + Vec.dot (List.replicate n 0) (finites x)
          = .finite 0 + 0 := by rw [ih, Extended.finite_mul, Rat.zero_mul]
        _ = 0 := Extended.zero_add 0

theorem dot_denseRow {row : List (ℕ × Extended)} {x : List ℚ} (h : ∀ e ∈ row, e.1 < x.length) :
    Vec.dot (denseRow x.length row) (finites x) = rowDot row (finites x) := by
  induction row with
  | nil =>
    have hentry : rowEntry ([] : List (ℕ × Extended)) = fun _ => 0 := rfl
    rw [denseRow, hentry, List.map_const', List.length_range, dot_zeros]
    rfl
  | cons e row ih =>
    rw [List.forall_mem_cons] at h
    have hlength : e.1 < (denseRow x.length row).length := by simpa [denseRow] using h.1
    rw [denseRow_cons e row h.1, dot_set_add e.2 hlength h.1, ih h.2, ← getD_finites, rowDot,
      rowDot, List.map_cons, Extended.sum_cons]

end RowMatrix

end ConeLift
