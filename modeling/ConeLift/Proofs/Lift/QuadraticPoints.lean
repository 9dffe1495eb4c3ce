import ConeLift.Proofs.QuadraticValues

namespace ConeLift

theorem zipWith_replicate_one (y : List ℚ) :
    List.zipWith (· * ·) (List.replicate y.length 1) y = y := by
  induction y with
  | nil => rfl
  | cons v y ih => simp [List.replicate_succ, ih]

def QuadraticRow.coneRow (columns : List ℕ) : QuadraticRow ℚ where
  linearIndex := []
  linearCoef := []
  rowIndex := columns.map fun i : ℕ => (i : ℤ)
  colIndex := columns.map fun i : ℕ => (i : ℤ)
  coef := -1 :: List.replicate (columns.length - 1) 1
  bound := 0

theorem QuadraticRow.finite_coneRow (columns : List ℕ) :
    (coneRow columns).finite = ofColumns columns := by
  simp [coneRow, finite, ofColumns, ofCone, finites]

theorem QuadraticRow.fits_coneRow (n : ℕ) (columns : List ℕ) (hne : columns ≠ []) :
    (coneRow columns).Fits n ↔ ∀ j ∈ columns, j < n := by
  rw [← fits_finite_iff, finite_coneRow, fits_ofColumns n columns hne]

theorem eval_coneRow (z : List ℚ) (t : ℕ) (ys : List ℕ) :
    (QuadraticRow.coneRow (t :: ys)).eval z =
      ((ys.map (coord z)).map (· ^ 2)).sum - coord z t ^ 2 := by
  have hentries : QuadraticRow.entries z ((t :: ys).map fun i : ℕ => (i : ℤ)) =
      coord z t :: ys.map (coord z) := by
    rw [QuadraticRow.entries, List.map_map]
    rfl
  have hones := zipWith_replicate_one (ys.map (coord z))
  rw [List.length_map] at hones
  have hsquares : List.zipWith (· * ·) (ys.map (coord z)) (ys.map (coord z)) =
      (ys.map (coord z)).map (· ^ 2) := by
    simp [List.zipWith_self, sq]
  have hempty (y : List ℚ) : dot [] y = 0 := rfl
  simp only [QuadraticRow.eval, QuadraticRow.coneRow, hentries, hempty, List.length_cons,
    Nat.add_sub_cancel, List.zipWith_cons_cons, hones, hsquares, List.sum_cons]
  ring

theorem value_ofColumns (z : List ℚ) (t : ℕ) (ys : List ℕ) (h : ∀ j ∈ t :: ys, j < z.length) :
    (QuadraticRow.ofColumns (t :: ys)).value (finites z) =
      .ok (.finite (((ys.map (coord z)).map (· ^ 2)).sum - coord z t ^ 2)) := by
  have hfits := (QuadraticRow.fits_coneRow z.length _ (List.cons_ne_nil t ys)).mpr h
  rw [← QuadraticRow.finite_coneRow, QuadraticRow.value_finite hfits, eval_coneRow]

theorem hold_ofColumns_iff (z : List ℚ) (t : ℕ) (ys : List ℕ) (h : ∀ j ∈ t :: ys, j < z.length) :
    (QuadraticRow.ofColumns (t :: ys)).Hold (finites z) ↔
      ((ys.map (coord z)).map (· ^ 2)).sum ≤ coord z t ^ 2 := by
  have hbound : (QuadraticRow.ofColumns (α := Extended) (t :: ys)).bound = .finite 0 := rfl
  simp only [QuadraticRow.Hold, value_ofColumns z t ys h, Except.ok.injEq, exists_eq_left', hbound,
    Extended.le_finite_iff, sub_nonpos]

theorem inSecondOrder_iff_hold (z : List ℚ) (columns : List ℕ) (hne : columns ≠ [])
    (h : ∀ j ∈ columns, j < z.length) :
    InSecondOrder (columns.map (coord z)) ↔
      (∀ j ∈ columns.take 1, 0 ≤ coord z j) ∧
        (QuadraticRow.ofColumns columns).Hold (finites z) := by
  cases columns with
  | nil => exact absurd rfl hne
  | cons t ys =>
    rw [hold_ofColumns_iff z t ys h]
    simp [InSecondOrder]

theorem map_coord_range' (z : List ℚ) (first : ℕ) (v w : List ℚ) (h : z.drop first = v ++ w) :
    (List.range' first v.length).map (coord z) = v := by
  apply List.ext_getElem
  · simp
  · intro j hj hjv
    have hget : z[first + j]? = some v[j] := by
      rw [← List.getElem?_drop, h, List.getElem?_append_left hjv, List.getElem?_eq_getElem hjv]
    simp [coord, hget]

theorem auxiliaryBlocks_inSecondOrder_iff (cones : List Cone) (v : ℕ → ℚ) (z : List ℚ) (first : ℕ)
    (h : z.drop first = (cones.filter Cone.isSecondOrder).flatMap fun k => k.indices.map v) :
    (∀ block ∈ auxiliaryBlocks first cones, InSecondOrder (block.map (coord z))) ↔
      ∀ k ∈ cones, k.isSecondOrder = true → InSecondOrder (k.indices.map v) := by
  induction cones generalizing first with
  | nil => simp [auxiliaryBlocks]
  | cons k ks ih =>
    by_cases hs : k.isSecondOrder
    · rw [List.filter_cons_of_pos hs, List.flatMap_cons] at h
      have hhead := map_coord_range' z first _ _ h
      have hdrop : z.drop (first + k.size) =
          (ks.filter Cone.isSecondOrder).flatMap fun k => k.indices.map v := by
        rw [← List.drop_drop, h]
        exact List.drop_left' (by simp [Cone.size])
      rw [List.length_map] at hhead
      by_cases hi : k.indices = []
      · have htail := ih first (by simpa [hi] using h)
        simp [auxiliaryBlocks, hi, hs, htail, inSecondOrder_nil]
      · have htail := ih (first + k.size) hdrop
        have hblocks : auxiliaryBlocks first (k :: ks) =
            List.range' first k.size :: auxiliaryBlocks (first + k.size) ks := by
          simp [auxiliaryBlocks, hs, hi]
        rw [hblocks]
        simp only [List.forall_mem_cons, htail, hs, true_imp_iff]
        rw [Cone.size, hhead]
    · have htail := ih first (by simpa [hs] using h)
      simp [auxiliaryBlocks, hs, htail]

end ConeLift
