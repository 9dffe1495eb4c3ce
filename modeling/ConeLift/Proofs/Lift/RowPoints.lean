import ConeLift.Proofs.Points

namespace ConeLift

theorem rowValue_append (row : List (ℕ × ℚ)) (x y : List ℚ) (h : ∀ e ∈ row, e.1 < x.length) :
    rowValue row (x ++ y) = rowValue row x := by
  have hmap : row.map (fun e => e.2 * (x ++ y).getD e.1 0) =
      row.map fun e => e.2 * x.getD e.1 0 := by
    apply List.map_congr_left
    intro e he
    rw [List.getD_append _ _ _ _ (h e he)]
  rw [rowValue, hmap, rowValue]

theorem rowDot_beside_one (row : List (ℕ × ℚ)) (j : ℕ) (z : List ℚ) :
    RowMatrix.rowDot (finiteRow row ++ [(j, 1)]) (finites z) =
      .finite (rowValue row z + coord z j) := by
  have hrow : finiteRow row ++ [(j, 1)] = finiteRow (row ++ [(j, 1)]) := by simp [finiteRow]
  rw [hrow, rowDot_finite]
  simp [rowValue, coord]

theorem getD_rows_finite (A : RowMatrix ℚ) (i : ℕ) :
    A.finite.rows.getD i [] = finiteRow (A.rows.getD i []) :=
  List.getD_map A.rows [] finiteRow

theorem within_equal_iff (p q : ℚ) : Within (.finite p, .finite p) (.finite q) ↔ q = p := by
  simp only [Within, Extended.le_finite_iff]
  constructor
  · rintro ⟨h, h'⟩
    exact le_antisymm h' h
  · rintro rfl
    exact ⟨le_rfl, le_rfl⟩

theorem within_rowBounds_iff (b : List ℚ) (i : ℕ) (k : Kind) (v : ℚ)
    (hk : k.supported = true) (hs : k ≠ .secondOrder) :
    Within (rowBounds (finites b) (i, k)) (.finite v) ↔ k.Allows (coord b i - v) := by
  have hb : (finites b).getD i 0 = .finite (coord b i) := getD_finites b i
  cases k with
  | free =>
    have hrow : rowBounds (finites b) (i, .free) = (.negInfinity, .infinity) := rfl
    simp [hrow, Within, Kind.Allows]
  | zero =>
    have hrow : rowBounds (finites b) (i, .zero) = (.finite (coord b i), .finite (coord b i)) := by
      rw [← hb]
      rfl
    rw [hrow, within_equal_iff, Kind.Allows, sub_eq_zero, eq_comm]
  | nonneg =>
    have hrow : rowBounds (finites b) (i, .nonneg) = (.negInfinity, .finite (coord b i)) := by
      rw [← hb]
      rfl
    simp [hrow, Within, Kind.Allows]
  | nonpos =>
    have hrow : rowBounds (finites b) (i, .nonpos) = (.finite (coord b i), .infinity) := by
      rw [← hb]
      rfl
    simp [hrow, Within, Kind.Allows]
  | secondOrder => exact absurd rfl hs
  | rotatedSecondOrder => cases hk
  | semidefinite => cases hk
  | exponential => cases hk
  | dualExponential => cases hk

theorem linear_rows_hold_iff {n : Numbers ℚ} (hn : n.Consistent) (x y : List ℚ)
    (hx : x.length = n.cost.length) (constraintCones : List Cone)
    (hsupported : ∀ k ∈ constraintCones, k.kind.supported = true)
    (hrows : ∀ k ∈ constraintCones, ∀ i ∈ k.indices, i < n.rightHand.length) :
    (∀ r ∈ (Partition.ofCones constraintCones).linear,
        Within (rowBounds (finites n.rightHand) r)
          (RowMatrix.rowDot (n.matrix.finite.rows.getD r.1 []) (finites (x ++ y)))) ↔
      ∀ k ∈ constraintCones, k.isSecondOrder = false → k.Contains (coord (n.slack x)) := by
  rw [forall_linear_iff constraintCones fun i k => Within (rowBounds (finites n.rightHand) (i, k))
    (RowMatrix.rowDot (n.matrix.finite.rows.getD i []) (finites (x ++ y)))]
  apply forall₂_congr
  intro k hk
  apply imp_congr_right
  intro hs
  simp only [Cone.Contains, hs, Bool.false_eq_true, if_false]
  apply forall₂_congr
  intro i hi
  have hlt : i < n.rightHand.length := hrows k hk i hi
  have hkind : k.kind ≠ .secondOrder := by simpa [Cone.isSecondOrder] using hs
  rw [getD_rows_finite, rowDot_finite, rowValue_append _ _ _ (hn.columns_lt hx i),
    within_rowBounds_iff _ _ _ _ (hsupported k hk) hkind, Numbers.coord_slack hn x hlt]

theorem zip_range_iff {β γ : Type} (is : List β) (y : List γ) (d : γ) (s : β → γ)
    (h : y.length = is.length) :
    (∀ p ∈ is.zip (List.range is.length), y.getD p.2 d = s p.1) ↔ y = is.map s := by
  constructor
  · intro hall
    apply List.ext_getElem
    · simpa using h
    · intro j hj hj'
      have hi : j < is.length := by simpa using hj'
      have hmem : (is[j], j) ∈ is.zip (List.range is.length) := by
        apply List.mem_iff_getElem.mpr
        exact ⟨j, by simpa using hi, by simp⟩
      have hval : y.getD j d = s is[j] := hall _ hmem
      rw [List.getD_eq_getElem _ _ hj] at hval
      rw [hval, List.getElem_map]
  · rintro rfl p hp
    obtain ⟨j, hj, rfl⟩ := List.mem_iff_getElem.mp hp
    have hi : j < is.length := by simpa using hj
    simp [hi]

theorem auxiliary_rows_hold_iff {n : Numbers ℚ} (hn : n.Consistent) (x y : List ℚ)
    (hx : x.length = n.cost.length) (is : List ℕ) (hy : y.length = is.length)
    (hrows : ∀ i ∈ is, i < n.rightHand.length) :
    (∀ p ∈ is.zip (List.range is.length),
        Within (.finite (coord n.rightHand p.1), .finite (coord n.rightHand p.1))
          (RowMatrix.rowDot (n.matrix.finite.rows.getD p.1 [] ++ [(n.matrix.numCols + p.2, 1)])
            (finites (x ++ y)))) ↔
      y = is.map (coord (n.slack x)) := by
  rw [← zip_range_iff is y 0 (coord (n.slack x)) hy]
  apply forall₂_congr
  rintro ⟨i, j⟩ hp
  have hi : i < n.rightHand.length := hrows i (List.of_mem_zip hp).1
  have hcoord : coord (x ++ y) (n.matrix.numCols + j) = y.getD j 0 := by
    rw [hn.cols, ← hx, coord, List.getD_append_right _ _ _ _ (by omega), Nat.add_sub_cancel_left]
  rw [getD_rows_finite, rowDot_beside_one, hcoord, rowValue_append _ _ _ (hn.columns_lt hx i),
    within_equal_iff, Numbers.coord_slack hn x hi]
  constructor
  · intro h
    linarith
  · intro h
    linarith

theorem rows_hold_iff {n : Numbers ℚ} (hn : n.Consistent) (x y : List ℚ)
    (hx : x.length = n.cost.length) {constraintCones variableCones : List Cone}
    (hy : y.length = (Partition.ofCones constraintCones).numAux)
    (hfit : ConesFit n.rightHand.length n.cost.length constraintCones variableCones) :
    (n.finite.lift constraintCones variableCones).rows.Hold
        ((n.finite.lift constraintCones variableCones).matrix.mulVec (finites (x ++ y))) ↔
      (∀ k ∈ constraintCones, k.isSecondOrder = false → k.Contains (coord (n.slack x))) ∧
        y = n.secondOrderSlack constraintCones x := by
  obtain ⟨_, hs⟩ := (forall_parts_iff _ _).mpr hfit.rows
  have hfixed : (Partition.ofCones constraintCones).secondOrder.map (n.finite.rightHand.getD · 0) =
      ((Partition.ofCones constraintCones).secondOrder.zip
        (List.range (Partition.ofCones constraintCones).numAux)).map
          fun p => .finite (coord n.rightHand p.1) := by
    have hzip : (Partition.ofCones constraintCones).secondOrder =
        ((Partition.ofCones constraintCones).secondOrder.zip
          (List.range (Partition.ofCones constraintCones).numAux)).map Prod.fst := by
      rw [List.map_fst_zip]
      simp [Partition.numAux]
    conv_lhs => rw [hzip, List.map_map]
    apply List.map_congr_left
    intro p _
    exact getD_finites n.rightHand p.1
  simp only [Numbers.lift, RowMatrix.mulVec, linearRows, auxiliaryRows, List.map_append,
    List.map_map, hfixed]
  rw [Bounds.hold_append (by simp) (by simp)]
  apply and_congr
  · rw [← linear_rows_hold_iff hn x y hx constraintCones
      (fun k hk => hfit.supported k (List.mem_append_left _ hk)) hfit.rows]
    exact Bounds.hold_map _ (rowBounds (finites n.rightHand)) _
  · rw [n.secondOrderSlack_eq, ← auxiliary_rows_hold_iff hn x y hx _ hy hs]
    exact Bounds.hold_map _ (fun p : ℕ × ℕ =>
      (Extended.finite (coord n.rightHand p.1), Extended.finite (coord n.rightHand p.1))) _

end ConeLift
