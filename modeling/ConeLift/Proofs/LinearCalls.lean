import ConeLift.Proofs.Calls
import ConeLift.Proofs.Extremes
import ConeLift.Proofs.Lift.RowPoints
import ConeLift.Proofs.Split

namespace ConeLift

theorem sidesAllow_present (lo hi : Extended) (v : ℚ) :
    SidesAllow (if Scalar.isNegInfinity lo then none else some lo,
      if Scalar.isInfinity hi then none else some hi) v ↔ Within (lo, hi) (.finite v) := by
  have hlo : (∀ l ∈ (if Scalar.isNegInfinity lo then none else some lo : Option Extended),
      Scalar.le l (.finite v) = true) ↔ Scalar.le lo (.finite v) = true := by
    cases lo with
    | negInfinity =>
      have hinfinite : Scalar.isNegInfinity Extended.negInfinity = true := rfl
      simp [hinfinite]
    | _ => simp [Scalar.isNegInfinity, Scalar.eq, Extended.eq]
  have hhi : (∀ u ∈ (if Scalar.isInfinity hi then none else some hi : Option Extended),
      Scalar.le (.finite v) u = true) ↔ Scalar.le (.finite v) hi = true := by
    cases hi with
    | infinity =>
      have hinfinite : Scalar.isInfinity Extended.infinity = true := rfl
      simp [hinfinite]
    | _ => simp [Scalar.isInfinity, Scalar.eq, Extended.eq]
  exact and_congr hlo hhi

theorem isWhole_iff_of_unit {v : ℚ} (h : 0 ≤ v) (h' : v ≤ 1) : IsWhole v ↔ v = 0 ∨ v = 1 := by
  constructor
  · rintro ⟨k, rfl⟩
    have hk : 0 ≤ k := by exact_mod_cast h
    have hk' : k ≤ 1 := by exact_mod_cast h'
    have hcases : k = 0 ∨ k = 1 := by omega
    rcases hcases with rfl | rfl
    · left
      simp
    · right
      simp
  · rintro (rfl | rfl)
    · exact ⟨0, by simp⟩
    · exact ⟨1, by simp⟩

theorem sidesAllow_side_iff (t : VarType) (b : Extended × Extended) (v : ℚ) :
    SidesAllow (Bounds.side t b.1 b.2) v ∧ (t.isIntegral = true → IsWhole v) ↔
      Within b (.finite v) ∧ t.Allows v := by
  cases t with
  | continuous => simp [Bounds.side, sidesAllow_present, VarType.isIntegral, VarType.Allows]
  | integer => simp [Bounds.side, sidesAllow_present, VarType.isIntegral, VarType.Allows]
  | binary =>
    have hsides : SidesAllow (Bounds.side .binary b.1 b.2) v ↔
        (Scalar.le b.1 (.finite v) = true ∧ 0 ≤ v) ∧ Scalar.le (.finite v) b.2 = true ∧ v ≤ 1 := by
      simp only [Bounds.side, if_true, sidesAllow_present, Within, Extended.zero_eq,
        Extended.one_eq, Extended.firstMax_le_iff b.1 (Extended.finite_ne_undefined 0),
        Extended.le_firstMin_iff b.2 (Extended.finite_ne_undefined 1), Extended.le_finite_iff]
    simp only [hsides, VarType.isIntegral, VarType.Allows, true_imp_iff, Within]
    constructor
    · rintro ⟨⟨⟨hl, h0⟩, hu, h1⟩, hv⟩
      exact ⟨⟨hl, hu⟩, (isWhole_iff_of_unit h0 h1).mp hv⟩
    · rintro ⟨⟨hl, hu⟩, hv⟩
      have h0 : 0 ≤ v := by rcases hv with rfl | rfl <;> norm_num
      have h1 : v ≤ 1 := by rcases hv with rfl | rfl <;> norm_num
      exact ⟨⟨⟨hl, h0⟩, hu, h1⟩, (isWhole_iff_of_unit h0 h1).mpr hv⟩

theorem present_block_iff {R : Extended → Extended → Prop} (A : RowMatrix Extended)
    (b z : List Extended) (h : A.numRows = b.length) :
    (∀ A' ∈ (if A.numRows = 0 then none else some A : Option (RowMatrix Extended)),
      ∀ b' ∈ (if b.isEmpty then none else some b : Option (List Extended)),
        List.Forall₂ R (A'.mulVec z) b') ↔ List.Forall₂ R (A.mulVec z) b := by
  by_cases hb : b = []
  · have hrows : A.rows = [] := by
      rw [hb] at h
      exact List.length_eq_zero_iff.mp h
    simp [hb, RowMatrix.mulVec, RowMatrix.numRows, hrows]
  · have hne : A.numRows ≠ 0 := by
      rw [h]
      exact fun h0 => hb (List.length_eq_zero_iff.mp h0)
    simp [hb, hne]

theorem split_rows_hold_iff_classes (A : RowMatrix Extended) (b : ℕ → Extended × Extended)
    (z : List Extended) (k : RowClasses) :
    (List.Forall₂ (fun v w => Scalar.le v w = true)
        ((k.above.map (A.rows.getD · []) ++
          k.below.map fun i => RowMatrix.negRow (A.rows.getD i [])).map (RowMatrix.rowDot · z))
        (k.above.map (fun i => (b i).2) ++ k.below.map fun i => -(b i).1) ∧
      List.Forall₂ (fun v w => Scalar.eq v w = true)
        ((k.equal.map (A.rows.getD · [])).map (RowMatrix.rowDot · z))
        (k.equal.map fun i => (b i).1)) ↔
      (∀ i ∈ k.equal, Scalar.eq (RowMatrix.rowDot (A.rows.getD i []) z) (b i).1 = true) ∧
        (∀ i ∈ k.above, Scalar.le (RowMatrix.rowDot (A.rows.getD i []) z) (b i).2 = true) ∧
        ∀ i ∈ k.below,
          Scalar.le (-RowMatrix.rowDot (A.rows.getD i []) z) (-(b i).1) = true := by
  rw [List.map_append, forall₂_append_iff (by simp)]
  simp only [List.map_map, List.forall₂_map_left_iff, List.forall₂_map_right_iff,
    List.forall₂_same, Function.comp_apply, RowMatrix.rowDot_negRow]
  constructor
  · rintro ⟨⟨habove, hbelow⟩, hequal⟩
    exact ⟨hequal, habove, hbelow⟩
  · rintro ⟨hequal, habove, hbelow⟩
    exact ⟨⟨habove, hbelow⟩, hequal⟩

theorem split_rows_hold_iff (A : RowMatrix ℚ) (b : ℕ → Extended × Extended) (x : List ℚ)
    (hb : ∀ i < A.numRows, Regular (b i)) (k : RowClasses)
    (hk : k = RowClasses.ofPairs A.numRows b) :
    (List.Forall₂ (fun v w => Scalar.le v w = true)
        ((k.above.map (A.finite.rows.getD · []) ++
          k.below.map fun i => RowMatrix.negRow (A.finite.rows.getD i [])).map
            (RowMatrix.rowDot · (finites x)))
        (k.above.map (fun i => (b i).2) ++ k.below.map fun i => -(b i).1) ∧
      List.Forall₂ (fun v w => Scalar.eq v w = true)
        ((k.equal.map (A.finite.rows.getD · [])).map (RowMatrix.rowDot · (finites x)))
        (k.equal.map fun i => (b i).1)) ↔
      (Bounds.tabulate A.numRows b).Hold (A.finite.mulVec (finites x)) := by
  have hvalue (i : ℕ) : RowMatrix.rowDot (A.finite.rows.getD i []) (finites x) =
      .finite (rowValue (A.rows.getD i []) x) := by
    rw [getD_rows_finite, rowDot_finite]
  rw [split_rows_hold_iff_classes, ← classes_hold_iff_rows_hold A b x hb, ← hk]
  simp only [hvalue]

theorem whole_iff (types : List VarType) (x : List ℚ) (h : x.length = types.length) :
    (∀ w ∈ (if (types.map VarType.isIntegral).any id then some (types.map VarType.isIntegral)
        else none : Option (List Bool)),
      List.Forall₂ (fun flag v => flag = true → IsWhole v) w x) ↔
      List.Forall₂ (fun t v => t.isIntegral = true → IsWhole v) types x := by
  by_cases hany : (types.map VarType.isIntegral).any id = true
  · simp [hany]
  · have hnone : ∀ t ∈ types, t.isIntegral = false := by simpa using hany
    simp only [hany, if_false, Bool.false_eq_true, Option.not_mem_none, false_imp_iff,
      implies_true, true_iff]
    rw [List.forall₂_iff_get]
    refine ⟨h.symm, ?_⟩
    intro i hi _ hwhole
    rw [hnone _ (List.get_mem types ⟨i, hi⟩)] at hwhole
    cases hwhole

theorem sides_types_iff (n : ℕ) (b : ℕ → Extended × Extended) (t : ℕ → VarType) (x : List ℚ) :
    (List.Forall₂ SidesAllow ((Bounds.tabulate n b).sides ((List.range n).map t)) x ∧
        List.Forall₂ (fun t v => t.isIntegral = true → IsWhole v) ((List.range n).map t) x) ↔
      (Bounds.tabulate n b).Hold (finites x) ∧
        List.Forall₂ VarType.Allows ((List.range n).map t) x := by
  have hsides : (Bounds.tabulate n b).sides ((List.range n).map t) =
      (List.range n).map fun j => Bounds.side (t j) (b j).1 (b j).2 := by
    simp [Bounds.sides, Bounds.tabulate, List.zip, List.zipWith_map, List.zipWith_self]
  rw [hsides, Bounds.hold_tabulate, forall₂_map_range_iff _ _ _ 0, forall₂_map_range_iff _ _ _ 0,
    forall₂_map_range_iff _ _ _ 0]
  constructor
  · rintro ⟨⟨hlength, hs⟩, _, hw⟩
    have h := fun j hj => (sidesAllow_side_iff (t j) (b j) _).mp ⟨hs j hj, hw j hj⟩
    exact ⟨⟨hlength, fun j hj => (h j hj).1⟩, hlength, fun j hj => (h j hj).2⟩
  · rintro ⟨⟨hlength, hb⟩, _, ht⟩
    have h := fun j hj => (sidesAllow_side_iff (t j) (b j) _).mpr ⟨hb j hj, ht j hj⟩
    exact ⟨⟨hlength, fun j hj => (h j hj).1⟩, hlength, fun j hj => (h j hj).2⟩

theorem Program.linearCall_exact (p : Program Extended) (o : Options Extended) {A : RowMatrix ℚ}
    (hp : p.Shaped) (hA : p.matrix = A.finite)
    (hrows : ∀ i < A.numRows, Regular (p.rows.pair i)) (hquadratics : p.quadratics = []) :
    ∃ call, p.linearCall o = .ok call ∧ call.cost = p.signedCost ∧
      ∀ x, call.Feasible x ↔ p.Satisfied x := by
  have hnumRows : p.matrix.numRows = A.numRows := by rw [hA, numRows_finite]
  have hpairs : p.rows = Bounds.tabulate p.matrix.numRows p.rows.pair :=
    p.rows.eq_tabulate hp.rowLower hp.rowUpper
  have hsplit := SplitRows.sparse_tabulate p.matrix p.rows.pair
  rw [← hpairs] at hsplit
  simp only [linearCall, hsplit, bind, Except.bind, pure, Except.pure]
  refine ⟨_, rfl, rfl, ?_⟩
  intro x
  have hrowsIff := split_rows_hold_iff A p.rows.pair x hrows
    (RowClasses.ofPairs p.matrix.numRows p.rows.pair) (by rw [hnumRows])
  rw [← hnumRows, ← hA, ← hpairs] at hrowsIff
  have hsides := sides_types_iff p.cost.length p.columns.pair (p.types.getD · .continuous) x
  have htypes := eq_map_range p.types .continuous
  rw [hp.types] at htypes
  rw [← p.columns.eq_tabulate hp.lower hp.upper, ← htypes] at hsides
  constructor
  · intro h
    have hlength : x.length = p.types.length := by
      have hsize := h.sides.length_eq
      simp only [Bounds.sides, List.length_zipWith, List.length_zip, hp.lower, hp.upper,
        hp.types, min_self] at hsize
      rw [← hsize, hp.types]
    have hinequalities := (present_block_iff _ _ _ (by simp [RowMatrix.numRows])).mp h.inequalities
    have hequations := (present_block_iff _ _ _ (by simp [RowMatrix.numRows])).mp h.equations
    have hwhole := (whole_iff p.types x hlength).mp h.whole
    obtain ⟨hcolumns, htypes⟩ := hsides.mp ⟨h.sides, hwhole⟩
    refine ⟨hcolumns, hrowsIff.mp ⟨hinequalities, hequations⟩, ?_, htypes⟩
    simp [hquadratics]
  · intro h
    have hlength : x.length = p.types.length := h.types.length_eq.symm
    obtain ⟨hinequalities, hequations⟩ := hrowsIff.mpr h.rows
    obtain ⟨hbounds, hwhole⟩ := hsides.mpr ⟨h.columns, h.types⟩
    exact ⟨(present_block_iff _ _ _ (by simp [RowMatrix.numRows])).mpr hinequalities,
      (present_block_iff _ _ _ (by simp [RowMatrix.numRows])).mpr hequations, hbounds,
      (whole_iff p.types x hlength).mpr hwhole⟩

end ConeLift
