import ConeLift.Proofs.Calls
import ConeLift.Proofs.Lift.ColumnRanges
import ConeLift.Proofs.Lift.Exactness
import ConeLift.Proofs.Loading
import ConeLift.Proofs.Split

namespace ConeLift

theorem RowMatrix.exists_finite (A : RowMatrix Extended)
    (h : ∀ row ∈ A.rows, ∃ r, row = finiteRow r) : ∃ A' : RowMatrix ℚ, A = A'.finite := by
  obtain ⟨numCols, rows⟩ := A
  have hrows : ∃ rows' : List (List (ℕ × ℚ)), rows = rows'.map finiteRow := by
    induction rows with
    | nil => exact ⟨[], rfl⟩
    | cons row rows ih =>
      obtain ⟨r, rfl⟩ := h row List.mem_cons_self
      obtain ⟨rows', rfl⟩ := ih fun row' hrow' => h row' (List.mem_cons_of_mem _ hrow')
      exact ⟨r :: rows', rfl⟩
  obtain ⟨rows', rfl⟩ := hrows
  exact ⟨⟨numCols, rows'⟩, rfl⟩

theorem Bounds.pair_of_map (l : List (Extended × Extended)) (i : ℕ) :
    pair ⟨l.map Prod.fst, l.map Prod.snd⟩ i = l.getD i (0, 0) := by
  have hfst := List.getD_map (n := i) l (0, 0) Prod.fst
  have hsnd := List.getD_map (n := i) l (0, 0) Prod.snd
  simp only [pair, hfst, hsnd]

theorem regular_equal (q : ℚ) : Regular (.finite q, .finite q) := by simp [Regular]

theorem regular_rowBounds (b : List ℚ) (i : ℕ) (k : Kind) :
    Regular (rowBounds (finites b) (i, k)) := by
  have hb : (finites b).getD i (.finite 0) = .finite (coord b i) := getD_finites b i
  cases k <;> simp [Regular, rowBounds, Kind.boundsBelow, Kind.boundsAbove, hb,
    -List.getD_eq_getElem?_getD]

theorem regular_columnBounds (variableCones constraintCones : List Cone) (numOrig j : ℕ) :
    Regular (columnBounds variableCones constraintCones numOrig j) := by
  obtain ⟨hlower, hupper⟩ :=
    columnBounds_sides (α := Extended) variableCones constraintCones numOrig j
  simp only [List.mem_cons, List.not_mem_nil, or_false] at hlower hupper
  rcases hlower with hl | hl <;> rcases hupper with hu | hu <;> simp [Regular, hl, hu]

def rowPairs (b : List ℚ) (parts : Partition) : List (Extended × Extended) :=
  parts.linear.map (rowBounds (finites b)) ++
    parts.secondOrder.map fun j => (.finite (coord b j), .finite (coord b j))

section

variable {n : Numbers ℚ} {constraintCones variableCones : List Cone}

theorem length_cost_program (n : Numbers Extended) (constraintCones variableCones : List Cone) :
    (n.lift constraintCones variableCones).program.cost.length =
      (n.lift constraintCones variableCones).numVar := by
  simp [Lifted.program, Lifted.toLinear, Numbers.lift, Lifted.numVar]

theorem lift_matrix_finite (n : Numbers ℚ) (constraintCones variableCones : List Cone) :
    ∃ A : RowMatrix ℚ, (n.finite.lift constraintCones variableCones).matrix = A.finite := by
  apply RowMatrix.exists_finite
  intro row hrow
  simp only [Numbers.lift, linearRows, auxiliaryRows, List.mem_append, List.mem_map] at hrow
  rcases hrow with ⟨r, _, rfl⟩ | ⟨r, _, rfl⟩
  · exact ⟨_, getD_rows_finite n.matrix r.1⟩
  · have hrow := getD_rows_finite n.matrix r.1
    refine ⟨n.matrix.rows.getD r.1 [] ++ [(n.matrix.numCols + r.2, 1)], ?_⟩
    rw [Numbers.finite]
    simp only [hrow, numCols_finite]
    simp [finiteRow]

theorem lift_rows_regular (n : Numbers ℚ) (constraintCones variableCones : List Cone) (i : ℕ) :
    Regular ((n.finite.lift constraintCones variableCones).rows.pair i) := by
  have hfixed : (Partition.ofCones constraintCones).secondOrder.map (n.finite.rightHand.getD · 0) =
      (Partition.ofCones constraintCones).secondOrder.map
        fun j => .finite (coord n.rightHand j) :=
    List.map_congr_left fun j _ => getD_finites n.rightHand j
  have hrows : (n.finite.lift constraintCones variableCones).rows =
      ⟨(rowPairs n.rightHand (Partition.ofCones constraintCones)).map Prod.fst,
        (rowPairs n.rightHand (Partition.ofCones constraintCones)).map Prod.snd⟩ := by
    simp only [Numbers.lift, hfixed, rowPairs, List.map_append, List.map_map]
    rfl
  rw [hrows, Bounds.pair_of_map]
  apply getD_of_forall _ _ _ _ (regular_equal 0)
  intro b hb
  rcases List.mem_append.mp hb with hb | hb
  · obtain ⟨r, _, rfl⟩ := List.mem_map.mp hb
    exact regular_rowBounds n.rightHand r.1 r.2
  · obtain ⟨j, _, rfl⟩ := List.mem_map.mp hb
    exact regular_equal _

theorem lift_program_shaped (hn : n.Consistent) (constraintCones variableCones : List Cone) :
    (n.program constraintCones variableCones).Shaped := by
  have hcols : n.finite.matrix.numCols = n.finite.cost.length := by
    rw [show n.finite.cost.length = n.cost.length from length_finites n.cost, ← hn.cols]
    rfl
  have hrows : (auxiliaryRows n.finite.matrix (Partition.ofCones constraintCones)).length =
      (Partition.ofCones constraintCones).secondOrder.length := by
    simp [auxiliaryRows, Partition.numAux]
  constructor <;> simp [Lifted.program, Lifted.toLinear, Numbers.lift, hcols, hrows,
    RowMatrix.numRows, linearRows]

theorem lift_columns_regular (hn : n.Consistent) (constraintCones variableCones : List Cone) :
    ∀ j < (n.program constraintCones variableCones).cost.length,
      Regular ((n.program constraintCones variableCones).columns.pair j) := by
  intro j hj
  obtain ⟨N, hcolumns⟩ : ∃ N, (n.program constraintCones variableCones).columns = .tabulate N
      (columnBounds variableCones constraintCones n.finite.cost.length) := ⟨_, rfl⟩
  have hN : N = (n.program constraintCones variableCones).cost.length := by
    rw [← (lift_program_shaped hn _ _).lower, hcolumns, Bounds.length_lower_tabulate]
  rw [← hN] at hj
  rw [hcolumns, Bounds.pair_tabulate _ hj]
  exact regular_columnBounds variableCones constraintCones _ j

theorem lift_quadratics_finite
    (hfit : ConesFit n.rightHand.length n.cost.length constraintCones variableCones) :
    ∃ qs : List (QuadraticRow ℚ),
      (n.program constraintCones variableCones).quadratics = qs.map QuadraticRow.finite ∧
        ∀ q ∈ qs, q.Fits (n.program constraintCones variableCones).cost.length := by
  have hquadratics : (n.program constraintCones variableCones).quadratics =
      ((secondOrderBlocks variableCones constraintCones n.finite.cost.length).map
        QuadraticRow.coneRow).map QuadraticRow.finite := by
    rw [List.map_map]
    exact List.map_congr_left fun block _ => (QuadraticRow.finite_coneRow block).symm
  have hapart : (n.finite.lift constraintCones variableCones).Apart constraintCones
      variableCones := by
    apply apart_of_lt
    rw [show (n.finite.lift constraintCones variableCones).numOrig = n.cost.length from
      length_finites n.cost]
    exact hfit.columns
  refine ⟨_, hquadratics, ?_⟩
  intro q hq
  apply QuadraticRow.fits_finite_iff.mp
  rw [Numbers.program, length_cost_program]
  apply hapart.rows
  change q.finite ∈ (n.program constraintCones variableCones).quadratics
  rw [hquadratics]
  exact List.mem_map_of_mem hq

theorem signedCost_program (p : Lifted Extended) : p.program.signedCost = p.cost :=
  List.map_id p.cost

theorem program_satisfied_iff (hn : n.Consistent) (z : List ℚ) :
    (n.program constraintCones variableCones).Satisfied z ↔
      (n.finite.lift constraintCones variableCones).Satisfied z := by
  have hshaped := lift_program_shaped hn constraintCones variableCones
  constructor
  · intro h
    exact ⟨h.columns, h.rows, h.quadratics⟩
  · intro h
    refine ⟨h.columns, h.rows, h.quadratics, ?_⟩
    have hlength : z.length =
        (n.program constraintCones variableCones).cost.length := by
      rw [← hshaped.lower, ← length_finites z]
      exact h.columns.1.length_eq.symm
    rw [List.forall₂_iff_get]
    refine ⟨by rw [hshaped.types, hlength], ?_⟩
    intro i hi _
    have htype : (n.program constraintCones variableCones).types.get ⟨i, hi⟩ =
        .continuous := by
      simp [Lifted.program]
    rw [htype]
    trivial

end

end ConeLift
