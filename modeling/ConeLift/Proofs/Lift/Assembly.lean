import ConeLift.Lift.Assembly
import ConeLift.Proofs.Compressed
import ConeLift.Proofs.RowProducts

namespace ConeLift

variable {α : Type} [Scalar α]

namespace RowMatrix

theorem rowDot_append {row : List (ℕ × α)} {x : List α} (hrow : ∀ e ∈ row, e.1 < x.length)
    (y : List α) : rowDot row (x ++ y) = rowDot row x := by
  have hmap : (row.map fun e => e.2 * (x ++ y).getD e.1 0) =
      row.map fun e => e.2 * x.getD e.1 0 := by
    apply List.map_congr_left
    intro e he
    rw [List.getD_append _ _ _ _ (hrow e he)]
  rw [rowDot, hmap, rowDot]

theorem rowDot_beside_one (hone : ∀ a : α, 1 * a = a) {row : List (ℕ × α)} {x : List α}
    (hrow : ∀ e ∈ row, e.1 < x.length) (y : List α) (j : ℕ) :
    rowDot (row ++ [(x.length + j, 1)]) (x ++ y) = rowDot row x + y.getD j 0 := by
  have hunit : (x ++ y).getD (x.length + j) 0 = y.getD j 0 := by
    rw [List.getD_append_right _ _ _ _ (Nat.le_add_right _ _), Nat.add_sub_cancel_left]
  rw [← rowDot_append hrow y, rowDot, List.map_append, List.map_singleton, Vec.sum_concat,
    hone, hunit, rowDot]

theorem getD_mulVec (A : RowMatrix α) (x : List α) (i : ℕ) :
    (A.mulVec x).getD i 0 = rowDot (A.rows.getD i []) x :=
  List.getD_map A.rows [] (rowDot · x)

def stacked (A : RowMatrix α) (linear secondOrder : List ℕ) : RowMatrix α where
  numCols := A.numCols + secondOrder.length
  rows := linear.map (A.rows.getD · []) ++
    (secondOrder.zip (List.range secondOrder.length)).map fun p =>
      A.rows.getD p.1 [] ++ [(A.numCols + p.2, 1)]

theorem besideIdentity_rows (A : RowMatrix α) (is : List ℕ) :
    (RowMatrix.mk A.numCols (is.map (A.rows.getD · []))).besideIdentity =
      ⟨A.numCols + is.length, (is.zip (List.range is.length)).map fun p =>
        A.rows.getD p.1 [] ++ [(A.numCols + p.2, 1)]⟩ := by
  simp only [besideIdentity, numRows, List.length_map, List.zip_map_left, List.map_map]
  rfl

section

variable (A : RowMatrix α) (linear secondOrder : List ℕ)

theorem numRows_stacked :
    (A.stacked linear secondOrder).numRows = linear.length + secondOrder.length := by
  simp [stacked, numRows]

theorem getElem?_stacked_linear {r i : ℕ} (h : linear[r]? = some i) :
    (A.stacked linear secondOrder).rows[r]? = some (A.rows.getD i []) := by
  have hr : r < linear.length := (List.getElem?_eq_some_iff.mp h).1
  rw [stacked, List.getElem?_append_left (by simpa using hr), List.getElem?_map, h, Option.map_some]

theorem getElem?_stacked_secondOrder {j i : ℕ} (h : secondOrder[j]? = some i) :
    (A.stacked linear secondOrder).rows[linear.length + j]? =
      some (A.rows.getD i [] ++ [(A.numCols + j, 1)]) := by
  have hj : j < secondOrder.length := (List.getElem?_eq_some_iff.mp h).1
  have hpair : (secondOrder.zip (List.range secondOrder.length))[j]? = some (i, j) :=
    List.getElem?_zip_eq_some.mpr ⟨h, List.getElem?_range hj⟩
  rw [stacked, List.getElem?_append_right (by simp), List.length_map, Nat.add_sub_cancel_left,
    List.getElem?_map, hpair, Option.map_some]

variable {A}

theorem sorted_stacked (hA : A.EntriesFit) {R : ℕ → ℕ → Prop} (hR : ∀ i j, i < j → R i j) :
    List.Forall₂ (fun i row => SortedBy R (A.rows.getD i []) → SortedBy R row)
      (linear ++ secondOrder) (A.stacked linear secondOrder).rows := by
  have hzip : secondOrder = (secondOrder.zip (List.range secondOrder.length)).map Prod.fst := by
    rw [List.map_fst_zip (by simp)]
  rw [stacked, forall₂_append_iff (by simp)]
  constructor
  · rw [List.forall₂_map_right_iff, List.forall₂_same]
    exact fun i _ => id
  · rw [List.forall₂_map_right_iff]
    conv_lhs => rw [hzip]
    rw [List.forall₂_map_left_iff, List.forall₂_same]
    rintro ⟨i, j⟩ _ hsorted
    exact hsorted.concat hR 1 fun e he => Nat.lt_add_right j (hA.getD i e he)

theorem mulVec_stacked (hone : ∀ a : α, 1 * a = a) (hA : A.EntriesFit) {x y : List α}
    (hx : x.length = A.numCols) (hy : y.length = secondOrder.length) :
    (A.stacked linear secondOrder).mulVec (x ++ y) = linear.map ((A.mulVec x).getD · 0) ++
      List.zipWith (· + ·) (secondOrder.map ((A.mulVec x).getD · 0)) y := by
  have hrow (i : ℕ) : ∀ e ∈ A.rows.getD i [], e.1 < x.length := hx ▸ hA.getD i
  have hbeside (i j : ℕ) : rowDot (A.rows.getD i [] ++ [(A.numCols + j, 1)]) (x ++ y) =
      rowDot (A.rows.getD i []) x + y.getD j 0 := by
    rw [← hx, rowDot_beside_one hone (hrow i)]
  rw [mulVec, stacked, List.map_append, List.map_map, List.map_map]
  congr 1
  · apply List.map_congr_left
    intro i _
    rw [Function.comp_apply, rowDot_append (hrow i), getD_mulVec]
  · apply List.ext_getElem
    · simp [hy]
    · intro j hj hj'
      have hjy : j < y.length := by simpa [hy] using hj
      simp only [List.getElem_map, List.getElem_zip, List.getElem_range, Function.comp_apply,
        List.getElem_zipWith, getD_mulVec]
      rw [hbeside, List.getD_eq_getElem _ _ hjy]

end

end RowMatrix

theorem assemble_ofNat (A : RowMatrix α) {linear secondOrder : List ℕ}
    (hlinear : ∀ i ∈ linear, i < A.numRows) (hsecondOrder : ∀ i ∈ secondOrder, i < A.numRows) :
    assemble A (linear.map fun i : ℕ => (i : ℤ)) (secondOrder.map fun i : ℕ => (i : ℤ))
        secondOrder.length = .ok (A.stacked linear secondOrder) := by
  have hneg : ¬((A.numCols : ℤ) + (secondOrder.length : ℤ) < 0) := by omega
  simp only [assemble, A.select_ofNat linear hlinear, A.select_ofNat secondOrder hsecondOrder,
    bind, Except.bind, pure, Except.pure, hneg, if_false, Compressed.ofRows_beside_identity,
    Compressed.ofRows_widen, Compressed.ofRows_above, Compressed.toRows_ofRows]
  by_cases hnone : secondOrder = []
  · simp [hnone, RowMatrix.stacked]
  · have hsome : ¬((secondOrder.length : ℤ) = 0) := by simpa using hnone
    simp only [hsome, if_false, RowMatrix.besideIdentity_rows]
    by_cases hnil : linear = []
    · simp [hnil, RowMatrix.numRows, RowMatrix.stacked]
    · simp [hnil, RowMatrix.numRows, RowMatrix.above, RowMatrix.widen, RowMatrix.stacked]

/-- The block has a row for every index of both lists. It stores the entries of that row in their
order, and for an auxiliary column a one behind them, so that a row stays sorted; its product with
`x` and `y` is `A x` at the linear rows and `A x + y` at the others. -/
theorem assemble_stacks (A : RowMatrix α) (linear secondOrder : List ℕ) (hA : A.EntriesFit)
    (hlinear : ∀ i ∈ linear, i < A.numRows) (hsecondOrder : ∀ i ∈ secondOrder, i < A.numRows) :
    ∃ B, assemble A (linear.map fun i : ℕ => (i : ℤ)) (secondOrder.map fun i : ℕ => (i : ℤ))
        secondOrder.length = .ok B ∧
      B.numRows = linear.length + secondOrder.length ∧
      B.numCols = A.numCols + secondOrder.length ∧
      (∀ r i : ℕ, linear[r]? = some i → ∃ row, A.rows[i]? = some row ∧ B.rows[r]? = some row) ∧
      (∀ j i : ℕ, secondOrder[j]? = some i → ∃ row, A.rows[i]? = some row ∧
        B.rows[linear.length + j]? = some (row ++ [(A.numCols + j, 1)])) ∧
      (∀ R : ℕ → ℕ → Prop, (∀ i j, i < j → R i j) →
        List.Forall₂ (fun i row => RowMatrix.SortedBy R (A.rows.getD i []) →
          RowMatrix.SortedBy R row) (linear ++ secondOrder) B.rows) ∧
      ((∀ a : α, 1 * a = a) → ∀ x y : List α, x.length = A.numCols → y.length = secondOrder.length →
        B.mulVec (x ++ y) = linear.map ((A.mulVec x).getD · 0) ++
          List.zipWith (· + ·) (secondOrder.map ((A.mulVec x).getD · 0)) y) := by
  have hrow {i : ℕ} (hi : i < A.numRows) : A.rows[i]? = some (A.rows.getD i []) := by
    rw [List.getElem?_eq_getElem hi, List.getD_eq_getElem _ _ hi]
  refine ⟨_, assemble_ofNat A hlinear hsecondOrder, A.numRows_stacked linear secondOrder, rfl,
    ?_, ?_, ?_, ?_⟩
  · intro r i hr
    exact ⟨_, hrow (hlinear i (List.mem_of_getElem? hr)),
      A.getElem?_stacked_linear linear secondOrder hr⟩
  · intro j i hj
    exact ⟨_, hrow (hsecondOrder i (List.mem_of_getElem? hj)),
      A.getElem?_stacked_secondOrder linear secondOrder hj⟩
  · intro R hR
    exact RowMatrix.sorted_stacked linear secondOrder hA hR
  · intro hone x y hx hy
    exact RowMatrix.mulVec_stacked linear secondOrder hone hA hx hy

def scatteredRows : RowMatrix Extended :=
  ⟨2, [[(1, .finite 3), (0, 1), (1, .finite 4)], [], [(0, 0), (1, .finite 2)]]⟩

theorem assemble_stacks_scattered :
    ∃ B, assemble scatteredRows [2, 1, 2] [0, 0, 1] 3 = .ok B ∧
      B.rows[5]? = some [(4, 1)] ∧
      B.mulVec [.finite 10, .finite 100, .finite 1, .infinity, .finite 5] =
        [.finite 200, .finite 0, .finite 200, .finite 711, .infinity, .finite 5] := by
  obtain ⟨B, hB, _, _, _, hrows, _, hproduct⟩ := assemble_stacks scatteredRows [2, 1, 2]
    [0, 0, 1] (by decide) (by decide) (by decide)
  obtain ⟨_, hnone, hlast⟩ := hrows 2 1 rfl
  cases hnone
  have hvalue := hproduct Extended.one_mul [.finite 10, .finite 100]
    [.finite 1, .infinity, .finite 5] rfl rfl
  refine ⟨B, hB, hlast, hvalue.trans ?_⟩
  decide +kernel

end ConeLift
