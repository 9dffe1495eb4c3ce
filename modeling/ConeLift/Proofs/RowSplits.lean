import ConeLift.Proofs.Split

namespace ConeLift

namespace RowMatrix

theorem rowEntry_negRow (row : List (ℕ × Extended)) (j : ℕ) :
    rowEntry (negRow row) j = -rowEntry row j := by
  have hvalues : ((negRow row).filter (·.1 = j)).map (·.2) =
      ((row.filter (·.1 = j)).map (·.2)).map fun x => -x := by
    simp only [negRow, List.filter_map, List.map_map]
    rfl
  rw [rowEntry, hvalues, sum_map_neg, rowEntry]

theorem denseRow_negRow (numCols : ℕ) (row : List (ℕ × Extended)) :
    denseRow numCols (negRow row) = (denseRow numCols row).map fun x => -x := by
  rw [denseRow, denseRow, List.map_map]
  apply List.map_congr_left
  intro j _
  exact rowEntry_negRow row j

theorem getD_toDense {A : RowMatrix Extended} {i : ℕ} (h : i < A.numRows) :
    A.toDense.getD i [] = denseRow A.numCols (A.rows.getD i []) := by
  have hdense : i < A.toDense.length := by rwa [length_toDense]
  rw [List.getD_eq_getElem _ _ hdense, List.getD_eq_getElem A.rows _ h]
  exact List.getElem_map _

end RowMatrix

namespace RowClasses

structure Sorts (k : RowClasses) (m : ℕ) (b : ℕ → Extended × Extended) : Prop where
  ordered : ∀ is ∈ [k.equal, k.above, k.below], is.Pairwise (· < ·)
  equal : ∀ i, i ∈ k.equal ↔ i < m ∧ ∃ q, b i = (.finite q, .finite q)
  above : ∀ i, i ∈ k.above ↔ i < m ∧ i ∉ k.equal ∧ ∃ u, (b i).2 = .finite u
  below : ∀ i, i ∈ k.below ↔ i < m ∧ i ∉ k.equal ∧ ∃ l, (b i).1 = .finite l

theorem ofPairs_sorts (m : ℕ) (b : ℕ → Extended × Extended) : (ofPairs m b).Sorts m b := by
  have hordered (p : ℕ → Bool) : ((List.range m).filter p).Pairwise (· < ·) :=
    List.pairwise_lt_range.filter p
  have hequal (i : ℕ) : i ∈ (ofPairs m b).equal ↔ i < m ∧ ∃ q, b i = (.finite q, .finite q) := by
    rw [← isEqual_iff]
    simp [ofPairs]
  have hside (x : ℕ → Extended) (i : ℕ) :
      i ∈ (List.range m).filter (fun i => Scalar.isFinite (x i) && !isEqual (b i).1 (b i).2) ↔
        i < m ∧ i ∉ (ofPairs m b).equal ∧ ∃ q, x i = .finite q := by
    rw [hequal, ← isEqual_iff, ← isFinite_iff]
    simp only [List.mem_filter, List.mem_range, Bool.and_eq_true, Bool.not_eq_true', not_and,
      Bool.not_eq_true]
    constructor
    · rintro ⟨hi, hfinite, hne⟩
      exact ⟨hi, fun _ => hne, hfinite⟩
    · rintro ⟨hi, hne, hfinite⟩
      exact ⟨hi, hfinite, hne hi⟩
  refine ⟨?_, hequal, hside fun i => (b i).2, hside fun i => (b i).1⟩
  simp only [List.forall_mem_cons, ofPairs]
  exact ⟨hordered _, hordered _, hordered _, by simp⟩

end RowClasses

namespace SplitRows

def written (s : SplitRows (RowMatrix Extended) Extended) :
    SplitRows (List (List Extended)) Extended where
  matrix := s.matrix.toDense
  bound := s.bound
  equations := s.equations.toDense
  values := s.values

theorem written_rows {A : RowMatrix Extended} {k : RowClasses} {b : ℕ → Extended × Extended}
    (hk : k.Sorts A.numRows b) :
    (SplitRows.mk
      ⟨A.numCols, k.above.map (A.rows.getD · []) ++
        k.below.map fun i => RowMatrix.negRow (A.rows.getD i [])⟩
      (k.above.map (fun i => (b i).2) ++ k.below.map fun i => -(b i).1)
      ⟨A.numCols, k.equal.map (A.rows.getD · [])⟩ (k.equal.map fun i => (b i).1)).written =
      ofClasses k (fun i => A.toDense.getD i []) b := by
  have hrow {is : List ℕ} (his : ∀ i ∈ is, i < A.numRows) :
      (is.map (A.rows.getD · [])).map (RowMatrix.denseRow A.numCols) =
        is.map fun i => A.toDense.getD i [] := by
    rw [List.map_map]
    apply List.map_congr_left
    intro i hi
    exact (RowMatrix.getD_toDense (his i hi)).symm
  have hnegRow {is : List ℕ} (his : ∀ i ∈ is, i < A.numRows) :
      (is.map fun i => RowMatrix.negRow (A.rows.getD i [])).map (RowMatrix.denseRow A.numCols) =
        is.map fun i => (A.toDense.getD i []).map fun x => -x := by
    rw [List.map_map]
    apply List.map_congr_left
    intro i hi
    rw [RowMatrix.getD_toDense (his i hi), Function.comp_apply, RowMatrix.denseRow_negRow]
  simp only [written, RowMatrix.toDense, List.map_append] at hrow hnegRow ⊢
  rw [hrow fun i hi => ((hk.above i).mp hi).1, hnegRow fun i hi => ((hk.below i).mp hi).1,
    hrow fun i hi => ((hk.equal i).mp hi).1]
  rfl

/-- Splitting the stored rows and splitting the rows in full give the same equations and
inequalities, and every row is where its bounds put it. -/
theorem sparse_eq_dense (A : RowMatrix Extended) (B : Bounds Extended)
    (hlower : B.lower.length = A.numRows) (hupper : B.upper.length = A.numRows) :
    ∃ k s, RowClasses.ofBounds B = .ok k ∧ k.Sorts A.numRows B.pair ∧ sparse A B = .ok s ∧
      s.matrix.numCols = A.numCols ∧ s.equations.numCols = A.numCols ∧
      dense A.toDense B = .ok s.written ∧
      s.written = ofClasses k (fun i => A.toDense.getD i []) B.pair := by
  have hpairs := B.eq_tabulate hlower hupper
  have hclasses := RowClasses.ofBounds_tabulate A.numRows B.pair
  have hsparse := sparse_tabulate A B.pair
  have hdense := dense_tabulate A.numRows (fun i => A.toDense.getD i []) B.pair
  have hrows : (List.range A.numRows).map (fun i => A.toDense.getD i []) = A.toDense := by
    rw [← A.length_toDense]
    exact (eq_map_range A.toDense []).symm
  have hsorts := RowClasses.ofPairs_sorts A.numRows B.pair
  rw [← hpairs] at hclasses hsparse hdense
  rw [hrows] at hdense
  refine ⟨_, _, hclasses, hsorts, hsparse, rfl, rfl, ?_, written_rows hsorts⟩
  rw [written_rows hsorts, hdense]

def mixedRows : RowMatrix Extended :=
  ⟨2, [[(0, 1), (1, .finite 2)], [], [(1, .finite 3), (0, 1), (1, .finite 4)], [(0, 0), (1, 1)],
    [(0, 1)], [(0, 1)]]⟩

def mixedBounds : Bounds Extended :=
  ⟨[.finite 5, .finite 2, .finite (-1), .finite 0, .negInfinity, .infinity],
    [.finite 5, .finite 1, .infinity, .finite 9, .undefined, .infinity]⟩

theorem sparse_eq_dense_mixed :
    mixedBounds.lower.length = mixedRows.numRows ∧
      mixedBounds.upper.length = mixedRows.numRows ∧
      ∃ k s, RowClasses.Sorts k mixedRows.numRows mixedBounds.pair ∧
        k = ⟨[0], [1, 3], [1, 2, 3]⟩ ∧ sparse mixedRows mixedBounds = .ok s ∧
        dense mixedRows.toDense mixedBounds = .ok s.written ∧
        s.written.matrix = [[0, 0], [0, 1], [0, 0], [.finite (-1), .finite (-7)],
          [0, .finite (-1)]] := by
  obtain ⟨k, s, hk, hsorts, hsparse, _, _, hdense, hwritten⟩ :=
    sparse_eq_dense mixedRows mixedBounds rfl rfl
  have hclasses : RowClasses.ofBounds mixedBounds = .ok ⟨[0], [1, 3], [1, 2, 3]⟩ := by
    decide +kernel
  obtain rfl := Except.ok.inj (hk.symm.trans hclasses)
  refine ⟨rfl, rfl, _, s, hsorts, rfl, hsparse, hdense, ?_⟩
  rw [hwritten]
  decide +kernel

end SplitRows

end ConeLift
