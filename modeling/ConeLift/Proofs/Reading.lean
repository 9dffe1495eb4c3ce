import ConeLift.Proofs.Points

namespace ConeLift

theorem ArrayLike.toVector_ofList {α : Type} (xs : List α) : (ofList xs).toVector = .ok xs := by
  have hshape : ((ofList xs).shape?).isNone = false := by
    rw [ofList, shape?, shapes?_entries]
    cases xs with
    | nil => rfl
    | cons x xs => simp
  have hflatten : (ofList xs).flatten = xs.map Except.ok := by
    rw [ofList, flatten, flattenAll_entries]
  rw [toVector, hshape, hflatten, if_neg Bool.false_ne_true, Vec.allOk_map_ok]

namespace Triplets

structure Readable {α : Type} (T : Triplets α) : Prop where
  consistent : T.inconsistency? = none
  numRows : 0 ≤ T.numRows
  numCols : 0 ≤ T.numCols

def summed {α : Type} [Scalar α] (T : Triplets α) : RowMatrix α :=
  ⟨T.numCols.toNat, (List.range T.numRows.toNat).map T.row⟩

theorem toRows_of_readable {α : Type} [Scalar α] {T : Triplets α} (h : T.Readable) :
    T.toRows = .ok T.summed := by
  have hnumRows := h.numRows
  have hnumCols := h.numCols
  have hfit : ¬(T.numRows < 0 ∨ T.numCols < 0 ∨ T.inconsistency?.isSome = true) := by
    rw [h.consistent]
    simp [hnumRows, hnumCols]
  rw [toRows, if_neg hfit, summed]

def entriesOf {α : Type} (T : Triplets α) (i : ℕ) : List (ℕ × α) :=
  (T.entries.filter fun e => e.1 = (i : ℤ)).map fun e => (e.2.1.toNat, e.2.2)

theorem insert_finite (row : List (ℕ × ℚ)) (e : ℕ × ℚ) :
    ∃ row', insert (finiteRow row) (e.1, .finite e.2) = finiteRow row' ∧
      (∀ x, rowValue row' x = rowValue row x + rowValue [e] x) ∧
        ∀ f ∈ row', f.1 ∈ (e :: row).map Prod.fst := by
  induction row with
  | nil => exact ⟨[e], rfl, fun x => by simp, by simp⟩
  | cons f row ih =>
    obtain ⟨row', hrow', hvalue, hcols⟩ := ih
    by_cases hlt : e.1 < f.1
    · refine ⟨e :: f :: row, ?_, ?_, ?_⟩
      · simp [insert, finiteRow, hlt]
      · intro x
        simp only [rowValue_cons, rowValue_nil]
        ring
      · intro g hg
        exact List.mem_map_of_mem hg
    · by_cases heq : e.1 = f.1
      · refine ⟨(f.1, f.2 + e.2) :: row, ?_, ?_, ?_⟩
        · simp [insert, finiteRow, heq]
        · intro x
          simp only [rowValue_cons, rowValue_nil, heq]
          ring
        · intro g hg
          rcases List.mem_cons.mp hg with rfl | hg
          · simp
          · simp only [List.map_cons, List.mem_cons]
            right; right
            exact List.mem_map_of_mem hg
      · refine ⟨f :: row', ?_, ?_, ?_⟩
        · simp only [finiteRow, List.map_cons] at hrow' ⊢
          simp only [insert, hlt, heq, if_false, hrow']
        · intro x
          have htail := hvalue x
          rw [rowValue_cons, rowValue_cons, htail]
          ring
        · intro g hg
          rcases List.mem_cons.mp hg with rfl | hg
          · simp
          · have hmem := hcols g hg
            simp only [List.map_cons, List.mem_cons] at hmem ⊢
            tauto

theorem foldl_insert_finite (entries row : List (ℕ × ℚ)) :
    ∃ row', (finiteRow entries).foldl insert (finiteRow row) = finiteRow row' ∧
      (∀ x, rowValue row' x = rowValue row x + rowValue entries x) ∧
        ∀ f ∈ row', f.1 ∈ (row ++ entries).map Prod.fst := by
  induction entries generalizing row with
  | nil =>
    refine ⟨row, rfl, fun x => by simp, ?_⟩
    intro f hf
    rw [List.append_nil]
    exact List.mem_map_of_mem hf
  | cons e entries ih =>
    obtain ⟨row₁, hrow₁, hvalue₁, hcols₁⟩ := insert_finite row e
    obtain ⟨row', hrow', hvalue, hcols⟩ := ih row₁
    refine ⟨row', ?_, ?_, ?_⟩
    · simp only [finiteRow, List.map_cons, List.foldl_cons] at hrow₁ hrow' ⊢
      rw [hrow₁, hrow']
    · intro x
      rw [hvalue, hvalue₁]
      simp only [rowValue_cons, rowValue_nil]
      ring
    · intro f hf
      have hmem := hcols f hf
      simp only [List.map_append, List.map_cons, List.mem_append, List.mem_cons] at hmem ⊢
      rcases hmem with hmem | hmem
      · obtain ⟨g, hg, hfg⟩ := List.mem_map.mp hmem
        have hold := hcols₁ g hg
        rw [hfg] at hold
        simp only [List.map_cons, List.mem_cons] at hold
        tauto
      · tauto

theorem entriesOf_finite (T : Triplets ℚ) (i : ℕ) :
    T.finite.entriesOf i = finiteRow (T.entriesOf i) := by
  have hentries : T.finite.entries = T.entries.map fun e => (e.1, e.2.1, .finite e.2.2) := by
    simp only [entries, finite, finites, List.zip_map_right]
    rfl
  simp only [entriesOf, hentries, finiteRow, List.filter_map, List.map_map]
  rfl

theorem row_finite (T : Triplets ℚ) (i : ℕ) :
    ∃ row, T.finite.row i = finiteRow row ∧
      (∀ x, rowValue row x = rowValue (T.entriesOf i) x) ∧
        ∀ f ∈ row, f.1 ∈ (T.entriesOf i).map Prod.fst := by
  obtain ⟨row, hrow, hvalue, hcols⟩ := foldl_insert_finite (T.entriesOf i) []
  refine ⟨row, ?_, ?_, hcols⟩
  · rw [← hrow, ← entriesOf_finite]
    rfl
  · intro x
    rw [hvalue]
    simp

theorem inconsistency?_finite (T : Triplets ℚ) : T.finite.inconsistency? = T.inconsistency? := by
  simp only [inconsistency?, finite, length_finites]
  rfl

theorem bounds_of_consistent {α : Type} {T : Triplets α} (h : T.inconsistency? = none) :
    ∀ e ∈ T.entries, 0 ≤ e.2.1 ∧ e.2.1 < T.numCols := by
  rw [inconsistency?] at h
  split_ifs at h with hlength hplace
  intro e he
  have hcol : e.2.1 ∈ T.cols := (List.of_mem_zip (List.of_mem_zip he).2).1
  simp only [Bool.or_eq_true, List.any_eq_true, decide_eq_true_eq, not_or, not_exists,
    not_and] at hplace
  have hout := hplace.2 e.2.1 hcol
  omega

theorem summed_finite (T : Triplets ℚ) {row : ℕ → List (ℕ × ℚ)}
    (hrow : ∀ i, T.finite.row i = finiteRow (row i)) :
    T.finite.summed =
      RowMatrix.finite ⟨T.numCols.toNat, (List.range T.numRows.toNat).map row⟩ := by
  have hmap : (List.range T.numRows.toNat).map T.finite.row =
      ((List.range T.numRows.toNat).map row).map finiteRow := by
    rw [List.map_map]
    exact List.map_congr_left fun i _ => hrow i
  rw [RowMatrix.finite, ← hmap]
  rfl

end Triplets

namespace Problem

structure Valid {α : Type} (P : Problem α) : Prop where
  matrix : P.matrix.inconsistency? = none
  sizes : P.inconsistency? = none

def numbers (P : Problem ℚ) : Numbers ℚ where
  cost := P.cost
  matrix := ⟨P.matrix.numCols.toNat, (List.range P.matrix.numRows.toNat).map P.matrix.entriesOf⟩
  rightHand := P.rightHand

/-- `b - A x` is in the constraint cones and `x` in the variable cones. -/
def Feasible (P : Problem ℚ) (x : List ℚ) : Prop :=
  P.numbers.Feasible P.constraintCones P.variableCones x

structure Reads (P : Problem ℚ) (n : Numbers ℚ) : Prop where
  cost : n.cost = P.cost
  rightHand : n.rightHand = P.rightHand
  slack : ∀ x, n.slack x = P.numbers.slack x
  consistent : n.Consistent

theorem feasible_iff {P : Problem ℚ} {n : Numbers ℚ} (h : P.Reads n) (x : List ℚ) :
    n.Feasible P.constraintCones P.variableCones x ↔ P.Feasible x := by
  have hslack := h.slack x
  have hcost := h.cost
  constructor
  · rintro ⟨hlength, hconstraint, hvariable⟩
    rw [hslack] at hconstraint
    rw [hcost] at hlength
    exact ⟨hlength, hconstraint, hvariable⟩
  · rintro ⟨hlength, hconstraint, hvariable⟩
    rw [← hslack] at hconstraint
    exact ⟨by rw [hcost]; exact hlength, hconstraint, hvariable⟩

theorem valid_finite_iff (P : Problem ℚ) : P.finite.Valid ↔ P.Valid := by
  have hmatrix : P.finite.matrix.inconsistency? = P.matrix.inconsistency? :=
    P.matrix.inconsistency?_finite
  have hsizes : P.finite.inconsistency? = P.inconsistency? := by
    simp [inconsistency?, finite, Triplets.finite]
  constructor
  · rintro ⟨h, h'⟩
    exact ⟨hmatrix ▸ h, hsizes ▸ h'⟩
  · rintro ⟨h, h'⟩
    exact ⟨hmatrix.trans h, hsizes.trans h'⟩

theorem sizes_of_valid {α : Type} {P : Problem α} (h : P.Valid) :
    (P.cost.length : ℤ) = P.matrix.numCols ∧ (P.rightHand.length : ℤ) = P.matrix.numRows := by
  have hsizes := h.sizes
  rw [inconsistency?] at hsizes
  split_ifs at hsizes with hcost hright
  exact ⟨not_not.mp hcost, not_not.mp hright⟩

theorem readable_of_valid {α : Type} {P : Problem α} (h : P.Valid) : P.matrix.Readable := by
  obtain ⟨hcost, hright⟩ := sizes_of_valid h
  exact ⟨h.matrix, by omega, by omega⟩

section

variable {α : Type} [Scalar α]

def summed (P : Problem α) : Numbers α := ⟨P.cost, P.matrix.summed, P.rightHand⟩

def summedData (P : Problem α) : ConicData α :=
  ⟨.ofList P.cost, .compressed P.matrix.summed, .ofList P.rightHand, P.constraintCones,
    P.variableCones⟩

theorem toData_of_valid {P : Problem α} (h : P.Valid) : P.toData = .ok P.summedData := by
  rw [toData, Triplets.toRows_of_readable (readable_of_valid h)]
  rfl

theorem readNumbers_summedData (P : Problem α) :
    Lifted.readNumbers P.summedData = .ok P.summed := by
  simp only [Lifted.readNumbers, summedData, ArrayLike.toVector_ofList, MatrixLike.toRows, bind,
    Except.bind]
  rfl

theorem liftable_summed {P : Problem α} (h : P.Valid)
    (hrows : ∀ k ∈ P.constraintCones, ∀ i ∈ k.indices, i < P.rightHand.length)
    (hcolumns : ∀ k ∈ P.variableCones, ∀ i ∈ k.indices, i < P.cost.length) :
    P.summed.Liftable P.constraintCones P.variableCones := by
  obtain ⟨hcost, hright⟩ := sizes_of_valid h
  constructor
  · simp only [summed, Triplets.summed, RowMatrix.numRows, List.length_map, List.length_range]
    omega
  · simp only [summed, Triplets.summed]
    omega
  · exact hrows
  · intro k hk i hi
    exact Nat.lt_add_right _ (hcolumns k hk i (mem_indices_of_mem_bounded hi))

end

theorem exists_read (P : Problem ℚ) (h : P.finite.Valid) :
    ∃ d n, P.finite.toData = .ok d ∧ d.constraintCones = P.constraintCones ∧
      d.variableCones = P.variableCones ∧ Lifted.readNumbers d = .ok n.finite ∧ P.Reads n := by
  have hvalid := P.valid_finite_iff.mp h
  obtain ⟨hcost, hright⟩ := sizes_of_valid hvalid
  choose row hrow hvalue hcols using fun i => P.matrix.row_finite i
  let n : Numbers ℚ := ⟨P.cost, ⟨P.matrix.numCols.toNat,
    (List.range P.matrix.numRows.toNat).map row⟩, P.rightHand⟩
  have hsummed : P.finite.summed = n.finite :=
    congrArg (Numbers.mk (finites P.cost) · (finites P.rightHand)) (P.matrix.summed_finite hrow)
  refine ⟨P.finite.summedData, n, toData_of_valid h, rfl, rfl, ?_, rfl, rfl, ?_, ?_, ?_, ?_⟩
  · rw [readNumbers_summedData, hsummed]
  · intro x
    simp only [Numbers.slack, RowMatrix.apply, n, numbers, List.map_map]
    congr 1
    exact List.map_congr_left fun i _ => hvalue i x
  · simp only [n, RowMatrix.numRows, List.length_map, List.length_range]
    omega
  · simp only [n]
    omega
  · intro r hr e he
    obtain ⟨i, _, rfl⟩ := List.mem_map.mp hr
    obtain ⟨f, hf, hfe⟩ := List.mem_map.mp (hcols i e he)
    obtain ⟨g, hg, rfl⟩ := List.mem_map.mp hf
    have hbounds := Triplets.bounds_of_consistent hvalid.matrix g (List.mem_of_mem_filter hg)
    simp only [n] at hfe ⊢
    omega

end Problem

end ConeLift
