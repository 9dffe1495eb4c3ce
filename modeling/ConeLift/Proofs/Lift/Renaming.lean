import ConeLift.Proofs.Lift.Outcome
import ConeLift.Proofs.RowEntries
import ConeLift.Scalar.Extended

namespace ConeLift

section

variable {β : Type} {σ : Equiv.Perm ℕ} {n m : ℕ} {xs ys : List β}

def Renames (σ : Equiv.Perm ℕ) (n : ℕ) : Prop := ∀ j, n ≤ j → σ j = j

def Renamed (σ : Equiv.Perm ℕ) (xs ys : List β) : Prop := ∀ i, ys[σ i]? = xs[i]?

theorem Renames.lt_iff (h : Renames σ n) (hm : n ≤ m) (i : ℕ) : σ i < m ↔ i < m := by
  by_cases hi : i < n
  · have hσ : σ i < n := by
      by_contra hle
      have hfixed : σ i = i := σ.injective (h (σ i) (not_lt.mp hle))
      omega
    exact iff_of_true (hσ.trans_le hm) (hi.trans_le hm)
  · rw [h i (not_lt.mp hi)]

namespace Renamed

theorem length_eq (h : Renamed σ xs ys) (hσ : Renames σ xs.length) : ys.length = xs.length := by
  apply eq_of_forall_lt_iff
  intro j
  have hj := h (σ.symm j)
  have hlt := hσ.lt_iff le_rfl (σ.symm j)
  rw [Equiv.apply_symm_apply] at hj hlt
  rw [hlt, ← not_le, ← List.getElem?_eq_none_iff, hj, List.getElem?_eq_none_iff, not_le]

theorem getD_eq (h : Renamed σ xs ys) (i : ℕ) (d : β) : ys.getD (σ i) d = xs.getD i d := by
  rw [List.getD_eq_getElem?_getD, h i, ← List.getD_eq_getElem?_getD]

theorem append (h : Renamed σ xs ys) (hσ : Renames σ xs.length) (zs : List β) :
    Renamed σ (xs ++ zs) (ys ++ zs) := by
  have hlength := h.length_eq hσ
  intro i
  by_cases hi : i < xs.length
  · have hσi : σ i < ys.length := by rwa [hlength, hσ.lt_iff le_rfl]
    rw [List.getElem?_append_left hσi, List.getElem?_append_left hi]
    exact h i
  · have hle : xs.length ≤ i := not_lt.mp hi
    rw [hσ i hle, List.getElem?_append_right (hlength.trans_le hle),
      List.getElem?_append_right hle, hlength]

theorem of_forall_lt (hlength : ys.length = xs.length) (hσ : Renames σ xs.length)
    (h : ∀ i < xs.length, ys[σ i]? = xs[i]?) : Renamed σ xs ys := by
  intro i
  by_cases hi : i < xs.length
  · exact h i hi
  · have hle : xs.length ≤ i := not_lt.mp hi
    rw [hσ i hle, List.getElem?_eq_none hle, List.getElem?_eq_none (hlength.trans_le hle)]

theorem map_range_iff {f g : ℕ → β} (hσ : Renames σ n) (hm : n ≤ m) :
    Renamed σ ((List.range m).map f) ((List.range m).map g) ↔ ∀ j < m, g (σ j) = f j := by
  constructor
  · intro h j hj
    have hentry := h j
    rw [List.getElem?_map, List.getElem?_map, List.getElem?_range hj,
      List.getElem?_range ((hσ.lt_iff hm j).mpr hj)] at hentry
    exact Option.some.inj hentry
  · intro h j
    by_cases hj : j < m
    · rw [List.getElem?_map, List.getElem?_map, List.getElem?_range hj,
        List.getElem?_range ((hσ.lt_iff hm j).mpr hj)]
      exact congrArg some (h j hj)
    · have hσj : ¬σ j < m := by rwa [hσ.lt_iff hm]
      rw [List.getElem?_eq_none (by simpa using hσj), List.getElem?_eq_none (by simpa using hj)]

end Renamed

end

def Cone.rename (σ : Equiv.Perm ℕ) (k : Cone) : Cone := { k with indices := k.indices.map σ }

section

variable (σ : Equiv.Perm ℕ) (k : Cone)

@[simp] theorem Cone.kind_rename : (k.rename σ).kind = k.kind := rfl

@[simp] theorem Cone.isSecondOrder_rename : (k.rename σ).isSecondOrder = k.isSecondOrder := rfl

@[simp] theorem Cone.indices_rename : (k.rename σ).indices = k.indices.map σ := rfl

@[simp] theorem Cone.size_rename : (k.rename σ).size = k.size := List.length_map σ

end

variable {α : Type} [Scalar α]

theorem Partition.linear_rename (σ : Equiv.Perm ℕ) (cones : List Cone) :
    (ofCones (cones.map (Cone.rename σ))).linear =
      (ofCones cones).linear.map fun r => (σ r.1, r.2) := by
  simp [ofCones, List.filter_map, List.flatMap_map, List.map_flatMap, Function.comp_def]

theorem Partition.secondOrder_rename (σ : Equiv.Perm ℕ) (cones : List Cone) :
    (ofCones (cones.map (Cone.rename σ))).secondOrder = (ofCones cones).secondOrder.map σ := by
  simp [ofCones, List.filter_map, List.flatMap_map, List.map_flatMap, Function.comp_def]

theorem Partition.numAux_rename (σ : Equiv.Perm ℕ) (cones : List Cone) :
    (ofCones (cones.map (Cone.rename σ))).numAux = (ofCones cones).numAux := by
  rw [numAux, secondOrder_rename, List.length_map, numAux]

theorem auxiliaryBlocks_rename (σ : Equiv.Perm ℕ) (first : ℕ) (cones : List Cone) :
    auxiliaryBlocks first (cones.map (Cone.rename σ)) = auxiliaryBlocks first cones := by
  induction cones generalizing first with
  | nil => rfl
  | cons k ks ih => simp [auxiliaryBlocks, ih]

theorem columnBounds_rename_rows (σ : Equiv.Perm ℕ) (variableCones constraintCones : List Cone)
    (numOrig : ℕ) :
    columnBounds (α := α) variableCones (constraintCones.map (.rename σ)) numOrig =
      columnBounds variableCones constraintCones numOrig := by
  funext j
  have hlead : leadColumns numOrig (constraintCones.map (.rename σ)) =
      leadColumns numOrig constraintCones := by
    rw [leadColumns, auxiliaryBlocks_rename, leadColumns]
  rw [columnBounds, hlead, columnBounds]

structure Numbers.RowsRenamed (σ : Equiv.Perm ℕ) (n n' : Numbers α) : Prop where
  cost : n'.cost = n.cost
  numCols : n'.matrix.numCols = n.matrix.numCols
  rows : Renamed σ n.matrix.rows n'.matrix.rows
  rightHand : Renamed σ n.rightHand n'.rightHand

namespace Numbers.RowsRenamed

variable {σ : Equiv.Perm ℕ} {n n' : Numbers α} {constraintCones variableCones : List Cone}
  (h : n.RowsRenamed σ n')

include h

theorem rowBounds_eq (r : ℕ × Kind) :
    rowBounds n'.rightHand (σ r.1, r.2) = rowBounds n.rightHand r := by
  simp only [rowBounds, h.rightHand.getD_eq]

omit [Scalar α] in
theorem linearRows_eq : linearRows n'.matrix (Partition.ofCones (constraintCones.map (.rename σ))) =
    linearRows n.matrix (Partition.ofCones constraintCones) := by
  rw [linearRows, Partition.linear_rename, List.map_map, linearRows]
  simp only [Function.comp_def, h.rows.getD_eq]

theorem auxiliaryRows_eq :
    auxiliaryRows n'.matrix (Partition.ofCones (constraintCones.map (.rename σ))) =
      auxiliaryRows n.matrix (Partition.ofCones constraintCones) := by
  rw [auxiliaryRows, Partition.secondOrder_rename, Partition.numAux_rename, List.zip_map_left,
    List.map_map, auxiliaryRows]
  simp only [Function.comp_def, Prod.map, id, h.rows.getD_eq, h.numCols]

theorem lift_eq : n'.lift (constraintCones.map (.rename σ)) variableCones =
    n.lift constraintCones variableCones := by
  simp only [lift, Partition.numAux_rename, h.linearRows_eq, h.auxiliaryRows_eq,
    Partition.linear_rename, Partition.secondOrder_rename, List.map_map, Function.comp_def,
    h.rowBounds_eq, h.rightHand.getD_eq, h.cost, h.numCols, List.length_map, secondOrderBlocks,
    columnBounds_rename_rows, auxiliaryBlocks_rename]

omit [Scalar α] in
theorem liftable (hσ : Renames σ n.rightHand.length)
    (hn : n.Liftable constraintCones variableCones) :
    n'.Liftable (constraintCones.map (.rename σ)) variableCones := by
  have hrightHand := h.rightHand.length_eq hσ
  have hrows : n'.matrix.numRows = n.matrix.numRows := h.rows.length_eq (by
    rw [← RowMatrix.numRows, hn.rows]
    exact hσ)
  constructor
  · rw [hrows, hn.rows, hrightHand]
  · rw [h.numCols, hn.cols, h.cost]
  · rw [List.forall_mem_map, hrightHand]
    intro k hk
    rw [Cone.indices_rename, List.forall_mem_map]
    intro i hi
    exact (hσ.lt_iff le_rfl i).mpr (hn.constraint k hk i hi)
  · rw [h.cost, Partition.numAux_rename]
    exact hn.bounded

end Numbers.RowsRenamed

theorem Cone.bounded_rename (σ : Equiv.Perm ℕ) (k : Cone) :
    (k.rename σ).bounded = k.bounded.map σ := by
  by_cases hk : k.isSecondOrder = true
  · simp [bounded, hk, List.map_take]
  · simp [bounded, hk]

theorem Cone.rebound_rename (σ : Equiv.Perm ℕ) (k : Cone) (j : ℕ) (b : α × α) :
    (k.rename σ).rebound (σ j) b = k.rebound j b := by
  have hmem : σ j ∈ (k.rename σ).bounded ↔ j ∈ k.bounded := by
    rw [bounded_rename, List.mem_map_of_injective σ.injective]
  by_cases hj : j ∈ k.bounded
  · rw [rebound, if_pos (hmem.mpr hj), rebound, if_pos hj]
    rfl
  · rw [rebound, if_neg (hmem.not.mpr hj), rebound, if_neg hj]

section

variable {σ : Equiv.Perm ℕ} {m : ℕ} (hσ : Renames σ m)

include hσ

theorem mem_leadColumns_rename (cones : List Cone) (j : ℕ) :
    σ j ∈ leadColumns m cones ↔ j ∈ leadColumns m cones := by
  by_cases hj : j < m
  · have hσj := (hσ.lt_iff le_rfl j).mpr hj
    refine iff_of_false ?_ ?_
    · exact fun h => absurd (le_of_mem_leadColumns m cones _ h).1 (not_le.mpr hσj)
    · exact fun h => absurd (le_of_mem_leadColumns m cones _ h).1 (not_le.mpr hj)
  · rw [hσ j (not_lt.mp hj)]

theorem columnBounds_rename (variableCones constraintCones : List Cone) (j : ℕ) :
    columnBounds (α := α) (variableCones.map (.rename σ)) constraintCones m (σ j) =
      columnBounds variableCones constraintCones m j := by
  simp only [columnBounds, List.foldl_map, Cone.rebound_rename, mem_leadColumns_rename hσ]

theorem secondOrderBlocks_rename (variableCones constraintCones : List Cone) :
    secondOrderBlocks (variableCones.map (.rename σ)) constraintCones m =
      (secondOrderBlocks variableCones constraintCones m).map (List.map σ) := by
  have hauxiliary : (auxiliaryBlocks m constraintCones).map (List.map σ) =
      auxiliaryBlocks m constraintCones := by
    conv_rhs => rw [← List.map_id (auxiliaryBlocks m constraintCones)]
    apply List.map_congr_left
    intro block hblock
    conv_rhs => rw [id, ← List.map_id block]
    apply List.map_congr_left
    intro j hj
    exact hσ j ((bounds_of_mem_auxiliaryBlocks m constraintCones block hblock).2 j hj).1
  rw [secondOrderBlocks, secondOrderBlocks, List.map_append, hauxiliary, List.filter_map,
    List.map_map, List.map_map]
  simp [Function.comp_def]

end

def QuadraticRow.rename (σ : Equiv.Perm ℕ) (q : QuadraticRow α) : QuadraticRow α :=
  { q with
    linearIndex := q.linearIndex.map fun i => (σ i.toNat : ℤ)
    rowIndex := q.rowIndex.map fun i => (σ i.toNat : ℤ)
    colIndex := q.colIndex.map fun i => (σ i.toNat : ℤ) }

theorem QuadraticRow.ofColumns_rename (σ : Equiv.Perm ℕ) (columns : List ℕ) :
    (ofColumns (columns.map σ) : QuadraticRow α) = (ofColumns columns).rename σ := by
  simp [ofColumns, ofCone, rename, Function.comp_def]

/-- The variables of the second problem are those of the first under other names; matrices are
compared in full. -/
structure Numbers.ColumnsRenamed (σ : Equiv.Perm ℕ) (n n' : Numbers α) : Prop where
  cost : Renamed σ n.cost n'.cost
  numCols : n'.matrix.numCols = n.matrix.numCols
  rows : List.Forall₂ (Renamed σ) n.matrix.toDense n'.matrix.toDense
  rightHand : n'.rightHand = n.rightHand

structure Lifted.ColumnsRenamed (σ : Equiv.Perm ℕ) (p p' : Lifted α) : Prop where
  numOrig : p'.numOrig = p.numOrig
  numAux : p'.numAux = p.numAux
  numLinear : p'.numLinear = p.numLinear
  cost : Renamed σ p.cost p'.cost
  lower : Renamed σ p.columns.lower p'.columns.lower
  upper : Renamed σ p.columns.upper p'.columns.upper
  numCols : p'.matrix.numCols = p.matrix.numCols
  matrix : List.Forall₂ (Renamed σ) p.matrix.toDense p'.matrix.toDense
  rows : p'.rows = p.rows
  quadratics : p'.quadratics = p.quadratics.map (QuadraticRow.rename σ)

namespace Numbers.ColumnsRenamed

variable {σ : Equiv.Perm ℕ} {n n' : Numbers α} {constraintCones variableCones : List Cone}

theorem liftable (h : n.ColumnsRenamed σ n') (hσ : Renames σ n.cost.length)
    (hn : n.Liftable constraintCones variableCones)
    (hvariables : ∀ k ∈ variableCones, ∀ i ∈ k.indices, i < n.cost.length) :
    n'.Liftable constraintCones (variableCones.map (.rename σ)) := by
  have hcost := h.cost.length_eq hσ
  constructor
  · have hrows := h.rows.length_eq
    rw [RowMatrix.length_toDense, RowMatrix.length_toDense] at hrows
    rw [← hrows, hn.rows, h.rightHand]
  · rw [h.numCols, hn.cols, hcost]
  · rw [h.rightHand]
    exact hn.constraint
  · rw [List.forall_mem_map, hcost]
    intro k hk
    rw [Cone.bounded_rename, List.forall_mem_map]
    intro i hi
    have hlt := (hσ.lt_iff le_rfl i).mpr (hvariables k hk i (mem_indices_of_mem_bounded hi))
    exact Nat.lt_add_right _ hlt

theorem rowEntry_eq (h : n.ColumnsRenamed σ n') (hσ : Renames σ n.matrix.numCols)
    (hn : n.matrix.EntriesFit) (hn' : n'.matrix.EntriesFit) (i j : ℕ) :
    RowMatrix.rowEntry (n'.matrix.rows.getD i []) (σ j) =
      RowMatrix.rowEntry (n.matrix.rows.getD i []) j := by
  have hrows := h.rows
  rw [RowMatrix.toDense, RowMatrix.toDense, List.forall₂_map_left_iff,
    List.forall₂_map_right_iff] at hrows
  by_cases hi : i < n.matrix.rows.length
  · have hi' : i < n'.matrix.rows.length := hrows.length_eq ▸ hi
    rw [List.getD_eq_getElem _ _ hi, List.getD_eq_getElem _ _ hi']
    have hrow : Renamed σ (RowMatrix.denseRow n.matrix.numCols n.matrix.rows[i])
        (RowMatrix.denseRow n'.matrix.numCols n'.matrix.rows[i]) :=
      (List.forall₂_iff_get.mp hrows).2 i hi hi'
    by_cases hj : j < n.matrix.numCols
    · rw [h.numCols, RowMatrix.denseRow, RowMatrix.denseRow,
        Renamed.map_range_iff hσ le_rfl] at hrow
      exact hrow j hj
    · have hle : n.matrix.numCols ≤ j := not_lt.mp hj
      rw [hσ j hle, RowMatrix.rowEntry_of_le (hn _ (List.getElem_mem hi)) hle,
        RowMatrix.rowEntry_of_le (hn' _ (List.getElem_mem hi')) (h.numCols.trans_le hle)]
  · have hi' : ¬i < n'.matrix.rows.length := hrows.length_eq ▸ hi
    rw [List.getD_eq_default _ _ (not_lt.mp hi), List.getD_eq_default _ _ (not_lt.mp hi')]
    rfl

theorem lift_matrix (h : n.ColumnsRenamed σ n') (hσ : Renames σ n.matrix.numCols)
    (hn : n.matrix.EntriesFit) (hn' : n'.matrix.EntriesFit) :
    List.Forall₂ (Renamed σ) (n.lift constraintCones variableCones).matrix.toDense
      (n'.lift constraintCones (variableCones.map (.rename σ))).matrix.toDense := by
  have hentry := h.rowEntry_eq hσ hn hn'
  have hwide : n.matrix.numCols ≤
      n.matrix.numCols + (Partition.ofCones constraintCones).numAux := Nat.le_add_right _ _
  simp only [Numbers.lift, RowMatrix.toDense, h.numCols, List.map_append, linearRows,
    auxiliaryRows, List.map_map]
  rw [forall₂_append_iff (by simp)]
  simp only [List.forall₂_map_left_iff, List.forall₂_map_right_iff, List.forall₂_same,
    Function.comp_apply, RowMatrix.denseRow, Renamed.map_range_iff hσ hwide]
  constructor
  · exact fun r _ j _ => hentry r.1 j
  · rintro ⟨i, k⟩ _ j _
    have hfixed : σ (n.matrix.numCols + k) = n.matrix.numCols + k := hσ _ (Nat.le_add_right _ _)
    have hcolumn : σ j = n.matrix.numCols + k ↔ j = n.matrix.numCols + k := by
      rw [← hfixed, σ.injective.eq_iff, hfixed]
    rw [RowMatrix.rowEntry_concat, RowMatrix.rowEntry_concat, hentry]
    · simp only [hcolumn]
    · exact fun e he => Nat.lt_add_right k (hn.getD i e he)
    · exact fun e he => Nat.lt_add_right k (h.numCols ▸ hn'.getD i e he)

theorem lift (h : n.ColumnsRenamed σ n') (hσ : Renames σ n.cost.length)
    (hcols : n.matrix.numCols = n.cost.length) (hn : n.matrix.EntriesFit)
    (hn' : n'.matrix.EntriesFit) :
    (n.lift constraintCones variableCones).ColumnsRenamed σ
      (n'.lift constraintCones (variableCones.map (.rename σ))) := by
  have hcost := h.cost.length_eq hσ
  have hbounds := columnBounds_rename (α := α) hσ variableCones constraintCones
  constructor
  · exact hcost
  · rfl
  · rfl
  · exact h.cost.append hσ _
  · simp only [Numbers.lift, hcost, Bounds.tabulate]
    rw [Renamed.map_range_iff hσ (Nat.le_add_right _ _)]
    exact fun j _ => congrArg Prod.fst (hbounds j)
  · simp only [Numbers.lift, hcost, Bounds.tabulate]
    rw [Renamed.map_range_iff hσ (Nat.le_add_right _ _)]
    exact fun j _ => congrArg Prod.snd (hbounds j)
  · rw [Numbers.lift, Numbers.lift, h.numCols]
  · exact h.lift_matrix (hcols ▸ hσ) hn hn'
  · simp only [Numbers.lift, h.rightHand]
  · simp only [Numbers.lift, hcost, secondOrderBlocks_rename hσ, List.map_map, Function.comp_def,
      QuadraticRow.ofColumns_rename]

end Numbers.ColumnsRenamed

namespace Lifted

/-- Nothing depends on the order of rows and variables: rows under new names give the same lifted
problem, and variables under new names give it with its columns renamed. The permutation leaves the
auxiliary columns where they are. -/
theorem build_renamed {d : ConicData α} {n : Numbers α} {p : Lifted α} (hbuild : build d = .ok p)
    (hread : readNumbers d = .ok n) :
    (∀ (π : Equiv.Perm ℕ) (d' : ConicData α) (n' : Numbers α), Renames π n.rightHand.length →
      readNumbers d' = .ok n' → n.RowsRenamed π n' →
      d'.constraintCones = d.constraintCones.map (.rename π) →
      d'.variableCones = d.variableCones → build d' = .ok p) ∧
    ((∀ k ∈ d.variableCones, ∀ i ∈ k.indices, i < n.cost.length) → n.matrix.EntriesFit →
      ∀ (σ : Equiv.Perm ℕ) (d' : ConicData α) (n' : Numbers α), Renames σ n.cost.length →
        readNumbers d' = .ok n' → n'.matrix.EntriesFit → n.ColumnsRenamed σ n' →
        d'.constraintCones = d.constraintCones →
        d'.variableCones = d.variableCones.map (.rename σ) →
        ∃ p', build d' = .ok p' ∧ p.ColumnsRenamed σ p') := by
  obtain ⟨hkinds, n₀, hread₀, hn, rfl⟩ := (build_eq_ok_iff d p).mp hbuild
  obtain rfl := Except.ok.inj (hread.symm.trans hread₀)
  rw [List.forall_mem_append] at hkinds
  constructor
  · intro π d' n' hπ hread' hrenamed hconstraint hvariable
    rw [build_eq_ok_iff, hconstraint, hvariable]
    refine ⟨?_, n', hread', hrenamed.liftable hπ hn, hrenamed.lift_eq.symm⟩
    rw [List.forall_mem_append, List.forall_mem_map]
    exact hkinds
  · intro hvariables hentries σ d' n' hσ hread' hentries' hrenamed hconstraint hvariable
    refine ⟨_, ?_, hrenamed.lift hσ hn.cols hentries hentries'⟩
    rw [build_eq_ok_iff, hconstraint, hvariable]
    refine ⟨?_, n', hread', hrenamed.liftable hσ hn hvariables, rfl⟩
    rw [List.forall_mem_append, List.forall_mem_map]
    exact hkinds

def crossed : ConicData Extended where
  cost := .ofList [.finite 1, .finite 2, .finite 3]
  matrix := .compressed ⟨3, [[(0, .finite 4), (2, .finite 5)], [(1, .finite 6)]]⟩
  rightHand := .ofList [.finite 7, .finite 8]
  constraintCones := [⟨.secondOrder, [1, 0]⟩, ⟨.nonneg, [0]⟩]
  variableCones := [⟨.secondOrder, [2, 0]⟩, ⟨.nonpos, [1]⟩]

def crossedRows : ConicData Extended where
  cost := .ofList [.finite 1, .finite 2, .finite 3]
  matrix := .compressed ⟨3, [[(1, .finite 6)], [(0, .finite 4), (2, .finite 5)]]⟩
  rightHand := .ofList [.finite 8, .finite 7]
  constraintCones := [⟨.secondOrder, [0, 1]⟩, ⟨.nonneg, [1]⟩]
  variableCones := [⟨.secondOrder, [2, 0]⟩, ⟨.nonpos, [1]⟩]

def crossedColumns : ConicData Extended where
  cost := .ofList [.finite 3, .finite 2, .finite 1]
  matrix := .compressed ⟨3, [[(2, .finite 4), (0, .finite 5)], [(1, .finite 6)]]⟩
  rightHand := .ofList [.finite 7, .finite 8]
  constraintCones := [⟨.secondOrder, [1, 0]⟩, ⟨.nonneg, [0]⟩]
  variableCones := [⟨.secondOrder, [0, 2]⟩, ⟨.nonpos, [1]⟩]

theorem renames_swap {i j n : ℕ} (hi : i < n) (hj : j < n) : Renames (Equiv.swap i j) n := by
  intro k hk
  exact Equiv.swap_apply_of_ne_of_ne (hi.trans_le hk).ne' (hj.trans_le hk).ne'

def crossedLifted : Lifted Extended where
  cost := [.finite 1, .finite 2, .finite 3, 0, 0]
  columns := ⟨[.negInfinity, .negInfinity, 0, 0, .negInfinity],
    [.infinity, 0, .infinity, .infinity, .infinity]⟩
  matrix := ⟨5, [[(0, .finite 4), (2, .finite 5)], [(1, .finite 6), (3, 1)],
    [(0, .finite 4), (2, .finite 5), (4, 1)]]⟩
  rows := ⟨[.negInfinity, .finite 8, .finite 7], [.finite 7, .finite 8, .finite 7]⟩
  numOrig := 3
  numAux := 2
  numLinear := 1
  quadratics := [.ofColumns [2, 0], .ofColumns [3, 4]]

def crossedColumnsLifted : Lifted Extended where
  cost := [.finite 3, .finite 2, .finite 1, 0, 0]
  columns := ⟨[0, .negInfinity, .negInfinity, 0, .negInfinity],
    [.infinity, 0, .infinity, .infinity, .infinity]⟩
  matrix := ⟨5, [[(2, .finite 4), (0, .finite 5)], [(1, .finite 6), (3, 1)],
    [(2, .finite 4), (0, .finite 5), (4, 1)]]⟩
  rows := crossedLifted.rows
  numOrig := 3
  numAux := 2
  numLinear := 1
  quadratics := [.ofColumns [0, 2], .ofColumns [3, 4]]

theorem build_renamed_crossed :
    build crossed = .ok crossedLifted ∧ build crossedRows = .ok crossedLifted ∧
      build crossedColumns = .ok crossedColumnsLifted ∧
      crossedLifted.ColumnsRenamed (Equiv.swap 0 2) crossedColumnsLifted := by
  have hp : build crossed = .ok crossedLifted := rfl
  have hread : readNumbers crossed = .ok ⟨[.finite 1, .finite 2, .finite 3],
      ⟨3, [[(0, .finite 4), (2, .finite 5)], [(1, .finite 6)]]⟩, [.finite 7, .finite 8]⟩ := rfl
  obtain ⟨hrows, hcolumns⟩ := build_renamed hp hread
  refine ⟨hp, ?_, rfl, ?_⟩
  · have hswap : Renames (Equiv.swap 0 1) 2 := renames_swap (by norm_num) (by norm_num)
    refine hrows (Equiv.swap 0 1) crossedRows _ hswap rfl ?_ rfl rfl
    constructor
    · rfl
    · rfl
    · exact .of_forall_lt rfl hswap (by decide)
    · exact .of_forall_lt rfl hswap (by decide)
  · have hswap : Renames (Equiv.swap 0 2) 3 := renames_swap (by norm_num) (by norm_num)
    suffices h : ∃ p', build crossedColumns = .ok p' ∧
        crossedLifted.ColumnsRenamed (Equiv.swap 0 2) p' by
      obtain ⟨p', hp', hrenamed⟩ := h
      obtain rfl : crossedColumnsLifted = p' := Except.ok.inj hp'
      exact hrenamed
    refine hcolumns (by decide) (by decide) (Equiv.swap 0 2) crossedColumns _ hswap rfl
      (by decide) ?_ rfl rfl
    constructor
    · exact .of_forall_lt rfl hswap (by decide)
    · rfl
    · refine .cons (.of_forall_lt rfl hswap ?_) (.cons (.of_forall_lt rfl hswap ?_) .nil)
      · decide +kernel
      · decide +kernel
    · rfl

end Lifted

end ConeLift
