import ConeLift.Proofs.Calls
import ConeLift.Proofs.Gradients
import ConeLift.Proofs.Lift.QuadraticPoints
import ConeLift.Proofs.Lift.RowPoints
import ConeLift.Proofs.Split

namespace ConeLift

def entryAt (row : List (ℕ × ℚ)) (j : ℕ) : ℚ := ((row.filter (·.1 = j)).map Prod.snd).sum

theorem denseRow_finite (numCols : ℕ) (row : List (ℕ × ℚ)) :
    RowMatrix.denseRow numCols (finiteRow row) =
      finites ((List.range numCols).map (entryAt row)) := by
  rw [RowMatrix.denseRow, finites, List.map_map]
  apply List.map_congr_left
  intro j _
  have hentries : ((finiteRow row).filter (·.1 = j)).map (·.2) =
      finites ((row.filter (·.1 = j)).map Prod.snd) := by
    simp only [finiteRow, finites, List.filter_map, List.map_map]
    rfl
  rw [RowMatrix.rowEntry, hentries, sum_finites]
  rfl

theorem entryAt_cons (e : ℕ × ℚ) (row : List (ℕ × ℚ)) (j : ℕ) :
    entryAt (e :: row) j = (if e.1 = j then e.2 else 0) + entryAt row j := by
  by_cases h : e.1 = j <;> simp [entryAt, h]

theorem dot_map_range (f : ℕ → ℚ) (x : List ℚ) :
    dot ((List.range x.length).map f) x =
      ((List.range x.length).map fun j => f j * coord x j).sum := by
  have hx : x = (List.range x.length).map (coord x) := eq_map_range x 0
  rw [dot]
  conv_lhs => rw [hx]
  simp only [List.length_map, List.length_range, List.zipWith_map, List.zipWith_self]

theorem sum_range_single (n a : ℕ) (b : ℚ) (f : ℕ → ℚ) :
    ((List.range n).map fun j => (if a = j then b else 0) * f j).sum =
      if a < n then b * f a else 0 := by
  induction n with
  | zero => simp
  | succ n ih =>
    rw [List.range_succ, List.map_append, List.sum_append, ih]
    by_cases hlt : a < n
    · have hne : a ≠ n := by omega
      simp [hlt, hne, Nat.lt_succ_of_lt hlt]
    · by_cases heq : a = n
      · simp [heq]
      · have hgt : ¬a < n + 1 := by omega
        simp [hlt, heq, hgt]

theorem dot_entryAt (row : List (ℕ × ℚ)) (x : List ℚ) :
    dot ((List.range x.length).map (entryAt row)) x = rowValue row x := by
  rw [dot_map_range]
  induction row with
  | nil =>
    have hzero (j : ℕ) : entryAt [] j = 0 := rfl
    simp [hzero]
  | cons e row ih =>
    have hhead : ((List.range x.length).map fun j => (if e.1 = j then e.2 else 0) * coord x j).sum =
        e.2 * coord x e.1 := by
      rw [sum_range_single]
      split_ifs with h
      · rfl
      · -- An entry without a column counts for nothing, in full as in the sum.
        rw [coord, List.getD_eq_default _ _ (not_lt.mp h), mul_zero]
    simp only [entryAt_cons, add_mul, List.sum_map_add, hhead, ih, rowValue_cons]
    rfl

theorem dot_denseRow (row : List (ℕ × ℚ)) (x : List ℚ) :
    Vec.dot (RowMatrix.denseRow x.length (finiteRow row)) (finites x) =
      .finite (rowValue row x) := by
  rw [denseRow_finite, dot_finites, dot_entryAt]

theorem le_zero_sub_iff {w : Extended} (v : Extended) (hw : Scalar.isFinite w = true) :
    Scalar.le 0 (w - v) = true ↔ Scalar.le v w = true := by
  obtain ⟨q, rfl⟩ := (RowClasses.isFinite_iff w).mp hw
  cases v with
  | finite p => simp
  | _ => exact Iff.rfl

theorem eq_sub_zero_iff {w : Extended} (v : Extended) (hw : Scalar.isFinite w = true) :
    Scalar.eq (v - w) 0 = true ↔ Scalar.eq v w = true := by
  obtain ⟨q, rfl⟩ := (RowClasses.isFinite_iff w).mp hw
  cases v with
  | finite p => simp [sub_eq_zero]
  | _ => exact Iff.rfl

theorem isFinite_neg {w : Extended} (hw : Scalar.isFinite w = true) :
    Scalar.isFinite (-w) = true := by
  obtain ⟨q, rfl⟩ := (RowClasses.isFinite_iff w).mp hw
  rfl

theorem isFinite_of_isEqual {l h : Extended} (heq : RowClasses.isEqual l h = true) :
    Scalar.isFinite l = true := by
  simp only [RowClasses.isEqual, Bool.and_eq_true] at heq
  exact heq.1.1

structure QuadraticRow.Rational (q : QuadraticRow Extended) (n : ℕ) : Prop where
  fits : q.Fits n
  bound : Scalar.isFinite q.bound = true
  value : ∀ x : List ℚ, x.length = n → ∃ v, q.value (finites x) = .ok (.finite v)

theorem QuadraticRow.rational_finite {q : QuadraticRow ℚ} {n : ℕ} (h : q.Fits n) :
    q.finite.Rational n := by
  refine ⟨fits_finite_iff.mpr h, rfl, ?_⟩
  rintro x rfl
  exact ⟨_, value_finite h⟩

theorem rational_ofColumns {n : ℕ} {columns : List ℕ} (hne : columns ≠ [])
    (h : ∀ j ∈ columns, j < n) : (QuadraticRow.ofColumns (α := Extended) columns).Rational n := by
  rw [← QuadraticRow.finite_coneRow]
  exact QuadraticRow.rational_finite ((QuadraticRow.fits_coneRow n columns hne).mpr h)

namespace SmoothCall

theorem quadraticBlock_eq {c : SmoothCall Extended} {x : List Extended}
    {v : QuadraticRow Extended → ℚ} {g : QuadraticRow Extended → List Extended}
    (hv : ∀ q ∈ c.quadratics, q.value x = .ok (.finite (v q)))
    (hg : ∀ q ∈ c.quadratics, q.gradient x = .ok (g q)) :
    c.quadraticBlock x = .ok
      { isEquation := false
        value := c.quadratics.map fun q => q.bound - .finite (v q)
        jacobian := c.quadratics.map fun q => (g q).map fun y => -y } := by
  have hvalues := mapM_of_forall (fun q : QuadraticRow Extended => do
    return q.bound - (← q.value x)) (fun q => q.bound - .finite (v q)) c.quadratics
    fun q hq => by simp only [hv q hq, bind, Except.bind, pure, Except.pure]
  have hgradients := mapM_of_forall (fun q : QuadraticRow Extended => q.gradient x) g
    c.quadratics hg
  rw [quadraticBlock, hvalues]
  simp only [bind, Except.bind, hgradients, pure, Except.pure, List.map_map]
  rfl

theorem quadraticBlock_ok {c : SmoothCall Extended} {n : ℕ}
    (h : ∀ q ∈ c.quadratics, q.Rational n) {x : List ℚ} (hx : x.length = n) :
    ∃ b, c.quadraticBlock (finites x) = .ok b ∧
      (b.Hold ↔ ∀ q ∈ c.quadratics, q.Hold (finites x)) := by
  choose! v hv using fun q hq => (h q hq).value x hx
  choose! g hg _ using fun q hq => QuadraticRow.gradient_ok (x := finites x)
    (by rw [length_finites, hx]; exact (h q hq).fits)
  refine ⟨_, quadraticBlock_eq hv hg, ?_⟩
  simp only [ConstraintBlock.Hold, List.forall_mem_map, Bool.false_eq_true, if_false]
  apply forall₂_congr
  intro q hq
  rw [le_zero_sub_iff _ (h q hq).bound]
  simp only [QuadraticRow.Hold, hv q hq, Except.ok.injEq, exists_eq_left']

theorem blocks_eq {c : SmoothCall Extended} {x : List Extended} {b : ConstraintBlock Extended}
    (hx : x.length = c.cost.length) (hb : c.quadraticBlock x = .ok b) :
    c.blocks x = .ok
      ((if c.rows.equations.isEmpty then [] else [c.equationBlock x]) ++
        (if c.rows.matrix.isEmpty then [] else [c.inequalityBlock x]) ++ [b]) := by
  simp only [blocks, hx, ne_eq, not_true_eq_false, if_false, hb, bind, Except.bind, pure,
    Except.pure]

theorem blocks_hold_iff {c : SmoothCall Extended} {n : ℕ} (hn : c.cost.length = n)
    (h : ∀ q ∈ c.quadratics, q.Rational n) {x : List ℚ} (hx : x.length = n) :
    (∃ bs, c.blocks (finites x) = .ok bs ∧ ∀ b ∈ bs, b.Hold) ↔
      (c.equationBlock (finites x)).Hold ∧ (c.inequalityBlock (finites x)).Hold ∧
        ∀ q ∈ c.quadratics, q.Hold (finites x) := by
  obtain ⟨b, hb, hquadratic⟩ := quadraticBlock_ok h hx
  have hlength : (finites x).length = c.cost.length := by rw [length_finites, hx, hn]
  have hequation : (∀ b ∈ (if c.rows.equations.isEmpty then []
      else [c.equationBlock (finites x)] : List (ConstraintBlock Extended)), b.Hold) ↔
        (c.equationBlock (finites x)).Hold := by
    by_cases hempty : c.rows.equations = []
    · simp [hempty, equationBlock, ConstraintBlock.Hold]
    · simp [hempty]
  have hinequality : (∀ b ∈ (if c.rows.matrix.isEmpty then []
      else [c.inequalityBlock (finites x)] : List (ConstraintBlock Extended)), b.Hold) ↔
        (c.inequalityBlock (finites x)).Hold := by
    by_cases hempty : c.rows.matrix = []
    · simp [hempty, inequalityBlock, ConstraintBlock.Hold]
    · simp [hempty]
  rw [blocks_eq hlength hb, ← hquadratic, ← hequation, ← hinequality]
  simp only [Except.ok.injEq, exists_eq_left', List.forall_mem_append, List.forall_mem_singleton,
    and_assoc]

section

variable {c : SmoothCall Extended} {m : ℕ} {row : ℕ → List Extended}
  {b : ℕ → Extended × Extended} {x : List Extended} {v : ℕ → Extended}
  (hc : c.rows = .ofClasses (RowClasses.ofPairs m b) row b)

include hc

theorem equationBlock_hold_iff (hdot : ∀ i < m, Vec.dot (row i) x = v i) :
    (c.equationBlock x).Hold ↔
      ∀ i ∈ (RowClasses.ofPairs m b).equal, Scalar.eq (v i) (b i).1 = true := by
  simp only [equationBlock, hc, SplitRows.ofClasses, ConstraintBlock.Hold, List.zipWith_map,
    List.zipWith_self, List.forall_mem_map, if_true]
  apply forall₂_congr
  intro i hi
  rw [hdot i ((RowClasses.lt_of_mem m b).1 i hi)]
  exact eq_sub_zero_iff _ (isFinite_of_isEqual (List.mem_filter.mp hi).2)

theorem inequalityBlock_hold_iff (hdot : ∀ i < m, Vec.dot (row i) x = v i) :
    (c.inequalityBlock x).Hold ↔
      (∀ i ∈ (RowClasses.ofPairs m b).above, Scalar.le (v i) (b i).2 = true) ∧
        ∀ i ∈ (RowClasses.ofPairs m b).below, Scalar.le (-(v i)) (-(b i).1) = true := by
  obtain ⟨_, habove, hbelow⟩ := RowClasses.lt_of_mem m b
  simp only [inequalityBlock, hc, SplitRows.ofClasses, ConstraintBlock.Hold, Bool.false_eq_true,
    if_false]
  rw [List.zipWith_append (by simp)]
  simp only [List.zipWith_map, List.zipWith_self, List.forall_mem_append, List.forall_mem_map,
    Extended.dot_map_neg]
  apply and_congr
  · apply forall₂_congr
    intro i hi
    have hclass := (List.mem_filter.mp hi).2
    simp only [Bool.and_eq_true] at hclass
    rw [hdot i (habove i hi)]
    exact le_zero_sub_iff _ hclass.1
  · apply forall₂_congr
    intro i hi
    have hclass := (List.mem_filter.mp hi).2
    simp only [Bool.and_eq_true] at hclass
    rw [hdot i (hbelow i hi)]
    exact le_zero_sub_iff _ (isFinite_neg hclass.1)

end

section

variable {c : SmoothCall Extended} {A : RowMatrix ℚ} {b : ℕ → Extended × Extended} {n : ℕ}
  (hc : c.rows = .ofClasses (RowClasses.ofPairs A.numRows b)
    (fun i => RowMatrix.denseRow A.numCols (A.finite.rows.getD i [])) b)
  (hb : ∀ i < A.numRows, Regular (b i))

include hc hb

theorem linear_blocks_hold_iff {x : List ℚ} (hx : x.length = A.numCols) :
    (c.equationBlock (finites x)).Hold ∧ (c.inequalityBlock (finites x)).Hold ↔
      (Bounds.tabulate A.numRows b).Hold (A.finite.mulVec (finites x)) := by
  have hdot (i : ℕ) (_ : i < A.numRows) :
      Vec.dot (RowMatrix.denseRow A.numCols (A.finite.rows.getD i [])) (finites x) =
        .finite (rowValue (A.rows.getD i []) x) := by
    rw [getD_rows_finite, ← hx, dot_denseRow]
  rw [equationBlock_hold_iff hc hdot, inequalityBlock_hold_iff hc hdot]
  exact classes_hold_iff_rows_hold A b x hb

theorem feasible_iff (hcols : A.numCols = n) (hcost : c.cost.length = n)
    (hcolumns : c.columns.lower.length = n) (hquadratics : ∀ q ∈ c.quadratics, q.Rational n)
    (x : List ℚ) :
    c.Feasible x ↔ c.columns.Hold (finites x) ∧
      (Bounds.tabulate A.numRows b).Hold (A.finite.mulVec (finites x)) ∧
        ∀ q ∈ c.quadratics, q.Hold (finites x) := by
  have hblocks (h : c.columns.Hold (finites x)) :
      (∃ bs, c.blocks (finites x) = .ok bs ∧ ∀ b ∈ bs, b.Hold) ↔
        (Bounds.tabulate A.numRows b).Hold (A.finite.mulVec (finites x)) ∧
          ∀ q ∈ c.quadratics, q.Hold (finites x) := by
    have hx : x.length = n := by
      rw [← length_finites x, ← h.1.length_eq, hcolumns]
    rw [blocks_hold_iff hcost hquadratics hx, ← and_assoc,
      linear_blocks_hold_iff hc hb (hx.trans hcols.symm)]
  constructor
  · rintro ⟨h, hhold⟩
    exact ⟨h, (hblocks h).mp hhold⟩
  · rintro ⟨h, hhold⟩
    exact ⟨h, (hblocks h).mpr hhold⟩

end

end SmoothCall

theorem Program.smoothCall_of_finite {p : Program Extended} (o : Options Extended)
    (bounds : Bounds Extended) {A : RowMatrix ℚ} (hp : p.Shaped) (hA : p.matrix = A.finite) :
    p.smoothCall o bounds = .ok
      { start := List.zipWith (Scalar.clamp 1) bounds.lower bounds.upper
        columns := bounds
        cost := p.signedCost
        rows := .ofClasses (RowClasses.ofPairs A.numRows p.rows.pair)
          (fun i => RowMatrix.denseRow A.numCols (A.finite.rows.getD i [])) p.rows.pair
        quadratics := p.quadratics
        maxIters := o.maxIters
        tolerance := o.tolerance } := by
  have hnumRows : p.matrix.numRows = A.numRows := by rw [hA, numRows_finite]
  have hpairs : p.rows = Bounds.tabulate A.numRows p.rows.pair :=
    p.rows.eq_tabulate (hp.rowLower.trans hnumRows) (hp.rowUpper.trans hnumRows)
  have hdense : p.matrix.toDense = (List.range A.numRows).map
      fun i => RowMatrix.denseRow A.numCols (A.finite.rows.getD i []) := by
    have hfinite := eq_map_range A.finite.rows []
    have hlength : A.finite.rows.length = A.numRows := numRows_finite A
    rw [hlength] at hfinite
    conv_lhs => rw [hA, RowMatrix.toDense, hfinite, List.map_map]
    rfl
  have hsplit := SplitRows.dense_tabulate A.numRows
    (fun i => RowMatrix.denseRow A.numCols (A.finite.rows.getD i [])) p.rows.pair
  rw [← hdense, ← hpairs] at hsplit
  simp only [smoothCall, hsplit, bind, Except.bind, pure, Except.pure]

theorem Program.smoothCall_exact {p : Program Extended} (o : Options Extended)
    {bounds : Bounds Extended} {A : RowMatrix ℚ} (hp : p.Shaped) (hA : p.matrix = A.finite)
    (hrows : ∀ i < A.numRows, Regular (p.rows.pair i))
    (hquadratics : ∀ q ∈ p.quadratics, q.Rational p.cost.length)
    (hbounds : bounds.lower.length = p.cost.length) :
    ∃ call, p.smoothCall o bounds = .ok call ∧ call.cost = p.signedCost ∧
      ∀ x, call.Feasible x ↔ bounds.Hold (finites x) ∧
        p.rows.Hold (p.matrix.mulVec (finites x)) ∧ ∀ q ∈ p.quadratics, q.Hold (finites x) := by
  have hnumRows : p.matrix.numRows = A.numRows := by rw [hA, numRows_finite]
  have hnumCols : A.numCols = p.cost.length := by rw [← hp.cols, hA, numCols_finite]
  have hpairs : p.rows = Bounds.tabulate A.numRows p.rows.pair :=
    p.rows.eq_tabulate (hp.rowLower.trans hnumRows) (hp.rowUpper.trans hnumRows)
  have hcost : p.signedCost.length = p.cost.length := by simp [signedCost]
  refine ⟨_, smoothCall_of_finite o bounds hp hA, rfl, ?_⟩
  intro x
  rw [SmoothCall.feasible_iff rfl hrows hnumCols hcost hbounds hquadratics, ← hpairs, ← hA]

end ConeLift
