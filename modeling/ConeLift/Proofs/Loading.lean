import ConeLift.Bridge
import ConeLift.Proofs.Finite
import ConeLift.Proofs.Lift.Outcome

namespace ConeLift

structure QuadraticRow.Fits {α : Type} (q : QuadraticRow α) (n : ℕ) : Prop where
  linear : q.linearIndex.length = q.linearCoef.length
  square : q.rowIndex.length = q.colIndex.length
  coef : q.colIndex.length = q.coef.length
  inside : ∀ i ∈ q.linearIndex ++ q.rowIndex ++ q.colIndex, 0 ≤ i ∧ i < n

theorem QuadraticRow.Fits.parts {α : Type} {q : QuadraticRow α} {n : ℕ} (h : q.Fits n) :
    (∀ i ∈ q.linearIndex, 0 ≤ i ∧ i < n) ∧ (∀ i ∈ q.rowIndex, 0 ≤ i ∧ i < n) ∧
      ∀ i ∈ q.colIndex, 0 ≤ i ∧ i < n := by
  have hinside := h.inside
  rw [List.forall_mem_append, List.forall_mem_append, and_assoc] at hinside
  exact hinside

theorem QuadraticRow.fits_of_ofData {α : Type} {d : QuadraticData α} {q : QuadraticRow α} {n : ℕ}
    (hd : d.Fits n) (h : ofData d = .ok q) : q.Fits n := by
  obtain ⟨linearCoef, hlinear, h⟩ := (bind_eq_ok_iff _ _ _).mp h
  obtain ⟨coef, hcoef, h⟩ := (bind_eq_ok_iff _ _ _).mp h
  obtain ⟨bound, _, h⟩ := (bind_eq_ok_iff _ _ _).mp h
  cases h
  have hlinear := ((mapM_eq_ok_iff _ _ _).mp hlinear).length_eq
  have hcoef := ((mapM_eq_ok_iff _ _ _).mp hcoef).length_eq
  exact ⟨hd.linear.trans hlinear, hd.square, hd.coef.trans hcoef, hd.inside⟩

def Lifted.program (p : Lifted Extended) : Program Extended where
  toLinearModel := p.toLinear
  sense := .minimize
  quadratics := p.quadratics
  types := List.replicate p.cost.length .continuous

abbrev Numbers.program (n : Numbers ℚ) (constraintCones variableCones : List Cone) :
    Program Extended :=
  (n.finite.lift constraintCones variableCones).program

theorem not_crossed (b : Extended × Extended) (hlower : b.1 ∈ [Extended.negInfinity, .finite 0])
    (hupper : b.2 ∈ [Extended.finite 0, .infinity]) : Scalar.lt b.2 b.1 = false := by
  simp only [List.mem_cons, List.not_mem_nil, or_false] at hlower hupper
  rcases hlower with hl | hl <;> rcases hupper with hu | hu <;> rw [hl, hu] <;> decide

theorem check_lift {n : Numbers Extended} {constraintCones variableCones : List Cone}
    (h : n.Liftable constraintCones variableCones) :
    (n.lift constraintCones variableCones).toLinear.check = .ok () := by
  have huncrossed : (List.zipWith (fun l u => Scalar.lt u l)
      (n.lift constraintCones variableCones).columns.lower
      (n.lift constraintCones variableCones).columns.upper).any id = false := by
    rw [List.any_eq_false]
    simp only [Numbers.lift, Bounds.tabulate, List.zipWith_map, List.zipWith_self, List.mem_map]
    rintro b ⟨j, _, rfl⟩
    obtain ⟨hl, hu⟩ :=
      columnBounds_sides (α := Extended) variableCones constraintCones n.cost.length j
    simp [not_crossed _ hl hu]
  have hcols : n.matrix.numCols = n.cost.length := h.cols
  have hrows : (auxiliaryRows n.matrix (Partition.ofCones constraintCones)).length =
      (Partition.ofCones constraintCones).secondOrder.length := by
    simp [auxiliaryRows, Partition.numAux]
  simp only [LinearModel.check, Lifted.toLinear, huncrossed, if_false, Bool.false_eq_true]
  simp [Numbers.lift, hcols, hrows, RowMatrix.numRows, linearRows]

theorem checkQuadratic_eq_ok_iff {α : Type} (n : ℕ) (q : QuadraticRow α)
    (relation : String) :
    Program.checkQuadratic n q relation = .ok () ↔
      relation = QuadraticRow.relation ∧ q.Fits n := by
  have hfind : (q.linearIndex ++ q.rowIndex ++ q.colIndex).find?
      (fun i => i < 0 || (n : ℤ) ≤ i) = none ↔
        ∀ i ∈ q.linearIndex ++ q.rowIndex ++ q.colIndex, 0 ≤ i ∧ i < n := by
    simp only [List.find?_eq_none, Bool.or_eq_true, decide_eq_true_eq, not_or, not_lt, not_le]
  have hfits : q.Fits n ↔ q.linearIndex.length = q.linearCoef.length ∧
      (q.rowIndex.length = q.colIndex.length ∧ q.colIndex.length = q.coef.length) ∧
        ∀ i ∈ q.linearIndex ++ q.rowIndex ++ q.colIndex, 0 ≤ i ∧ i < n := by
    constructor
    · intro h
      exact ⟨h.linear, ⟨h.square, h.coef⟩, h.inside⟩
    · rintro ⟨hlinear, ⟨hsquare, hcoef⟩, hinside⟩
      exact ⟨hlinear, hsquare, hcoef, hinside⟩
  rw [hfits, ← hfind, Program.checkQuadratic]
  split_ifs with hrelation hlinear hquadratic
  · simp [hrelation]
  · simp [hlinear]
  · rw [not_not] at hrelation hlinear
    cases hi : (q.linearIndex ++ q.rowIndex ++ q.colIndex).find?
        (fun i => i < 0 || (n : ℤ) ≤ i) with
    | none => simp only [hrelation, hlinear, hquadratic, and_self]
    | some i => simp
  · simp [hquadratic]

theorem fits_ofColumns {α : Type} [Scalar α] (n : ℕ) (columns : List ℕ) (hne : columns ≠ []) :
    (QuadraticRow.ofColumns (α := α) columns).Fits n ↔ ∀ j ∈ columns, j < n := by
  have hpos := List.length_pos_iff.mpr hne
  constructor
  · intro h j hj
    have hinside := h.inside (j : ℤ) (by
      simp only [QuadraticRow.ofColumns, QuadraticRow.ofCone, List.mem_append]
      exact Or.inr (List.mem_map_of_mem hj))
    omega
  · intro h
    constructor
    · rfl
    · rfl
    · simp only [QuadraticRow.ofColumns, QuadraticRow.ofCone, List.length_cons,
        List.length_replicate, List.length_map]
      omega
    · intro i hi
      simp only [QuadraticRow.ofColumns, QuadraticRow.ofCone, List.nil_append, List.mem_append,
        or_self, List.mem_map] at hi
      obtain ⟨j, hj, rfl⟩ := hi
      have hlt := h j hj
      omega

end ConeLift
