import ConeLift.Model.Violation
import ConeLift.Proofs.Calls
import ConeLift.Proofs.Extremes
import ConeLift.Proofs.QuadraticValues
import ConeLift.Proofs.Split

namespace ConeLift

namespace Extended

theorem sub_finite_ne_undefined {l : Extended} (hl : l ≠ .undefined) (v : ℚ) :
    l - .finite v ≠ .undefined := by
  cases l with
  | undefined => exact absurd rfl hl
  | finite p =>
    rw [finite_sub]
    exact finite_ne_undefined _
  | infinity => exact Extended.noConfusion
  | negInfinity => exact Extended.noConfusion

theorem finite_sub_ne_undefined {u : Extended} (hu : u ≠ .undefined) (v : ℚ) :
    .finite v - u ≠ .undefined := by
  cases u with
  | undefined => exact absurd rfl hu
  | finite q =>
    rw [finite_sub]
    exact finite_ne_undefined _
  | infinity => exact Extended.noConfusion
  | negInfinity => exact Extended.noConfusion

@[simp] theorem undefined_sub (b : Extended) : Extended.undefined - b = .undefined := rfl

@[simp] theorem sub_finite_zero (l : Extended) : l - .finite 0 = l := by
  cases l with
  | finite p => rw [finite_sub, sub_zero]
  | _ => rfl

@[simp] theorem add_finite_zero (u : Extended) : u + .finite 0 = u := by
  cases u with
  | finite q => rw [finite_add, add_zero]
  | _ => rfl

theorem sub_finite_le_iff (l : Extended) (v t : ℚ) :
    Scalar.le (l - .finite v) (.finite t) = true ↔
      Scalar.le (l - .finite t) (.finite v) = true := by
  cases l with
  | finite p => rw [finite_sub, finite_sub, le_finite_iff, le_finite_iff, sub_le_comm]
  | infinity => exact Iff.rfl
  | negInfinity => exact Iff.rfl
  | undefined => exact Iff.rfl

theorem finite_sub_le_iff (u : Extended) (v t : ℚ) :
    Scalar.le (.finite v - u) (.finite t) = true ↔
      Scalar.le (.finite v) (u + .finite t) = true := by
  cases u with
  | finite q => rw [finite_sub, finite_add, le_finite_iff, le_finite_iff, sub_le_iff_le_add']
  | infinity => exact Iff.rfl
  | negInfinity => exact Iff.rfl
  | undefined => exact Iff.rfl

end Extended

def Bounds.relax (B : Bounds Extended) (t : ℚ) : Bounds Extended :=
  ⟨B.lower.map (· - .finite t), B.upper.map (· + .finite t)⟩

def QuadraticRow.relax (q : QuadraticRow Extended) (t : ℚ) : QuadraticRow Extended :=
  { q with bound := q.bound + .finite t }

/-- What a program asks of a point, apart from the types of variables, with every bound moved
outwards by `t`. -/
@[mk_iff] structure Program.SatisfiedUpTo (p : Program Extended) (t : ℚ) (x : List ℚ) : Prop where
  columns : (p.columns.relax t).Hold (finites x)
  rows : (p.rows.relax t).Hold (p.matrix.mulVec (finites x))
  quadratics : ∀ q ∈ p.quadratics, (q.relax t).Hold (finites x)

theorem Program.satisfiedUpTo_zero_iff (p : Program Extended) (x : List ℚ) :
    p.SatisfiedUpTo 0 x ↔ p.columns.Hold (finites x) ∧
      p.rows.Hold (p.matrix.mulVec (finites x)) ∧ ∀ q ∈ p.quadratics, q.Hold (finites x) := by
  have hbounds (B : Bounds Extended) : B.relax 0 = B := by
    simp only [Bounds.relax, Extended.sub_finite_zero, Extended.add_finite_zero, List.map_id']
  have hquadratic (q : QuadraticRow Extended) : q.relax 0 = q := by
    rw [QuadraticRow.relax, Extended.add_finite_zero]
  simp only [satisfiedUpTo_iff, hbounds, hquadratic]

theorem QuadraticRow.relax_hold_iff {q : QuadraticRow ℚ} {x : List ℚ} (h : q.Fits x.length)
    (t : ℚ) : (q.finite.relax t).Hold (finites x) ↔ q.eval x - q.bound ≤ t := by
  have hrelax : q.finite.relax t = QuadraticRow.finite { q with bound := q.bound + t } := by
    simp [relax, finite]
  have hfits : QuadraticRow.Fits { q with bound := q.bound + t } x.length :=
    ⟨h.linear, h.square, h.coef, h.inside⟩
  rw [hrelax, hold_finite_iff hfits, sub_le_iff_le_add']
  rfl

namespace Program

theorem worst_le_iff (es : List Extended) (t : Extended) :
    Scalar.le (worst es) t = true ↔
      Scalar.le 0 t = true ∧ ∀ e ∈ es, Scalar.le e t = true :=
  Extended.foldl_strictMax_le_iff es 0 t

theorem worst_eq_undefined_iff (es : List Extended) : worst es = .undefined ↔ .undefined ∈ es :=
  (Extended.foldl_strictMax_eq_undefined_iff es 0).trans
    (or_iff_right (Extended.finite_ne_undefined 0))

theorem leading_eq_undefined_iff (e : Extended) (es : List Extended) :
    leading (e :: es) = .undefined ↔ e = .undefined :=
  Extended.foldl_firstMax_eq_undefined_iff es e

section

variable {es : List Extended} (hes : ∀ e ∈ es, e ≠ .undefined)

include hes

theorem worst_ne_undefined : worst es ≠ .undefined := by
  rw [ne_eq, worst_eq_undefined_iff]
  exact fun h => hes _ h rfl

theorem worst_nonneg : Scalar.le 0 (worst es) = true :=
  ((worst_le_iff es _).mp (Extended.le_refl (worst_ne_undefined hes))).1

theorem leading_le_iff (hne : es ≠ []) (t : Extended) :
    Scalar.le (leading es) t = true ↔ ∀ e ∈ es, Scalar.le e t = true := by
  cases es with
  | nil => exact absurd rfl hne
  | cons e es =>
    rw [List.forall_mem_cons] at hes ⊢
    exact Extended.foldl_firstMax_le_iff hes.2 e t

theorem le_leading {e : Extended} (he : e ∈ es) : Scalar.le e (leading es) = true := by
  have hdefined : leading es ≠ .undefined := by
    cases es with
    | nil => cases he
    | cons d es =>
      rw [ne_eq, leading_eq_undefined_iff]
      exact hes d (List.mem_cons_self ..)
  exact (leading_le_iff hes (List.ne_nil_of_mem he) _).mp (Extended.le_refl hdefined) e he

end

end Program

namespace Bounds

variable {B : Bounds Extended}

theorem Defined.lower_excess (hB : B.Defined) (z : List ℚ) :
    ∀ e ∈ List.zipWith (· - ·) B.lower (finites z), e ≠ .undefined := by
  intro e he
  obtain ⟨l, hl, _, hv, rfl⟩ := exists_of_mem_zipWith he
  obtain ⟨v, _, rfl⟩ := List.mem_map.mp hv
  exact Extended.sub_finite_ne_undefined (hB.lower l hl) v

theorem Defined.upper_excess (hB : B.Defined) (z : List ℚ) :
    ∀ e ∈ List.zipWith (· - ·) (finites z) B.upper, e ≠ .undefined := by
  intro e he
  obtain ⟨_, hv, u, hu, rfl⟩ := exists_of_mem_zipWith he
  obtain ⟨v, _, rfl⟩ := List.mem_map.mp hv
  exact Extended.finite_sub_ne_undefined (hB.upper u hu) v

theorem relax_hold_iff (B : Bounds Extended) {z : List ℚ} (hlower : B.lower.length = z.length)
    (hupper : B.upper.length = z.length) {t : ℚ} (ht : 0 ≤ t) :
    (B.relax t).Hold (finites z) ↔
      Scalar.le (Program.worst (List.zipWith (· - ·) B.lower (finites z))) (.finite t) = true ∧
        Scalar.le (Program.worst (List.zipWith (· - ·) (finites z) B.upper)) (.finite t) =
          true := by
  have hcomm : List.zipWith (· - ·) (finites z) B.upper =
      List.zipWith (fun u v => v - u) B.upper (finites z) := List.zipWith_comm
  rw [Program.worst_le_iff, Program.worst_le_iff, hcomm,
    forall_mem_zipWith_iff (by simpa using hlower), forall_mem_zipWith_iff (by simpa using hupper)]
  simp only [Extended.zero_eq, Extended.le_finite_iff, ht, true_and, Hold, relax, finites, List.forall₂_map_left_iff, List.forall₂_map_right_iff,
    Extended.sub_finite_le_iff, Extended.finite_sub_le_iff]

end Bounds

namespace Program

variable {p : Program Extended} {A : RowMatrix ℚ} {qs : List (QuadraticRow ℚ)} {x : List ℚ}

def excessesAt (p : Program Extended) (qs : List (QuadraticRow ℚ)) (x z : List ℚ) :
    List Extended :=
  [worst (List.zipWith (· - ·) p.columns.lower (finites x)),
    worst (List.zipWith (· - ·) (finites x) p.columns.upper),
    worst (List.zipWith (· - ·) p.rows.lower (finites z)),
    worst (List.zipWith (· - ·) (finites z) p.rows.upper)] ++
      qs.map fun q => .finite (q.eval x - q.bound)

theorem violation_of_finite (hA : p.matrix = A.finite)
    (hquadratics : p.quadratics = qs.map QuadraticRow.finite) (hx : x.length = p.matrix.numCols)
    (hfits : ∀ q ∈ qs, q.Fits x.length) :
    p.violation (some (finites x)) = .ok (leading (p.excessesAt qs x (A.apply x))) := by
  have hfinite : (finites x).all Scalar.isFinite = true := by
    simp [finites, isFinite_finite]
  have hvalues : (qs.map QuadraticRow.finite).mapM (fun q => do
      return (← q.value (finites x)) - q.bound) =
        .ok (qs.map fun q => .finite (q.eval x - q.bound)) := by
    apply mapM_map_of_forall
    intro q hq
    rw [QuadraticRow.value_finite (hfits q hq)]
    simp [QuadraticRow.finite, bind, Except.bind, pure, Except.pure]
  have hlength : ¬(finites x).length ≠ p.matrix.numCols := by rw [length_finites, hx, not_not]
  have hproduct : p.matrix.mulVec (finites x) = finites (A.apply x) := by
    rw [hA, mulVec_finite]
  simp only [violation, hfinite, if_true]
  rw [excesses, hquadratics, hvalues, hproduct]
  simp only [hlength, if_false, bind, Except.bind, pure, Except.pure, Except.map, excessesAt]

theorem excessesAt_defined (hcolumns : p.columns.Defined) (hrows : p.rows.Defined)
    (qs : List (QuadraticRow ℚ)) (x z : List ℚ) :
    ∀ e ∈ p.excessesAt qs x z, e ≠ .undefined := by
  simp only [excessesAt, List.forall_mem_append, List.forall_mem_cons, List.forall_mem_map]
  refine ⟨⟨?_, ?_, ?_, ?_, by simp⟩, fun q _ => Extended.finite_ne_undefined _⟩
  · exact worst_ne_undefined (hcolumns.lower_excess x)
  · exact worst_ne_undefined (hcolumns.upper_excess x)
  · exact worst_ne_undefined (hrows.lower_excess z)
  · exact worst_ne_undefined (hrows.upper_excess z)

theorem excessesAt_le_iff (hp : p.Shaped) (hA : p.matrix = A.finite)
    (hquadratics : p.quadratics = qs.map QuadraticRow.finite)
    (hfits : ∀ q ∈ qs, q.Fits x.length) (hx : x.length = p.cost.length) {t : ℚ} (ht : 0 ≤ t) :
    (∀ e ∈ p.excessesAt qs x (A.apply x), Scalar.le e (.finite t) = true) ↔
      p.SatisfiedUpTo t x := by
  have hnumRows : (A.apply x).length = p.matrix.numRows := by
    rw [hA, numRows_finite, RowMatrix.apply, List.length_map, RowMatrix.numRows]
  have hcolumn := p.columns.relax_hold_iff (hp.lower.trans hx.symm)
    (hp.upper.trans hx.symm) ht
  have hrow := p.rows.relax_hold_iff (hp.rowLower.trans hnumRows.symm)
    (hp.rowUpper.trans hnumRows.symm) ht
  have hquadratic : (∀ q ∈ p.quadratics, (q.relax t).Hold (finites x)) ↔
      ∀ q ∈ qs, q.eval x - q.bound ≤ t := by
    rw [hquadratics, List.forall_mem_map]
    exact forall₂_congr fun q hq => QuadraticRow.relax_hold_iff (hfits q hq) t
  rw [satisfiedUpTo_iff, hA, mulVec_finite, hcolumn, hrow, hquadratic]
  simp only [excessesAt, List.forall_mem_append, List.forall_mem_cons, List.forall_mem_map,
    Extended.le_finite_iff, List.not_mem_nil, false_implies, implies_true, and_true, and_assoc]

theorem violation_spec (hp : p.Shaped) (hA : p.matrix = A.finite)
    (hquadratics : p.quadratics = qs.map QuadraticRow.finite)
    (hfits : ∀ q ∈ qs, q.Fits p.cost.length) (hcolumns : p.columns.Defined)
    (hrows : p.rows.Defined) (hx : x.length = p.cost.length) :
    ∃ v, p.violation (some (finites x)) = .ok v ∧ Scalar.le 0 v = true ∧
      ∀ t, 0 ≤ t → (Scalar.le v (.finite t) = true ↔ p.SatisfiedUpTo t x) := by
  rw [← hx] at hfits
  have hdefined := excessesAt_defined hcolumns hrows qs x (A.apply x)
  refine ⟨_, violation_of_finite hA hquadratics (hx.trans hp.cols.symm) hfits, ?_, ?_⟩
  · exact Extended.le_trans (worst_nonneg (hcolumns.lower_excess x))
      (le_leading hdefined (by simp [excessesAt]))
  · intro t ht
    rw [leading_le_iff hdefined (by simp [excessesAt]),
      excessesAt_le_iff hp hA hquadratics hfits hx ht]

end Program

end ConeLift
