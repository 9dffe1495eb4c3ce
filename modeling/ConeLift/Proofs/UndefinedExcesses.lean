import ConeLift.Proofs.AttemptErrors
import ConeLift.Proofs.InfeasibleVerdicts
import ConeLift.Proofs.Violation

/-!
Comparisons that cannot be made. The largest violation is undefined only if one of the excesses over
lower bounds of the variables is; an undefined excess in any later place is passed over, together
with the whole block of bounds in which it occurs.
-/

namespace ConeLift

namespace Bounds

def below (B : Bounds Extended) (xs : List Extended) : List Extended :=
  List.zipWith (· - ·) B.lower xs

def above (B : Bounds Extended) (xs : List Extended) : List Extended :=
  List.zipWith (· - ·) xs B.upper

structure MetUpTo (B : Bounds Extended) (t : Extended) (xs : List Extended) : Prop where
  lower : List.Forall₂ (fun l x => Scalar.le (l - x) t = true) B.lower xs
  upper : List.Forall₂ (fun u x => Scalar.le (x - u) t = true) B.upper xs

theorem metUpTo_iff {B : Bounds Extended} {xs : List Extended} (hlower : B.lower.length = xs.length)
    (hupper : B.upper.length = xs.length) (t : Extended) :
    B.MetUpTo t xs ↔
      (∀ e ∈ B.below xs, Scalar.le e t = true) ∧ ∀ e ∈ B.above xs, Scalar.le e t = true := by
  have hcomm : B.above xs = List.zipWith (fun u x => x - u) B.upper xs := List.zipWith_comm
  rw [hcomm, below, forall_mem_zipWith_iff hlower, forall_mem_zipWith_iff hupper]
  exact ⟨fun h => ⟨h.lower, h.upper⟩, fun h => ⟨h.1, h.2⟩⟩

end Bounds

def QuadraticRow.excess (q : QuadraticRow Extended) (x : List Extended) :
    Except Error Extended := do
  return (← q.value x) - q.bound

def PassUpTo (t : Extended) (es : List Extended) : Prop :=
  .undefined ∈ es ∨ ∀ e ∈ es, Scalar.le e t = true

theorem PassUpTo.forall_le {t : Extended} {es : List Extended} (h : PassUpTo t es)
    (hdefined : .undefined ∉ es) : ∀ e ∈ es, Scalar.le e t = true := h.resolve_left hdefined

theorem undefined_notMem {t : Extended} {es : List Extended}
    (h : ∀ e ∈ es, Scalar.le e t = true) : .undefined ∉ es := by
  intro hmem
  have hle := h _ hmem
  simp at hle

theorem worst_pass_iff {t : Extended} (ht : Scalar.le 0 t = true) (es : List Extended) :
    Program.worst es = .undefined ∨ Scalar.le (Program.worst es) t = true ↔ PassUpTo t es := by
  rw [Program.worst_eq_undefined_iff, Program.worst_le_iff, and_iff_right ht]
  exact Iff.rfl

namespace Program

structure MetUpTo (p : Program Extended) (t : Extended) (x : List Extended) : Prop where
  columns : p.columns.MetUpTo t x
  rows : p.rows.MetUpTo t (p.matrix.mulVec x)
  quadratics : ∀ q ∈ p.quadratics, ∃ e, q.excess x = .ok e ∧ Scalar.le e t = true

/-- What the largest violation makes sure of if it is at most `t`: only the excesses over lower
bounds of variables have to be defined. -/
structure PassesUpTo (p : Program Extended) (t : Extended) (x : List Extended) : Prop where
  tolerance : Scalar.le 0 t = true
  lower : ∀ e ∈ p.columns.below x, Scalar.le e t = true
  upper : PassUpTo t (p.columns.above x)
  rowLower : PassUpTo t (p.rows.below (p.matrix.mulVec x))
  rowUpper : PassUpTo t (p.rows.above (p.matrix.mulVec x))
  quadratics : ∀ q ∈ p.quadratics, ∃ e, q.excess x = .ok e ∧ PassUpTo t [e]

structure Misses (p : Program Extended) (t : Extended) (x : List Extended) : Prop extends
    p.PassesUpTo t x where
  undefined : .undefined ∈ p.columns.above x ∨ .undefined ∈ p.rows.below (p.matrix.mulVec x) ∨
    .undefined ∈ p.rows.above (p.matrix.mulVec x) ∨
      ∃ q ∈ p.quadratics, q.excess x = .ok .undefined

variable {p : Program Extended} {o : Options Extended} {x : List Extended}

def largest (p : Program Extended) (x es : List Extended) : Extended :=
  leading (worst (p.columns.below x) :: [worst (p.columns.above x),
    worst (p.rows.below (p.matrix.mulVec x)), worst (p.rows.above (p.matrix.mulVec x))] ++ es)

theorem largest_eq_undefined_iff (p : Program Extended) (x es : List Extended) :
    p.largest x es = .undefined ↔ .undefined ∈ p.columns.below x :=
  (leading_eq_undefined_iff _ _).trans (worst_eq_undefined_iff _)

theorem forall_excess_iff {t : Extended} {qs : List (QuadraticRow Extended)} {es : List Extended}
    (h : List.Forall₂ (fun q e => q.excess x = .ok e) qs es) :
    (∀ q ∈ qs, ∃ e, q.excess x = .ok e ∧ PassUpTo t [e]) ↔
      ∀ e ∈ es, e = .undefined ∨ Scalar.le e t = true := by
  induction h with
  | nil => simp
  | @cons q e qs es hq _ ih =>
    have hsingle : PassUpTo t [e] ↔ e = .undefined ∨ Scalar.le e t = true := by
      rw [PassUpTo, List.mem_singleton, List.forall_mem_singleton, eq_comm]
    rw [List.forall_mem_cons, List.forall_mem_cons, ih, hq, ← hsingle]
    simp only [Except.ok.injEq, exists_eq_left']

theorem largest_le_iff {es : List Extended}
    (hes : List.Forall₂ (fun q e => q.excess x = .ok e) p.quadratics es) (t : Extended) :
    Scalar.le (p.largest x es) t = true ↔ p.PassesUpTo t x := by
  have hfold := Extended.foldl_firstMax_le_iff_or ([worst (p.columns.above x),
    worst (p.rows.below (p.matrix.mulVec x)), worst (p.rows.above (p.matrix.mulVec x))] ++ es)
    (worst (p.columns.below x)) t
  refine hfold.trans ?_
  rw [worst_le_iff, List.forall_mem_append, ← forall_excess_iff hes]
  simp only [List.forall_mem_cons, List.not_mem_nil, false_implies, implies_true, and_true]
  constructor
  · rintro ⟨⟨ht, hlower⟩, ⟨hupper, hrowLower, hrowUpper⟩, hquadratics⟩
    rw [worst_pass_iff ht] at hupper hrowLower hrowUpper
    exact ⟨ht, hlower, hupper, hrowLower, hrowUpper, hquadratics⟩
  · intro h
    have hblock := worst_pass_iff h.tolerance
    exact ⟨⟨h.tolerance, h.lower⟩, ⟨(hblock _).mpr h.upper, (hblock _).mpr h.rowLower,
      (hblock _).mpr h.rowUpper⟩, h.quadratics⟩

theorem exists_violation_eq (hp : p.Sound) (hx : x.length = p.cost.length)
    (hfinite : x.all Scalar.isFinite = true) :
    ∃ es, List.Forall₂ (fun q e => q.excess x = .ok e) p.quadratics es ∧
      p.violation (some x) = .ok (p.largest x es) := by
  obtain ⟨es, hes⟩ : ∃ es, p.quadratics.mapM (fun q => do
      return (← q.value x) - q.bound) = .ok es := by
    apply exists_mapM_of_forall
    intro q hq
    obtain ⟨v, hv⟩ := QuadraticRow.value_ok (x := x) (by rw [hx]; exact hp.quadratics q hq)
    refine ⟨v - q.bound, ?_⟩
    rw [hv]
    rfl
  have hlength : ¬x.length ≠ p.matrix.numCols := by rw [hp.cols, hx, not_not]
  refine ⟨es, (mapM_eq_ok_iff _ _ _).mp hes, ?_⟩
  simp only [violation, hfinite, if_true]
  rw [excesses, hes]
  simp only [hlength, if_false]
  rfl

theorem metUpTo_of_passes_iff (hp : p.Shaped) (hx : x.length = p.cost.length) (t : Extended) :
    (p.PassesUpTo t x → p.MetUpTo t x) ↔ ¬p.Misses t x := by
  have hproduct : (p.matrix.mulVec x).length = p.matrix.numRows := by
    simp [RowMatrix.mulVec, RowMatrix.numRows]
  have hcolumns := Bounds.metUpTo_iff (hp.lower.trans hx.symm) (hp.upper.trans hx.symm) t
  have hrows := Bounds.metUpTo_iff (hp.rowLower.trans hproduct.symm)
    (hp.rowUpper.trans hproduct.symm) t
  constructor
  · intro h hmisses
    have hmet := h hmisses.toPassesUpTo
    rcases hmisses.undefined with hmem | hmem | hmem | ⟨q, hq, hundefined⟩
    · exact undefined_notMem (hcolumns.mp hmet.columns).2 hmem
    · exact undefined_notMem (hrows.mp hmet.rows).1 hmem
    · exact undefined_notMem (hrows.mp hmet.rows).2 hmem
    · obtain ⟨e, he, hle⟩ := hmet.quadratics q hq
      obtain rfl := Except.ok.inj (hundefined.symm.trans he)
      simp at hle
  · intro hnone hpasses
    constructor
    · rw [hcolumns]
      exact ⟨hpasses.lower, hpasses.upper.forall_le fun h => hnone ⟨hpasses, .inl h⟩⟩
    · rw [hrows]
      exact ⟨hpasses.rowLower.forall_le fun h => hnone ⟨hpasses, .inr (.inl h)⟩,
        hpasses.rowUpper.forall_le fun h => hnone ⟨hpasses, .inr (.inr (.inl h))⟩⟩
    · intro q hq
      obtain ⟨e, he, hpass⟩ := hpasses.quadratics q hq
      refine ⟨e, he, hpass.forall_le ?_ e (List.mem_singleton_self e)⟩
      intro hmem
      rw [← List.mem_singleton.mp hmem] at he
      exact hnone ⟨hpasses, .inr (.inr (.inr ⟨q, hq, he⟩))⟩

theorem not_metUpTo_of_undefined (hp : p.Shaped) (hx : x.length = p.cost.length)
    (h : .undefined ∈ p.columns.below x) (t : Extended) : ¬p.MetUpTo t x := by
  have hcolumns := Bounds.metUpTo_iff (hp.lower.trans hx.symm) (hp.upper.trans hx.symm) t
  exact fun hmet => undefined_notMem (hcolumns.mp hmet.columns).1 h

theorem judgeRetry_ne_keep_iff {r : Report Extended} (hr : r.point = some x)
    (hsuccess : r.success = true) {v : Extended} (hv : p.violation (some x) = .ok v)
    (box : Bounds Extended) :
    p.judgeRetry o box r ≠ .keep ↔ Scalar.le v o.feasibility = true := by
  by_cases hle : Scalar.le v o.feasibility = true
  · rw [ne_eq, judgeRetry_eq_keep_iff ⟨v, hr ▸ hv, hle⟩, hsuccess]
    simp [hle]
  · simp [judgeRetry, hr, hv, hle]

theorem conclude_infeasible_iff_lt {r : Report Extended} (hr : r.point = some x)
    (hsuccess : r.success = false) (hcode : Status.ofSmoothCode r.code = .failed) {v : Extended}
    (hv : p.violation (some x) = .ok v) (base : Outcome Extended) :
    (p.conclude o r base).1.status = .infeasible ↔ Scalar.lt o.feasibility v = true := by
  have hcompatible : r.code ≠ incompatible := by
    rw [ne_eq, ← Status.ofSmoothCode_eq_infeasible_iff, hcode]
    exact Status.noConfusion
  rw [conclude_infeasible_iff hsuccess hcompatible, Exceeds, hr, hv]
  simp [hcode]

end Program

namespace Model

open Program

/-- After any session, a largest violation within a tolerance means that every single excess of the
point is, unless one of them is undefined and missed. A second attempt to solve takes a point
for feasible just as well; the test for infeasibility moreover lets a point pass if its excess over
the lower bound of a variable is undefined. -/
theorem run_violation_passes_iff (o : Options Extended) (ops : List (Operation Extended))
    {p : Program Extended} {x : List ℚ} (hp : (run o ops).program = some p)
    (hx : x.length = p.cost.length) :
    ∃ v, (run o ops).violation (some (finites x)) = .ok v ∧
      (∀ t, (Scalar.le v t = true → p.MetUpTo t (finites x)) ↔ ¬p.Misses t (finites x)) ∧
      (v = .undefined ↔ .undefined ∈ p.columns.below (finites x)) ∧
      (∀ box (r : Report Extended), r.point = some (finites x) → r.success = true →
        ((p.judgeRetry o box r ≠ .keep → p.MetUpTo o.feasibility (finites x)) ↔
          ¬p.Misses o.feasibility (finites x))) ∧
      (o.feasibility ≠ .undefined → ∀ base (r : Report Extended),
        r.point = some (finites x) → r.success = false → Status.ofSmoothCode r.code = .failed →
        (((p.conclude o r base).1.status ≠ .infeasible →
            p.MetUpTo o.feasibility (finites x)) ↔
          ¬(v = .undefined ∨ p.Misses o.feasibility (finites x)))) := by
  have hsound := run_sound o ops p hp
  have hlength : (finites x).length = p.cost.length := by rw [length_finites, hx]
  have hfinite : (finites x).all Scalar.isFinite = true := by simp [finites, isFinite_finite]
  obtain ⟨es, hes, hv⟩ := exists_violation_eq hsound hlength hfinite
  have hmet (t : Extended) : (Scalar.le (p.largest (finites x) es) t = true →
      p.MetUpTo t (finites x)) ↔ ¬p.Misses t (finites x) := by
    rw [largest_le_iff hes]
    exact metUpTo_of_passes_iff hsound.toShaped hlength t
  have hundefined := p.largest_eq_undefined_iff (finites x) es
  refine ⟨p.largest (finites x) es, ?_, hmet, hundefined, ?_, ?_⟩
  · rw [violation, hp]
    exact hv
  · intro box r hr hsuccess
    rw [judgeRetry_ne_keep_iff hr hsuccess hv]
    exact hmet _
  · intro hfeasibility base r hr hsuccess hcode
    rw [ne_eq, conclude_infeasible_iff_lt hr hsuccess hcode hv, Bool.not_eq_true,
      Extended.lt_false_iff hfeasibility, or_imp, hmet, not_or]
    apply and_congr_left'
    constructor
    · intro h hlargest
      exact not_metUpTo_of_undefined hsound.toShaped hlength (hundefined.mp hlargest) _ (h hlargest)
    · intro hdefined hlargest
      exact absurd hlargest hdefined

def circleSession (lower rowLower : Extended) : List (Operation Extended) :=
  [.load
      { matrix := .compressed ⟨1, [[(0, .finite 1)]]⟩
        lower := .ofList [lower]
        upper := .ofList [.infinity]
        cost := .ofList [.finite 1]
        rowLower := .ofList [rowLower]
        rowUpper := .ofList [.infinity] } "min",
    .addQuadratic (QuadraticRow.finite ⟨[], [], [0], [0], [1], 1⟩).ready "<="]

def circleProgram (lower rowLower : Extended) : Program Extended where
  matrix := RowMatrix.finite ⟨1, [[(0, 1)]]⟩
  columns := ⟨[lower], [.infinity]⟩
  cost := [.finite 1]
  rows := ⟨[rowLower], [.infinity]⟩
  sense := .minimize
  quadratics := [QuadraticRow.finite ⟨[], [], [0], [0], [1], 1⟩]
  types := [.continuous]

theorem run_violation_passes_iff_undefinedLower :
    (run (Options.default Extended) (circleSession .undefined .negInfinity)).violation
        (some (finites [0])) = .ok .undefined ∧
      ∀ box (r : Report Extended), r.point = some (finites [0]) → r.success = true →
        (circleProgram .undefined .negInfinity).judgeRetry (Options.default Extended) box r =
          .keep := by
  have hprogram : (run (Options.default Extended) (circleSession .undefined .negInfinity)).program =
      some (circleProgram .undefined .negInfinity) := by decide +kernel
  have hmem : .undefined ∈ (circleProgram .undefined .negInfinity).columns.below (finites [0]) := by
    decide +kernel
  obtain ⟨v, hv, _, hundefined, hretry, _⟩ :=
    run_violation_passes_iff (Options.default Extended) _ (x := [0]) hprogram rfl
  refine ⟨hundefined.mpr hmem ▸ hv, ?_⟩
  intro box r hr hsuccess
  by_contra hkept
  have hnone : ¬(circleProgram .undefined .negInfinity).Misses
      (Options.default Extended).feasibility (finites [0]) := by
    intro hmisses
    exact undefined_notMem hmisses.lower hmem
  have hmet := (hretry box r hr hsuccess).mpr hnone hkept
  exact undefined_notMem (List.forall_mem_singleton.mpr (List.forall₂_cons.mp
    hmet.columns.lower).1) (List.mem_singleton_self _)

def secondThought : Solver Extended := fun i c => .returned
  { success := i ≠ 0
    code := if i = 0 then 8 else 0
    note := .none
    point := some (List.replicate c.numVar 0)
    iterations := none
    lowerMarginals := none
    upperMarginals := none }

theorem run_misses_undefinedRow :
    ∃ p, (run (Options.default Extended) (circleSession .negInfinity .undefined)).program =
        some p ∧
      p.violation (some (finites [0])) = .ok 0 ∧
      ¬p.MetUpTo (Options.default Extended).feasibility (finites [0]) ∧
      (run (Options.default Extended) (circleSession .negInfinity .undefined ++
        [.optimize secondThought])).outcome.point = some (finites [0]) := by
  refine ⟨circleProgram .negInfinity .undefined, by decide +kernel, by decide +kernel, ?_,
    by decide +kernel⟩
  intro hmet
  have hrow := (List.forall₂_cons.mp hmet.rows.lower).1
  simp at hrow

end Model

end ConeLift
