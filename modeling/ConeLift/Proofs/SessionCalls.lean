import ConeLift.Proofs.LinearSoundness
import ConeLift.Proofs.Session
import ConeLift.Proofs.SmoothAttempts
import ConeLift.Proofs.SmoothCalls
import ConeLift.Proofs.Violation

namespace ConeLift

def Sense.Prefers : Sense → ℚ → ℚ → Prop
  | minimize, v, w => v < w
  | maximize, v, w => w < v

theorem Program.lt_signedCost_iff {p : Program Extended} {c : List ℚ} (hc : p.cost = finites c)
    (x z : List ℚ) :
    Scalar.lt (Vec.dot p.signedCost (finites x)) (Vec.dot p.signedCost (finites z)) = true ↔
      p.sense.Prefers (dot c x) (dot c z) := by
  cases hsense : p.sense with
  | minimize =>
    have hsigned : p.signedCost = finites c := by
      rw [signedCost, hsense, hc]
      exact List.map_id _
    rw [hsigned, dot_finites, dot_finites, Extended.lt_finite_iff]
    rfl
  | maximize =>
    have hsigned : p.signedCost = finites (c.map fun v => -v) := by
      rw [← map_neg_finites, ← hc, signedCost, hsense]
      rfl
    rw [hsigned, dot_finites, dot_finites, dot_neg, dot_neg, Extended.lt_finite_iff,
      neg_lt_neg_iff]
    rfl

namespace Model

/-- After any session, an attempt to solve a program without quadratic rows is one call that asks
of a point what the program asks, and that ranks points as the program does. -/
theorem run_linear_call_exact (o : Options Extended) (ops : List (Operation Extended))
    (solver : Solver Extended) {p : Program Extended} {A : RowMatrix ℚ} {c : List ℚ}
    (hp : (run o ops).program = some p) (hquadratics : p.quadratics = [])
    (hA : p.matrix = A.finite) (hc : p.cost = finites c) (hrows : p.rows.Proper) :
    ∃ call, ((run o ops).optimize o solver).2.2 = [.linear call] ∧
      (∀ x, call.Feasible x ↔ p.Satisfied x) ∧
      ∀ x z, Scalar.lt (Vec.dot call.cost (finites x)) (Vec.dot call.cost (finites z)) = true ↔
        p.sense.Prefers (dot c x) (dot c z) := by
  obtain ⟨call, hcall, hcost, hfeasible⟩ := p.linearCall_exact o (run_sound o ops p hp).toShaped hA
    (fun i _ => hrows.regular i) hquadratics
  refine ⟨call, ?_, hfeasible, ?_⟩
  · rw [optimize_of_some hp, Program.solve_of_linear hquadratics]
    exact (Program.solveLinear_of_call solver hcall).1
  · intro x z
    rw [hcost]
    exact Program.lt_signedCost_iff hc x z

def mixedSession : List (Operation Extended) :=
  [.load
      { matrix := .compressed ⟨3, [[(0, .finite 1), (1, .finite 1)],
          [(1, .finite 1), (2, .finite 1)], [], [(2, .finite 1)]]⟩
        lower := .ofList [.negInfinity, .finite 0, .finite 0]
        upper := .ofList [.infinity, .infinity, .finite 5]
        cost := .ofList [.finite 1, .finite 2, .finite 0]
        rowLower := .ofList [.finite 3, .finite 1, .negInfinity, .finite (-1)]
        rowUpper := .ofList [.finite 3, .finite 4, .infinity, .infinity] } "max",
    .addQuadratic (QuadraticRow.ofColumns [0, 3]).ready "<=",
    .setTypes ["binary", "integer", "continuous"]]

def mixedMatrix : RowMatrix ℚ := ⟨3, [[(0, 1), (1, 1)], [(1, 1), (2, 1)], [], [(2, 1)]]⟩

def mixedProgram : Program Extended where
  matrix := mixedMatrix.finite
  columns := ⟨[.negInfinity, .finite 0, .finite 0], [.infinity, .infinity, .finite 5]⟩
  cost := finites [1, 2, 0]
  rows := ⟨[.finite 3, .finite 1, .negInfinity, .finite (-1)],
    [.finite 3, .finite 4, .infinity, .infinity]⟩
  sense := .maximize
  quadratics := []
  types := [.binary, .integer, .continuous]

theorem run_linear_call_exact_mixed :
    ∃ call, ((run (Options.default Extended) mixedSession).optimize (Options.default Extended)
        originSolver).2.2 = [.linear call] ∧
      call.Feasible [1, 2, 1] ∧ ¬call.Feasible [2, 1, 1] ∧
        Scalar.lt (Vec.dot call.cost (finites [0, 3, 1]))
          (Vec.dot call.cost (finites [1, 2, 1])) = true := by
  have hprogram : (run (Options.default Extended) mixedSession).program = some mixedProgram := by
    decide +kernel
  have hrows : mixedProgram.rows.Proper := ⟨⟨by decide, by decide⟩, by decide, by decide⟩
  obtain ⟨call, hcalls, hfeasible, hcost⟩ := run_linear_call_exact (Options.default Extended)
    mixedSession originSolver hprogram rfl rfl rfl hrows
  refine ⟨call, hcalls, ?_, ?_, ?_⟩
  · rw [hfeasible]
    constructor
    · exact ⟨by decide +kernel, by decide +kernel⟩
    · exact ⟨by decide +kernel, by decide +kernel⟩
    · simp [mixedProgram]
    · exact .cons (.inr rfl) (.cons ⟨2, rfl⟩ (.cons trivial .nil))
  · rw [hfeasible]
    intro h
    have hbinary : VarType.binary.Allows 2 := (List.forall₂_cons.mp h.types).1
    norm_num [VarType.Allows] at hbinary
  · rw [hcost]
    norm_num [Sense.Prefers, mixedProgram, dot]

/-- After any session, the largest violation at a point is the least `t` by which all bounds have to
be moved outwards, and it is zero at the points of the first call for a program with quadratic
rows. -/
theorem run_violation_exact (o : Options Extended) (ops : List (Operation Extended))
    {p : Program Extended} {A : RowMatrix ℚ} {qs : List (QuadraticRow ℚ)} {x : List ℚ}
    (hp : (run o ops).program = some p) (hA : p.matrix = A.finite)
    (hquadratics : p.quadratics = qs.map QuadraticRow.finite) (hcolumns : p.columns.Defined)
    (hrows : p.rows.Proper) (hx : x.length = p.cost.length) :
    ∃ v, (run o ops).violation (some (finites x)) = .ok v ∧ Scalar.le 0 v = true ∧
      (∀ t, 0 ≤ t → (Scalar.le v (.finite t) = true ↔ p.SatisfiedUpTo t x)) ∧
      (qs ≠ [] → (∀ t ∈ p.types, t = .continuous) → ∀ solver, ∃ call more,
        ((run o ops).optimize o solver).2.2 = .smooth call :: more ∧
          (v = 0 ↔ call.Feasible x)) := by
  have hsound := run_sound o ops p hp
  have hfits : ∀ q ∈ qs, q.Fits p.cost.length := by
    intro q hq
    rw [← QuadraticRow.fits_finite_iff]
    apply hsound.quadratics
    rw [hquadratics]
    exact List.mem_map_of_mem hq
  obtain ⟨v, hv, hnonneg, hle⟩ := Program.violation_spec hsound.toShaped hA hquadratics hfits
    hcolumns hrows.toDefined hx
  have hviolation : (run o ops).violation (some (finites x)) = .ok v := by
    rw [violation, hp]
    exact hv
  refine ⟨v, hviolation, hnonneg, hle, ?_⟩
  intro hne hcontinuous solver
  obtain ⟨call, hcall, _, hfeasible⟩ := Program.smoothCall_exact o hsound.toShaped hA
    (fun i _ => hrows.regular i) (by
      rw [hquadratics, List.forall_mem_map]
      exact fun q hq => QuadraticRow.rational_finite (hfits q hq)) hsound.lower
  obtain ⟨more, hmore⟩ := Program.solveSmooth_first_call solver hcontinuous hcall
  refine ⟨call, more, ?_, ?_⟩
  · rw [optimize_of_some hp, Program.solve_of_quadratics (by simpa [hquadratics] using hne)]
    exact hmore
  · have hzero : v = 0 ↔ Scalar.le v (.finite 0) = true := by
      constructor
      · rintro rfl
        exact Extended.le_refl (Extended.finite_ne_undefined 0)
      · intro h
        exact Extended.le_antisymm h hnonneg
    rw [hzero, hle 0 le_rfl, Program.satisfiedUpTo_zero_iff, hfeasible]

def coneProgram : Program Extended where
  matrix := RowMatrix.finite ⟨2, [[(0, 1), (1, 1)]]⟩
  columns := ⟨[.finite 0, .negInfinity], [.infinity, .infinity]⟩
  cost := finites [1, 0]
  rows := ⟨[.negInfinity], [.finite 3]⟩
  sense := .minimize
  quadratics := [QuadraticRow.finite (.coneRow [0, 1])]
  types := [.continuous, .continuous]

theorem run_violation_exact_cone :
    (run (Options.default Extended) coneSession).violation (some (finites [1, 2])) =
        .ok (.finite 3) ∧
      coneProgram.SatisfiedUpTo 3 [1, 2] ∧ ¬coneProgram.SatisfiedUpTo 2 [1, 2] ∧
      ∃ call more, ((run (Options.default Extended) coneSession).optimize
          (Options.default Extended) originSolver).2.2 = .smooth call :: more ∧
        ¬call.Feasible [1, 2] := by
  have hprogram : (run (Options.default Extended) coneSession).program = some coneProgram := by
    decide +kernel
  have hmeasured : (run (Options.default Extended) coneSession).violation
      (some (finites [1, 2])) = .ok (.finite 3) := by decide +kernel
  have hrows : coneProgram.rows.Proper := ⟨⟨by decide, by decide⟩, by decide, by decide⟩
  have hquadratics : coneProgram.quadratics = [.coneRow [0, 1]].map QuadraticRow.finite := rfl
  obtain ⟨v, hv, _, hle, hcall⟩ := run_violation_exact (Options.default Extended) coneSession
    (x := [1, 2]) hprogram rfl hquadratics ⟨by decide, by decide⟩ hrows rfl
  obtain rfl : Extended.finite 3 = v := Except.ok.inj (hmeasured.symm.trans hv)
  obtain ⟨call, more, hmore, hfeasible⟩ := hcall (by simp) (by simp [coneProgram]) originSolver
  refine ⟨hmeasured, ?_, ?_, call, more, hmore, ?_⟩
  · rw [← hle 3 (by norm_num)]
    decide +kernel
  · rw [← hle 2 (by norm_num)]
    decide +kernel
  · rw [← hfeasible]
    decide +kernel

end Model

end ConeLift
