import ConeLift.Proofs.BoxReach
import ConeLift.Proofs.BridgeSession
import ConeLift.Proofs.ConicSoundness
import ConeLift.Proofs.InfeasibleVerdicts
import ConeLift.Proofs.LinearSoundness
import ConeLift.Proofs.Violation

/-!
When an attempt with quadratic rows ends with the verdict that the objective has no limit. The
verdict says that the best point of the box is far out; there need be none beyond it that is better.
-/

namespace ConeLift

theorem Status.ofSmoothCode_ne_unbounded (code : ℤ) : ofSmoothCode code ≠ unbounded := by
  rw [ofSmoothCode]
  split_ifs <;> exact Status.noConfusion

namespace Program

section

variable {α : Type} [Scalar α] {p : Program α} {o : Options α} {solver : Solver α}
  {first second r : Report α} {base : Outcome α} {calls : List (Call α)} {box : Bounds α}
  {call boxed : SmoothCall α}

theorem conclude_ne_unbounded : (p.conclude o r base).1.status ≠ .unbounded := by
  rw [conclude]
  split
  · rw [accept_status]
    exact Status.noConfusion
  · split
    · split
      · exact Status.noConfusion
      · split <;> exact Status.noConfusion
    · exact Status.ofSmoothCode_ne_unbounded r.code

theorem judgeRetry_eq_unbounded_iff :
    p.judgeRetry o box r = .unbounded ↔
      p.Meets o r.point ∧ p.pressesBox box o.boxLimit r.point = .ok true := by
  rw [judgeRetry, Meets]
  cases hviolation : p.violation r.point with
  | error e => simp
  | ok v =>
    by_cases hle : Scalar.le v o.feasibility = true
    · cases hpresses : p.pressesBox box o.boxLimit r.point with
      | error e => simp [hle]
      | ok presses =>
        cases presses with
        | true => simp [hle]
        | false => cases hsuccess : r.success <;> simp [hle]
    · simp [hle]

theorem Retried.unbounded_iff (h : p.Retried o solver box boxed second)
    (hbase : base.status ≠ .unbounded) :
    (p.solveBoxed o solver first base calls).outcome.status = .unbounded ↔
      p.Meets o second.point ∧ p.pressesBox box o.boxLimit second.point = .ok true := by
  rw [← judgeRetry_eq_unbounded_iff]
  simp only [solveBoxed, h.inBox, h.made, h.answer, bind, Except.bind, pure, Except.pure]
  cases p.judgeRetry o box second with
  | failed e => exact iff_of_false hbase fun h => by cases h
  | unbounded => exact iff_of_true rfl rfl
  | keep => exact iff_of_false conclude_ne_unbounded fun h => by cases h
  | replace => exact iff_of_false conclude_ne_unbounded fun h => by cases h

theorem retried_of_calls_solveBoxed
    (h : (p.solveBoxed o solver first base calls).calls = calls ++ [.smooth boxed])
    (hsecond : solver 1 (.smooth boxed) = .returned second) :
    ∃ box, p.Retried o solver box boxed second := by
  have hend := p.solveBoxed_end o solver first base calls
  generalize p.solveBoxed o solver first base calls = a at *
  have hsame {call : SmoothCall α} (hcalls : calls ++ [.smooth call] = calls ++ [.smooth boxed]) :
      call = boxed := by
    simpa using hcalls
  have hretried {box : Bounds α} {call : SmoothCall α} {r : Report α}
      (hretried : p.Retried o solver box call r)
      (hcalls : calls ++ [.smooth call] = calls ++ [.smooth boxed]) :
      ∃ box, p.Retried o solver box boxed second := by
    obtain rfl := hsame hcalls
    obtain rfl : r = second := Response.returned.inj (hretried.answer.symm.trans hsecond)
    exact ⟨box, hretried⟩
  cases hend with
  | unprepared e => simp at h
  | raised hraised =>
    obtain rfl := hsame h
    cases hraised.symm.trans hsecond
  | unjudged e hr => exact hretried hr h
  | pressed hr => exact hretried hr h
  | kept error hr => exact hretried hr h
  | replaced error hr => exact hretried hr h

theorem retried_of_calls (h : (p.solve o solver).calls = [.smooth call, .smooth boxed])
    (hfirst : solver 0 (.smooth call) = .returned first)
    (hsecond : solver 1 (.smooth boxed) = .returned second) :
    p.quadratics ≠ [] ∧ (∃ box, p.Retried o solver box boxed second) ∧
      p.solve o solver = p.solveBoxed o solver first first.begun [.smooth call] := by
  by_cases hquadratics : p.quadratics = []
  · rw [solve_of_linear hquadratics, solveLinear] at h
    split at h
    · cases h
    · split at h
      · cases h
      · simp only at h
        split at h <;> cases h
  rw [solve_of_quadratics hquadratics] at h ⊢
  have hend := p.solveSmooth_end o solver
  generalize p.solveSmooth o solver = a at *
  cases hend with
  | unprepared e => cases h
  | raised => cases h
  | @retried call' r made answer =>
    obtain ⟨more, hmore⟩ := p.calls_of_solveBoxed o solver r r.begun [.smooth call']
    have hcalls := hmore.symm.trans h
    obtain rfl : call' = call := by simpa using congrArg List.head? hcalls
    obtain rfl : r = first := Response.returned.inj (answer.symm.trans hfirst)
    exact ⟨hquadratics, retried_of_calls_solveBoxed h hsecond, rfl⟩
  | concluded => cases h

end

end Program

section

variable {n : Numbers ℚ} {constraintCones variableCones : List Cone} {o : Options Extended}
  {limit : ℚ} {z : List ℚ}

variable (hn : n.Consistent)
  (hfit : ConesFit n.rightHand.length n.cost.length constraintCones variableCones)

include hn hfit

theorem meets_of_satisfied (ho : Scalar.le 0 o.feasibility = true)
    (hz : (n.program constraintCones variableCones).Satisfied z) :
    (n.program constraintCones variableCones).Meets o (some (finites z)) := by
  have hshaped := lift_program_shaped hn constraintCones variableCones
  obtain ⟨A, hA⟩ := lift_matrix_finite n constraintCones variableCones
  obtain ⟨qs, hqs, hfits⟩ := lift_quadratics_finite hfit
  have hcolumns := Bounds.defined_of_regular hshaped.lower hshaped.upper
    (lift_columns_regular hn constraintCones variableCones)
  have hrows := Bounds.defined_of_regular hshaped.rowLower hshaped.rowUpper
    fun i _ => lift_rows_regular n constraintCones variableCones i
  have hlength := (hshaped.hold_iff.mp hz.columns).1
  obtain ⟨v, hv, _, hle⟩ :=
    Program.violation_spec hshaped hA hqs hfits hcolumns hrows hlength
  refine ⟨v, hv, Extended.le_trans ((hle 0 le_rfl).mpr ?_) ho⟩
  rw [Program.satisfiedUpTo_zero_iff]
  exact ⟨hz.columns, hz.rows, hz.quadratics⟩

theorem exists_call_in_box (o : Options Extended) (limit : ℚ) :
    ∃ call, (n.program constraintCones variableCones).smoothCall o
        ((n.program constraintCones variableCones).boxed limit) = .ok call ∧
      call.cost = (n.program constraintCones variableCones).signedCost ∧
        call.Feasible = fun z => (n.program constraintCones variableCones).Satisfied z ∧
          (n.program constraintCones variableCones).Near limit z := by
  have hshaped := lift_program_shaped hn constraintCones variableCones
  have hregular := lift_columns_regular hn constraintCones variableCones
  obtain ⟨call, hcall, hcost, hfeasible⟩ :=
    exists_boxedCall hn hfit o limit hshaped.columns_eq hregular
  refine ⟨call, hcall, hcost, ?_⟩
  rw [hfeasible]
  exact funext fun z => propext (hshaped.boxed_satisfied_iff hregular limit z)

theorem minimizer_of_boxOptimum (hseparate : Separate variableCones) (hlimit : 0 < limit)
    (hbest : (n.program constraintCones variableCones).BoxOptimum limit z)
    (hfree : ¬(n.program constraintCones variableCones).Presses limit z) :
    Minimizer (n.program constraintCones variableCones).Satisfied
      (n.program constraintCones variableCones).signedCost z := by
  have hshaped := lift_program_shaped hn constraintCones variableCones
  have hregular := lift_columns_regular hn constraintCones variableCones
  obtain ⟨presses, hpresses, hiff⟩ :=
    hshaped.exists_pressesBox hregular hbest.feasible.1.columns limit
  obtain rfl : presses = false := Bool.eq_false_iff.mpr fun h => hfree (hiff.mp h)
  have hcost : (n.program constraintCones variableCones).signedCost = finites _ :=
    (signedCost_program _).trans (cost_lift n constraintCones variableCones)
  have hbox := funext fun w => propext (hshaped.boxed_satisfied_iff hregular limit w)
  rw [Program.BoxOptimum, ← hbox, hcost] at hbest
  rw [hcost]
  apply Program.minimizer_of_box hshaped.columns_eq hregular hlimit ?_ hbest hpresses
  intro s w hs hs' hz hw
  rw [program_satisfied_iff hn] at hz hw ⊢
  exact satisfied_mix hn hfit hseparate hs hs' hz hw

theorem boxOptimum_iff (hseparate : Separate variableCones) :
    (n.program constraintCones variableCones).BoxOptimum limit z ↔
      ∃ x, z = x ++ n.secondOrderSlack constraintCones x ∧
        n.Feasible constraintCones variableCones x ∧
        (n.program constraintCones variableCones).Near limit z ∧
        ∀ w, n.Feasible constraintCones variableCones w →
          (n.program constraintCones variableCones).Near limit
            (w ++ n.secondOrderSlack constraintCones w) → dot n.cost x ≤ dot n.cost w := by
  have hcost {x w : List ℚ} (hx : n.Feasible constraintCones variableCones x)
      (hw : n.Feasible constraintCones variableCones w) :
      Scalar.le (Vec.dot (n.program constraintCones variableCones).signedCost
          (finites (x ++ n.secondOrderSlack constraintCones x)))
        (Vec.dot (n.program constraintCones variableCones).signedCost
          (finites (w ++ n.secondOrderSlack constraintCones w))) = true ↔
        dot n.cost x ≤ dot n.cost w := by
    rw [signedCost_program, dot_cost_lift hx.length, dot_cost_lift hw.length,
      Extended.le_finite_iff]
  constructor
  · rintro ⟨⟨hz, hnear⟩, hleast⟩
    rw [program_satisfied_iff hn] at hz
    obtain ⟨x, hx, rfl⟩ := split_of_satisfied hn hfit hseparate hz
    refine ⟨x, rfl, hx, hnear, ?_⟩
    intro w hw hwnear
    rw [← hcost hx hw]
    apply hleast
    exact ⟨(program_satisfied_iff hn _).mpr (satisfied_of_feasible hn hfit hw), hwnear⟩
  · rintro ⟨x, rfl, hx, hnear, hleast⟩
    refine ⟨⟨(program_satisfied_iff hn _).mpr (satisfied_of_feasible hn hfit hx), hnear⟩, ?_⟩
    rintro w ⟨hw, hwnear⟩
    rw [program_satisfied_iff hn] at hw
    obtain ⟨y, hy, rfl⟩ := split_of_satisfied hn hfit hseparate hw
    rw [hcost hx hy]
    exact hleast y hy hwnear

theorem not_unbounded_of_le (hseparate : Separate variableCones) {B : ℚ}
    (h : ∀ x, n.Feasible constraintCones variableCones x → B ≤ dot n.cost x) :
    ¬Unbounded (n.program constraintCones variableCones).Satisfied
      (n.program constraintCones variableCones).signedCost := by
  intro hunbounded
  obtain ⟨z, hz, hlt⟩ := hunbounded B
  rw [program_satisfied_iff hn] at hz
  obtain ⟨x, hx, rfl⟩ := split_of_satisfied hn hfit hseparate hz
  rw [signedCost_program, dot_cost_lift hx.length, Extended.lt_finite_iff] at hlt
  exact absurd hlt (not_lt.mpr (h x hx))

theorem exists_pressed_optimum (hseparate : Separate variableCones) (hlimit : 0 < limit)
    (hbest : (n.program constraintCones variableCones).BoxOptimum limit z)
    (hfar : ¬(n.program constraintCones variableCones).Near 0 z) :
    ∃ limit', 0 < limit' ∧ (n.program constraintCones variableCones).BoxOptimum limit' z ∧
      (n.program constraintCones variableCones).Presses limit' z := by
  by_cases hpress : (n.program constraintCones variableCones).Presses limit z
  · exact ⟨limit, hlimit, hbest, hpress⟩
  have hmin := minimizer_of_boxOptimum hn hfit hseparate hlimit hbest hpress
  obtain ⟨limit', hlimit', hnear, hpress'⟩ := Program.exists_presses hfar
  refine ⟨limit', hlimit', ⟨⟨hmin.feasible, hnear⟩, ?_⟩, hpress'⟩
  intro w hw
  exact hmin.least w hw.1

end

namespace Model

/-- The next attempt makes two runs: the first one gives up, and the second one, in the box, comes
to an optimum `z` of the box. -/
def EndsInBox (m : Model Extended) (o : Options Extended) (solver : Solver Extended)
    (z : List ℚ) : Prop :=
  ∃ call boxed first second, (m.optimize o solver).2.2 = [.smooth call, .smooth boxed] ∧
    solver 0 (.smooth call) = .returned first ∧ first.success = false ∧
    first.code ≠ Program.incompatible ∧ solver 1 (.smooth boxed) = .returned second ∧
    second.point = some (finites z) ∧ Minimizer boxed.Feasible boxed.cost z

def gaveUpThen (z : List ℚ) : Solver Extended := fun i _ => .returned
  { success := i ≠ 0
    code := if i = 0 then 8 else 0
    note := .text "done"
    point := some (finites z)
    iterations := none
    lowerMarginals := none
    upperMarginals := none }

section

variable {n : Numbers ℚ} {constraintCones variableCones : List Cone} {m : Model Extended}
  {o : Options Extended} {solver : Solver Extended} {limit : ℚ} {z : List ℚ}
  (hn : n.Consistent)
  (hfit : ConesFit n.rightHand.length n.cost.length constraintCones variableCones)
  (hm : m.program = some (n.program constraintCones variableCones))
  (hboxLimit : o.boxLimit = .finite limit)

include hn hfit hm hboxLimit

theorem EndsInBox.verdict (hends : m.EndsInBox o solver z) :
    (n.program constraintCones variableCones).quadratics ≠ [] ∧
      (n.program constraintCones variableCones).BoxOptimum limit z ∧
      ((m.optimize o solver).2.1.status = .unbounded ↔
        (n.program constraintCones variableCones).Meets o (some (finites z)) ∧
          (n.program constraintCones variableCones).Presses limit z) := by
  have hshaped := lift_program_shaped hn constraintCones variableCones
  have hregular := lift_columns_regular hn constraintCones variableCones
  obtain ⟨call, boxed, first, second, hcalls, hfirst, _, _, hsecond, hpoint, hmin⟩ := hends
  rw [optimize_of_some hm] at hcalls ⊢
  obtain ⟨hquadratics, ⟨box, hretried⟩, hsolve⟩ := Program.retried_of_calls hcalls hfirst hsecond
  obtain rfl : (n.program constraintCones variableCones).boxed limit = box := by
    have hbox := hretried.inBox
    rw [hboxLimit, hshaped.box_eq] at hbox
    exact Except.ok.inj hbox
  obtain ⟨boxed', hboxed, hcost, hfeasible⟩ := exists_call_in_box hn hfit o limit
  obtain rfl : boxed = boxed' := Except.ok.inj (hretried.made.symm.trans hboxed)
  rw [hcost, hfeasible] at hmin
  obtain ⟨presses, hpresses, hiff⟩ :=
    hshaped.exists_pressesBox hregular hmin.feasible.1.columns limit
  refine ⟨hquadratics, hmin, ?_⟩
  change (Program.solve _ o solver).outcome.status = .unbounded ↔ _
  rw [hsolve, hretried.unbounded_iff Status.noConfusion, hboxLimit, hpoint, hpresses, ← hiff,
    Except.ok.injEq]

theorem ends_unbounded (ho : Scalar.le 0 o.feasibility = true)
    (hquadratics : (n.program constraintCones variableCones).quadratics ≠ [])
    (hbest : (n.program constraintCones variableCones).BoxOptimum limit z)
    (hpresses : (n.program constraintCones variableCones).Presses limit z) :
    m.EndsInBox o (gaveUpThen z) z ∧
      (m.optimize o (gaveUpThen z)).2.1.status = .unbounded := by
  have hshaped := lift_program_shaped hn constraintCones variableCones
  obtain ⟨call, hcall, _⟩ := exists_smoothCall hn hfit o hshaped.lower fun z hz => hz
  obtain ⟨boxed, hboxed, hcost, hfeasible⟩ := exists_call_in_box hn hfit o limit
  have hcontinuous : ∀ t ∈ (n.program constraintCones variableCones).types, t = .continuous :=
    fun t ht => List.eq_of_mem_replicate ht
  have hretried : (n.program constraintCones variableCones).Retried o (gaveUpThen z)
      ((n.program constraintCones variableCones).boxed limit) boxed _ :=
    ⟨by rw [hboxLimit, hshaped.box_eq], hboxed, rfl⟩
  have hcode : (8 : ℤ) ≠ Program.incompatible := by decide
  have hends : m.EndsInBox o (gaveUpThen z) z := by
    refine ⟨call, boxed, _, _, ?_, rfl, rfl, hcode, rfl, rfl, ?_⟩
    · rw [optimize_of_some hm, Program.solve_of_quadratics hquadratics,
        Program.solveSmooth_of_gaveUp hcontinuous hcall rfl rfl hcode, hretried.calls_eq]
      rfl
    · rw [hcost, hfeasible]
      exact hbest
  refine ⟨hends, ?_⟩
  rw [(hends.verdict hn hfit hm hboxLimit).2.2]
  exact ⟨meets_of_satisfied hn hfit ho hbest.feasible.1, hpresses⟩

end

end Model

namespace Bridge

section

/-- However the two runs of an attempt come out, in whatever box, the verdict that the objective
has no limit is right. -/
def UnboundedRight (d : ConicData Extended) (p : Program Extended) : Prop :=
  ∀ (s : Bridge Extended (Model Extended × List (Call Extended))) (o : Options Extended)
    (solver : Solver Extended) (limit : ℚ) (z : List ℚ),
    0 < limit → o.boxLimit = .finite limit →
    (load (Model.backend o solver) s d).2.inner.1.EndsInBox o solver z →
    ((load (Model.backend o solver) s d).2.inner.1.optimize o solver).2.1.status = .unbounded →
    Unbounded p.Satisfied p.signedCost

variable {d : ConicData Extended} {n : Numbers ℚ}
  (hread : Lifted.readNumbers d = .ok n.finite) (hn : n.Consistent)
  (hfit : ConesFit n.rightHand.length n.cost.length d.constraintCones d.variableCones)

include hread hn hfit

theorem program_load_of_fit (o : Options Extended) (solver : Solver Extended)
    (s : Bridge Extended (Model Extended × List (Call Extended))) :
    (load (Model.backend o solver) s d).2.inner.1.program =
      some (n.program d.constraintCones d.variableCones) := by
  have hin : d.InRange := by
    intro c hc k hk i hi
    rw [Lifted.cost_of_readNumbers hread] at hc
    obtain rfl : finites n.cost = c := Except.ok.inj hc
    rw [length_finites]
    exact hfit.columns k hk i hi
  obtain ⟨kept, _, hload⟩ := load_of_built hin (build_of_fit hread hn hfit) o solver s
  rw [hload]

/-- The verdict that the objective has no limit is right for a problem exactly if it has no
second-order cone with an entry, or its objective has no limit, or the optima of all boxes are at
rest: each variable with an infinite side is at its finite bound, or at zero without one. -/
theorem unbounded_right_iff (hseparate : Separate d.variableCones) :
    UnboundedRight d (n.program d.constraintCones d.variableCones) ↔
      (∀ k ∈ d.constraintCones ++ d.variableCones, k.isSecondOrder = true → k.indices = []) ∨
        Unbounded (n.program d.constraintCones d.variableCones).Satisfied
          (n.program d.constraintCones d.variableCones).signedCost ∨
        ∀ limit z, 0 < limit →
          (n.program d.constraintCones d.variableCones).BoxOptimum limit z →
          (n.program d.constraintCones d.variableCones).Near 0 z := by
  constructor
  · intro hright
    by_contra hnone
    obtain ⟨hsecond, hnone⟩ := not_or.mp hnone
    obtain ⟨hbounded, hfar⟩ := not_or.mp hnone
    simp only [not_forall] at hfar
    obtain ⟨limit, z, hlimit, hbest, hfar⟩ := hfar
    have hquadratics : (n.program d.constraintCones d.variableCones).quadratics ≠ [] := by
      intro hempty
      apply hsecond
      rw [← secondOrderBlocks_eq_nil_iff _ _ n.finite.cost.length]
      exact List.map_eq_nil_iff.mp hempty
    -- In the box that the optimum presses against, a first run that gives up leads to the verdict.
    obtain ⟨limit', hlimit', hbest', hpresses⟩ :=
      exists_pressed_optimum hn hfit hseparate hlimit hbest hfar
    let o : Options Extended := { Options.default Extended with boxLimit := .finite limit' }
    have ho : Scalar.le 0 o.feasibility = true := by
      change Scalar.le 0 (Options.default Extended).feasibility = true
      decide +kernel
    obtain ⟨hends, hstatus⟩ := Model.ends_unbounded hn hfit
      (program_load_of_fit hread hn hfit o (Model.gaveUpThen z) ⟨none, Model.empty, []⟩) rfl ho
      hquadratics hbest' hpresses
    exact hbounded (hright _ o _ limit' z hlimit' rfl hends hstatus)
  · rintro h s o solver limit z hlimit hboxLimit hends hstatus
    obtain ⟨hquadratics, hbest, hverdict⟩ := hends.verdict hn hfit
      (program_load_of_fit hread hn hfit o solver s) hboxLimit
    obtain ⟨_, hpresses⟩ := hverdict.mp hstatus
    rcases h with hlinear | hunbounded | hrest
    · exact absurd (quadratics_of_linear hlinear) hquadratics
    · exact hunbounded
    · exact absurd hpresses ((hrest limit z hlimit hbest).not_presses hlimit)

end

def leastLeadData : ConicData Extended where
  cost := .ofList [.finite 1, .finite 0]
  matrix := .nested (.list [.ofList [.finite 0, .finite 1]])
  rightHand := .ofList [.finite 3]
  constraintCones := [⟨.nonneg, [0]⟩]
  variableCones := [⟨.secondOrder, [0, 1]⟩]

def leastLeadNumbers : Numbers ℚ where
  cost := [1, 0]
  matrix := ⟨2, [[(1, 1)]]⟩
  rightHand := [3]

theorem unbounded_right_iff_leastLead :
    UnboundedRight leastLeadData
      (leastLeadNumbers.program leastLeadData.constraintCones leastLeadData.variableCones) := by
  have hread : Lifted.readNumbers leastLeadData = .ok leastLeadNumbers.finite := by
    decide +kernel
  have hn : leastLeadNumbers.Consistent := ⟨by decide, by decide, by decide⟩
  have hfit : ConesFit 1 2 leastLeadData.constraintCones leastLeadData.variableCones :=
    ⟨by decide, by decide, by decide⟩
  have hseparate : Separate leastLeadData.variableCones := by
    intro k hk k' hk' _ _ _
    rw [List.mem_singleton.mp hk, List.mem_singleton.mp hk']
  have horigin : leastLeadNumbers.Feasible leastLeadData.constraintCones
      leastLeadData.variableCones [0, 0] := by
    refine ⟨rfl, ?_, ?_⟩
    · norm_num [leastLeadData, Cone.Contains, Cone.isSecondOrder, Kind.Allows, InSecondOrder,
        coord, Numbers.slack, leastLeadNumbers, RowMatrix.apply, rowValue]
    · norm_num [leastLeadData, Cone.Contains, Cone.isSecondOrder, InSecondOrder, coord]
  have hrest : (leastLeadNumbers.program leastLeadData.constraintCones
      leastLeadData.variableCones).Near 0 [0, 0] := by
    unfold Program.Near
    decide +kernel
  apply (unbounded_right_iff hread hn hfit hseparate).mpr
  right
  right
  intro limit z hlimit hbest
  obtain ⟨x, rfl, hx, _, hleast⟩ := (boxOptimum_iff hn hfit hseparate).mp hbest
  obtain ⟨t, v, rfl⟩ : ∃ t v, x = [t, v] := List.length_eq_two.mp hx.length
  have hcone : 0 ≤ t ∧ v ^ 2 ≤ t ^ 2 := by
    simpa [leastLeadData, Cone.Contains, Cone.isSecondOrder, InSecondOrder, coord] using hx.point
  have hlead : t ≤ 0 := by
    have hle := hleast [0, 0] horigin fun j hj => (hrest j hj).trans hlimit.le
    simpa [dot, leastLeadNumbers] using hle
  obtain rfl : t = 0 := le_antisymm hlead hcone.1
  obtain rfl : v = 0 := by
    simpa using hcone.2
  exact hrest

def strip : ConicData Extended where
  cost := .ofList [.finite 1]
  matrix := .nested (.list [.ofList [.finite (-1)]])
  rightHand := .ofList [.finite 9950]
  constraintCones := [⟨.secondOrder, [0]⟩]
  variableCones := []

def stripNumbers : Numbers ℚ where
  cost := [1]
  matrix := ⟨1, [[(0, -1)]]⟩
  rightHand := [9950]

theorem strip_consistent : stripNumbers.Consistent := ⟨by decide, by decide, by decide⟩

theorem strip_fit : ConesFit stripNumbers.rightHand.length stripNumbers.cost.length
    strip.constraintCones strip.variableCones :=
  ⟨by decide, by decide, by decide⟩

theorem strip_separate : Separate strip.variableCones := by
  intro k hk
  cases hk

theorem strip_feasible :
    stripNumbers.Feasible strip.constraintCones strip.variableCones [-9950] := by
  refine ⟨rfl, ?_, ?_⟩
  · norm_num [strip, Cone.Contains, Cone.isSecondOrder, InSecondOrder, coord, Numbers.slack,
      stripNumbers, RowMatrix.apply, rowValue]
  · intro k hk
    cases hk

theorem strip_least {x : List ℚ}
    (hx : stripNumbers.Feasible strip.constraintCones strip.variableCones x) :
    -9950 ≤ dot stripNumbers.cost x := by
  obtain ⟨v, rfl⟩ : ∃ v, x = [v] := List.length_eq_one_iff.mp hx.length
  have hslack : 0 ≤ 9950 + v ∧ 0 ≤ (9950 + v) ^ 2 := by
    simpa [Cone.Contains, Cone.isSecondOrder, InSecondOrder, coord, Numbers.slack, stripNumbers,
      RowMatrix.apply, rowValue] using hx.slack ⟨.secondOrder, [0]⟩ (List.mem_singleton.mpr rfl)
  have hvalue : dot stripNumbers.cost [v] = v := by simp [dot, stripNumbers]
  rw [hvalue]
  linarith [hslack.1]

theorem strip_boxOptimum :
    (stripNumbers.program strip.constraintCones strip.variableCones).BoxOptimum 10000
      [-9950, 0] := by
  have hvalue : dot stripNumbers.cost [-9950] = -9950 := by decide +kernel
  rw [boxOptimum_iff strip_consistent strip_fit strip_separate]
  refine ⟨[-9950], by decide +kernel, strip_feasible, ?_, ?_⟩
  · unfold Program.Near
    decide +kernel
  · intro w hw _
    rw [hvalue]
    exact strip_least hw

theorem unbounded_right_strip :
    Lifted.readNumbers strip = .ok stripNumbers.finite ∧ stripNumbers.Consistent ∧
      ConesFit stripNumbers.rightHand.length stripNumbers.cost.length strip.constraintCones
        strip.variableCones ∧
      Separate strip.variableCones ∧ (Options.default Extended).boxLimit = .finite 10000 ∧
      (load (Model.backend (Options.default Extended) (Model.gaveUpThen [-9950, 0]))
        ⟨none, Model.empty, []⟩ strip).2.inner.1.EndsInBox (Options.default Extended)
          (Model.gaveUpThen [-9950, 0]) [-9950, 0] ∧
      ((load (Model.backend (Options.default Extended) (Model.gaveUpThen [-9950, 0]))
        ⟨none, Model.empty, []⟩ strip).2.inner.1.optimize (Options.default Extended)
          (Model.gaveUpThen [-9950, 0])).2.1.status = .unbounded ∧
      ¬Unbounded (stripNumbers.program strip.constraintCones strip.variableCones).Satisfied
        (stripNumbers.program strip.constraintCones strip.variableCones).signedCost := by
  have hread : Lifted.readNumbers strip = .ok stripNumbers.finite := by decide +kernel
  have hboxLimit : (Options.default Extended).boxLimit = .finite 10000 := by decide +kernel
  have hpresses : (stripNumbers.program strip.constraintCones strip.variableCones).Presses 10000
      [-9950, 0] := by
    unfold Program.Presses
    decide +kernel
  have hloaded := program_load_of_fit hread strip_consistent strip_fit (Options.default Extended)
    (Model.gaveUpThen [-9950, 0]) ⟨none, Model.empty, []⟩
  obtain ⟨hends, hstatus⟩ := Model.ends_unbounded strip_consistent strip_fit hloaded hboxLimit
    (by decide +kernel) (by decide +kernel) strip_boxOptimum hpresses
  refine ⟨hread, strip_consistent, strip_fit, strip_separate, hboxLimit, hends, hstatus, ?_⟩
  exact not_unbounded_of_le strip_consistent strip_fit strip_separate fun x hx => strip_least hx

end Bridge

end ConeLift
