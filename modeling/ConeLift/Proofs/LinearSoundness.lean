import ConeLift.Proofs.LiftedVerdicts
import ConeLift.Proofs.LinearCalls
import ConeLift.Proofs.Solving

namespace ConeLift

theorem Status.code_of_infeasible {code : ℤ} (h : ofLinearCode code = infeasible) : code = 2 := by
  rw [ofLinearCode] at h
  split_ifs at h with h0 h1 h2 h3
  exact h2

theorem Status.code_of_unbounded {code : ℤ} (h : ofLinearCode code = unbounded) : code = 3 := by
  rw [ofLinearCode] at h
  split_ifs at h with h0 h1 h2 h3
  exact h3

namespace Program

theorem accept_eq_none {p : Program Extended} {r : Report Extended} {base : Outcome Extended}
    {reduced : Except Error (List Extended)} (h : (p.accept r base reduced).2 = none) :
    (p.accept r base reduced).1.status = .optimal ∧
      (p.accept r base reduced).1.point = r.point ∧
        ∃ v, p.objective r.point = .ok v ∧ (p.accept r base reduced).1.objective = some v := by
  cases hvalue : p.objective r.point with
  | error e => simp [accept, hvalue] at h
  | ok v =>
    cases hreduced : reduced with
    | error e => simp [accept, hvalue, hreduced] at h
    | ok costs => simp [accept, hvalue]

theorem solveLinear_of_call {p : Program Extended} {o : Options Extended}
    {call : LinearCall Extended} (solver : Solver Extended) (hcall : p.linearCall o = .ok call) :
    (p.solveLinear o solver).calls = [.linear call] ∧
      ((p.solveLinear o solver).error = none → ∃ r, solver 0 (.linear call) = .returned r ∧
        ((r.success = true ∧ (p.solveLinear o solver).outcome.status = .optimal ∧
            (p.solveLinear o solver).outcome.point = r.point ∧
              ∃ v, p.objective r.point = .ok v ∧
                (p.solveLinear o solver).outcome.objective = some v) ∨
          (r.success = false ∧
            (p.solveLinear o solver).outcome.status = Status.ofLinearCode r.code ∧
              (p.solveLinear o solver).outcome.point = none))) := by
  rw [solveLinear, hcall]
  cases hr : solver 0 (.linear call) with
  | raised e => simp [hr]
  | returned r =>
    cases hsuccess : r.success with
    | false => simp [hr, hsuccess, Outcome.fresh]
    | true =>
      simp only [hr, hsuccess, if_true]
      refine ⟨trivial, ?_⟩
      intro herror
      exact ⟨r, rfl, Or.inl ⟨hsuccess, accept_eq_none herror⟩⟩

theorem solveLinear_sound {p : Program Extended} {o : Options Extended}
    {solver : Solver Extended} {call : LinearCall Extended} (hcall : p.linearCall o = .ok call)
    (hcost : call.cost = p.signedCost) (hfeasible : call.Feasible = p.Satisfied)
    (hright : RightOn solver (p.solveLinear o solver).calls)
    (herror : (p.solveLinear o solver).error = none) :
    (∀ x, (p.solveLinear o solver).outcome.point = some x →
        ∃ z, x = finites z ∧ Minimizer p.Satisfied p.signedCost z ∧
          (p.solveLinear o solver).outcome.objective = some (Vec.dot p.cost x)) ∧
      ((p.solveLinear o solver).outcome.status = .infeasible → ∀ z, ¬p.Satisfied z) ∧
        ((p.solveLinear o solver).outcome.status = .unbounded →
          Unbounded p.Satisfied p.signedCost) := by
  obtain ⟨hmade, hreport⟩ := solveLinear_of_call solver hcall
  obtain ⟨r, hr, hreport⟩ := hreport herror
  rw [hmade] at hright
  obtain ⟨hoptimal, hinfeasible, hunbounded⟩ : call.Right r := hright 0 (.linear call) r rfl hr
  rw [hcost, hfeasible] at hoptimal hunbounded
  rw [hfeasible] at hinfeasible
  rcases hreport with ⟨hsuccess, hstatus, hpoint, v, hv, hobjective⟩ | ⟨hsuccess, hstatus, hnone⟩
  · rw [hstatus]
    refine ⟨?_, by simp, by simp⟩
    intro x hx
    obtain ⟨z, hz, hmin⟩ := hoptimal hsuccess
    rw [hpoint] at hx
    refine ⟨z, Option.some.inj (hx.symm.trans hz), hmin, ?_⟩
    rw [hx, objective] at hv
    rw [hobjective]
    split at hv
    · exact congrArg some (Except.ok.inj hv).symm
    · cases hv
  · rw [hstatus, hnone]
    refine ⟨by simp, ?_, ?_⟩
    · exact fun h => hinfeasible hsuccess (Status.code_of_infeasible h)
    · exact fun h => hunbounded hsuccess (Status.code_of_unbounded h)

end Program

section

variable {n : Numbers ℚ} {constraintCones variableCones : List Cone}

theorem quadratics_of_linear
    (hlinear : ∀ k ∈ constraintCones ++ variableCones, k.isSecondOrder = true → k.indices = []) :
    (n.program constraintCones variableCones).quadratics = [] := by
  have hblocks := (secondOrderBlocks_eq_nil_iff variableCones constraintCones
    n.finite.cost.length).mpr hlinear
  simp only [Lifted.program, Numbers.lift, hblocks, List.map_nil]

theorem exists_linearCall (o : Options Extended) (hn : n.Consistent)
    (hlinear : ∀ k ∈ constraintCones ++ variableCones, k.isSecondOrder = true → k.indices = []) :
    ∃ call, (n.program constraintCones variableCones).linearCall o = .ok call ∧
      call.cost = (n.program constraintCones variableCones).signedCost ∧
        call.Feasible = (n.program constraintCones variableCones).Satisfied := by
  obtain ⟨A, hA⟩ := lift_matrix_finite n constraintCones variableCones
  obtain ⟨call, hcall, hcost, hfeasible⟩ := Program.linearCall_exact _ o
    (lift_program_shaped hn constraintCones variableCones) hA
    (fun i _ => lift_rows_regular n constraintCones variableCones i)
    (quadratics_of_linear hlinear)
  exact ⟨call, hcall, hcost, funext fun x => propext (hfeasible x)⟩

end

/-- The verdict on a problem without second-order cones is right if the answer of the linear
solver is. -/
theorem linear_solution_sound {P : Problem ℚ} (o : Options Extended) (solver : Solver Extended)
    (hvalid : P.finite.Valid)
    (hfit : ConesFit P.rightHand.length P.cost.length P.constraintCones P.variableCones)
    (hseparate : Separate P.variableCones)
    (hlinear : ∀ k ∈ P.constraintCones ++ P.variableCones,
      k.isSecondOrder = true → k.indices = [])
    (hright : RightOn solver (P.finite.solve o solver).2) {s : Solution Extended}
    (hs : (P.finite.solve o solver).1 = .ok (.found s)) :
    (s.status = .optimal → ∃ x, s.point = some (finites x) ∧ P.Feasible x ∧
        (∀ y, P.Feasible y → dot P.cost x ≤ dot P.cost y) ∧
          s.objective = some (.finite (dot P.cost x))) ∧
      (s.status = .infeasible → ∀ x, ¬P.Feasible x) ∧
        (s.status = .unbounded → ∀ B : ℚ, ∃ x, P.Feasible x ∧ dot P.cost x < B) := by
  obtain ⟨n, hn, hcalls, hfound⟩ := Problem.solve_found o solver hvalid hfit
  obtain ⟨herror, hmodel⟩ := hfound s hs
  obtain ⟨call, hcall, hcost, hfeasible⟩ := exists_linearCall o hn.consistent hlinear
  simp only [Program.solve, quadratics_of_linear hlinear, List.isEmpty_nil, if_true]
    at hcalls herror hmodel
  rw [hcalls] at hright
  obtain ⟨hpoint, hinfeasible, hunbounded⟩ :=
    Program.solveLinear_sound hcall hcost hfeasible hright herror
  obtain ⟨hstatus, hvalues⟩ := Solution.of_ofModel hmodel
  refine ⟨?_, ?_, ?_⟩
  · intro hoptimal
    obtain ⟨x, hx, hsx, hsv⟩ := hvalues hoptimal
    obtain ⟨z, rfl, hmin, hobjective⟩ := hpoint x hx
    obtain ⟨hz, hleast⟩ := Problem.optimal_of_minimizer hn hfit hseparate hmin
    obtain ⟨_, hvalue⟩ := Problem.feasible_of_program hn hfit hseparate hmin.feasible
    rw [signedCost_program] at hvalue
    refine ⟨_, by rw [hsx, Problem.take_numOrig hn], hz, hleast, ?_⟩
    rw [hsv, hobjective, ← hvalue]
    rfl
  · intro hs
    rw [hs] at hstatus
    exact Problem.infeasible_of_program hn hfit (hinfeasible hstatus.symm)
  · intro hs
    rw [hs] at hstatus
    exact Problem.unbounded_of_program hn hfit hseparate (hunbounded hstatus.symm)

def leastAboveOne : Problem ℚ where
  name := "least-above-one"
  cost := [1]
  matrix := ⟨1, 1, [0], [0], [1]⟩
  rightHand := [1]
  constraintCones := [⟨.nonpos, [0]⟩]
  variableCones := [⟨.nonneg, [0]⟩]

def answerOne : Solver Extended := fun _ _ => .returned
  { success := true
    code := 0
    note := .text "optimal"
    point := some [.finite 1]
    iterations := some 1
    lowerMarginals := none
    upperMarginals := none }

theorem calls_leastAboveOne :
    (leastAboveOne.finite.solve (Options.default Extended) answerOne).2 =
      [.linear
        { cost := [.finite 1]
          matrix := some ⟨1, [[(0, .finite (-1))]]⟩
          bound := some [.finite (-1)]
          equations := none
          values := none
          bounds := [(some (.finite 0), none)]
          whole := none
          maxIters := 10000 }] := by
  decide +kernel

theorem right_leastAboveOne :
    RightOn answerOne (leastAboveOne.finite.solve (Options.default Extended) answerOne).2 := by
  rw [calls_leastAboveOne]
  intro i c r hc hr
  cases i with
  | succ i => simp at hc
  | zero =>
    cases hc
    cases hr
    have hrow (v : ℚ) : RowMatrix.mulVec (α := Extended) ⟨1, [[(0, .finite (-1))]]⟩ (finites [v]) =
        [.finite (-v)] := by
      have happly := mulVec_finite ⟨1, [[(0, -1)]]⟩ [v]
      simp only [RowMatrix.finite, RowMatrix.apply, finiteRow, finites, List.map_cons, List.map_nil,
        rowValue_cons, rowValue_nil] at happly ⊢
      simpa using happly
    refine LinearCall.Right.mk ?_ ?_ ?_
    · intro _
      refine ⟨[1], rfl, ⟨?_, ?_, ?_, ?_⟩, ?_⟩
      · rintro _ ⟨⟩ _ ⟨⟩
        rw [hrow]
        exact .cons ((Extended.le_finite_iff _ _).mpr le_rfl) .nil
      · rintro _ ⟨⟩
      · refine .cons ⟨?_, ?_⟩ .nil
        · rintro _ ⟨⟩
          exact (Extended.le_finite_iff _ _).mpr zero_le_one
        · rintro _ ⟨⟩
      · rintro _ ⟨⟩
      · intro y hy
        obtain ⟨v, rfl⟩ : ∃ v, y = [v] := List.length_eq_one_iff.mp hy.sides.length_eq.symm
        have hle := hy.inequalities _ rfl _ rfl
        rw [hrow, List.forall₂_cons, Extended.le_finite_iff, neg_le_neg_iff] at hle
        have hdot (q : ℚ) : Vec.dot [Extended.finite 1] (finites [q]) = .finite q := by
          have hq := dot_finites [1] [q]
          simpa [finites, dot] using hq
        rw [hdot, hdot, Extended.le_finite_iff]
        exact hle.1
    · intro h
      cases h
    · intro h
      cases h

theorem linear_solution_sound_above_one :
    ∃ s, (leastAboveOne.finite.solve (Options.default Extended) answerOne).1 = .ok (.found s) ∧
      s.status = .optimal ∧ s.point = some [.finite 1] ∧
        ∀ y, leastAboveOne.Feasible y → 1 ≤ dot leastAboveOne.cost y := by
  have hvalid : leastAboveOne.finite.Valid := ⟨by decide, by decide⟩
  have hfit : ConesFit 1 1 leastAboveOne.constraintCones leastAboveOne.variableCones :=
    ⟨by decide, by decide, by decide⟩
  have hseparate : Separate leastAboveOne.variableCones := by
    intro k hk k' hk' _ _ _
    rw [List.mem_singleton.mp hk, List.mem_singleton.mp hk']
  have hfound : (leastAboveOne.finite.solve (Options.default Extended) answerOne).1 =
      .ok (.found
        { status := .optimal
          objective := some (.finite 1)
          point := some [.finite 1]
          extended := some [.finite 1]
          reducedCosts := some [none]
          numVariables := 1
          numAuxiliary := 0
          numLinear := 1
          numQuadratic := 0
          message := .note (.text "optimal") }) := by decide +kernel
  obtain ⟨x, hx, _, hleast, _⟩ := (linear_solution_sound (Options.default Extended) answerOne hvalid
    hfit hseparate (by decide) right_leastAboveOne hfound).1 rfl
  have hone : finites [1] = finites x := Option.some.inj hx
  refine ⟨_, hfound, rfl, rfl, ?_⟩
  intro y hy
  have hle := hleast y hy
  rw [← finites_injective hone] at hle
  have hvalue : dot leastAboveOne.cost [1] = 1 := by simp [dot, leastAboveOne]
  rwa [hvalue] at hle

end ConeLift
