import ConeLift.Proofs.Boxes
import ConeLift.Proofs.LiftedVerdicts
import ConeLift.Proofs.SmoothAttempts
import ConeLift.Proofs.SmoothCalls
import ConeLift.Proofs.Solving

/-!
Optima of conic problems with second-order cones are right if the smooth solver is, also when they
were found in the box: the points of the problem are convex, so a cheaper point outside the box
would give a cheaper one inside.
-/

namespace ConeLift

section

variable {n : Numbers ℚ} {constraintCones variableCones : List Cone} {o : Options Extended}
  {solver : Solver Extended} {limit : ℚ} {call : SmoothCall Extended} {r : Report Extended}
  {x : List Extended} (hn : n.Consistent)
  (hfit : ConesFit n.rightHand.length n.cost.length constraintCones variableCones)

include hfit

theorem lift_quadratics_rational :
    ∀ q ∈ (n.program constraintCones variableCones).quadratics,
      q.Rational (n.program constraintCones variableCones).cost.length := by
  have hcost : n.finite.cost.length = n.cost.length := length_finites n.cost
  have hcolumns : (n.program constraintCones variableCones).cost.length =
      n.cost.length + (Partition.ofCones constraintCones).numAux := by
    simp [Lifted.program, Lifted.toLinear, Numbers.lift, hcost]
  rw [hcolumns]
  simp only [Lifted.program, Numbers.lift, List.forall_mem_map, forall_secondOrderBlocks_iff,
    hcost]
  constructor
  · intro k hk _ hne
    apply rational_ofColumns hne
    intro j hj
    exact Nat.lt_add_right _ (hfit.columns k hk j hj)
  · intro block hblock
    obtain ⟨hne, hbounds⟩ :=
      bounds_of_mem_auxiliaryBlocks n.cost.length constraintCones block hblock
    exact rational_ofColumns hne fun j hj => (hbounds j hj).2

include hn

theorem exists_smoothCall (o : Options Extended) {bounds : Bounds Extended}
    (hbounds : bounds.lower.length = (n.program constraintCones variableCones).cost.length)
    (hwithin : ∀ z, bounds.Hold (finites z) →
      (n.program constraintCones variableCones).columns.Hold (finites z)) :
    ∃ call, (n.program constraintCones variableCones).smoothCall o bounds = .ok call ∧
      call.cost = (n.program constraintCones variableCones).signedCost ∧
        call.Feasible = fun z => bounds.Hold (finites z) ∧
          (n.program constraintCones variableCones).Satisfied z := by
  obtain ⟨A, hA⟩ := lift_matrix_finite n constraintCones variableCones
  obtain ⟨call, hcall, hcost, hfeasible⟩ := Program.smoothCall_exact o
    (lift_program_shaped hn constraintCones variableCones) hA
    (fun i _ => lift_rows_regular n constraintCones variableCones i)
    (lift_quadratics_rational hfit) hbounds
  refine ⟨call, hcall, hcost, ?_⟩
  funext z
  rw [eq_iff_iff, hfeasible, program_satisfied_iff hn]
  constructor
  · rintro ⟨hhold, hrows, hquadratics⟩
    exact ⟨hhold, hwithin z hhold, hrows, hquadratics⟩
  · rintro ⟨hhold, hsatisfied⟩
    exact ⟨hhold, hsatisfied.rows, hsatisfied.quadratics⟩

theorem exists_boxedCall (o : Options Extended) (limit : ℚ) {N : ℕ} {b : ℕ → Extended × Extended}
    (hcolumns : (n.program constraintCones variableCones).columns = .tabulate N b)
    (hb : ∀ j < N, Regular (b j)) :
    ∃ call, (n.program constraintCones variableCones).smoothCall o
        (.tabulate N fun j => boxPair limit (b j)) = .ok call ∧
      call.cost = (n.program constraintCones variableCones).signedCost ∧
        call.Feasible = fun z => (Bounds.tabulate N fun j => boxPair limit (b j)).Hold (finites z) ∧
          (n.program constraintCones variableCones).Satisfied z := by
  apply exists_smoothCall hn hfit o
  · rw [← (lift_program_shaped hn _ _).lower, hcolumns, Bounds.length_lower_tabulate,
      Bounds.length_lower_tabulate]
  · intro z hz
    rw [hcolumns]
    exact hold_of_hold_box hb hz

theorem minimizer_of_first_call
    (hcall : (n.program constraintCones variableCones).smoothCall o
      (n.program constraintCones variableCones).columns = .ok call)
    (hright : call.Right r) (hsuccess : r.success = true) (hx : r.point = some x) :
    ∃ z, x = finites z ∧
      Minimizer (n.program constraintCones variableCones).Satisfied
        (n.program constraintCones variableCones).signedCost z := by
  obtain ⟨call', hcall', hcost, hfeasible⟩ :=
    exists_smoothCall hn hfit o (lift_program_shaped hn _ _).lower fun z hz => hz
  obtain rfl : call = call' := Except.ok.inj (hcall.symm.trans hcall')
  obtain ⟨z, hz, hmin⟩ := hright.optimal hsuccess
  refine ⟨z, Option.some.inj (hx.symm.trans hz), ?_⟩
  rw [hcost, hfeasible] at hmin
  exact ⟨hmin.feasible.2, fun w hw => hmin.least w ⟨hw.columns, hw⟩⟩

theorem minimizer_of_takesOver (hseparate : Separate variableCones)
    (hboxLimit : o.boxLimit = .finite limit) (hlimit : 0 < limit)
    (htakes : (n.program constraintCones variableCones).TakesOver o solver call r)
    (hright : call.Right r) (hx : r.point = some x) :
    ∃ z, x = finites z ∧
      Minimizer (n.program constraintCones variableCones).Satisfied
        (n.program constraintCones variableCones).signedCost z := by
  let b := columnBounds (α := Extended) variableCones constraintCones n.finite.cost.length
  have hb (j : ℕ) : Regular (b j) := regular_columnBounds variableCones constraintCones _ j
  obtain ⟨N, hcolumns⟩ : ∃ N, (n.program constraintCones variableCones).columns =
      .tabulate N b := ⟨_, rfl⟩
  have hcost : (n.program constraintCones variableCones).signedCost = finites _ :=
    (signedCost_program _).trans (cost_lift n constraintCones variableCones)
  obtain ⟨box, hbox, hcall, hpresses⟩ := htakes.made
  obtain rfl : Bounds.tabulate N (fun j => boxPair limit (b j)) = box := by
    rw [hcolumns, hboxLimit, Bounds.box_tabulate] at hbox
    exact Except.ok.inj hbox
  obtain ⟨call', hcall', hcallCost, hfeasible⟩ :=
    exists_boxedCall hn hfit o limit hcolumns fun j _ => hb j
  obtain rfl : call = call' := Except.ok.inj (hcall.symm.trans hcall')
  obtain ⟨z, hz, hmin⟩ := hright.optimal htakes.success
  refine ⟨z, Option.some.inj (hx.symm.trans hz), ?_⟩
  rw [hcallCost, hfeasible, hcost] at hmin
  rw [hboxLimit, hz] at hpresses
  rw [hcost]
  apply Program.minimizer_of_box hcolumns (fun j _ => hb j) hlimit ?_ hmin hpresses
  intro s w hs hs' hz hw
  rw [program_satisfied_iff hn] at hz hw ⊢
  exact satisfied_mix hn hfit hseparate hs hs' hz hw

theorem minimizer_of_solveSmooth (hseparate : Separate variableCones)
    (hboxLimit : o.boxLimit = .finite limit) (hlimit : 0 < limit)
    (hright : RightOn solver ((n.program constraintCones variableCones).solveSmooth o solver).calls)
    (hx : ((n.program constraintCones variableCones).solveSmooth o solver).outcome.point =
      some x) :
    ∃ z, x = finites z ∧
      Minimizer (n.program constraintCones variableCones).Satisfied
        (n.program constraintCones variableCones).signedCost z := by
  obtain ⟨call, hcall, hattempt⟩ := Program.calls_of_solveSmooth hx
  rcases hattempt with ⟨r, hr, hsuccess, hpoint, hcalls⟩ | ⟨boxed, r, htakes, hpoint, hcalls⟩
  · rw [hcalls] at hright
    exact minimizer_of_first_call hn hfit hcall (hright 0 (.smooth call) r rfl hr) hsuccess hpoint
  · rw [hcalls] at hright
    exact minimizer_of_takesOver hn hfit hseparate hboxLimit hlimit htakes
      (hright 1 (.smooth boxed) r rfl htakes.answer) hpoint

end

/-- The point of a problem with a second-order cone that is called optimal is feasible and no
feasible point costs less, if the smooth solver is right. -/
theorem conic_solution_sound {P : Problem ℚ} (o : Options Extended) (solver : Solver Extended)
    {limit : ℚ} (hboxLimit : o.boxLimit = .finite limit) (hlimit : 0 < limit)
    (hvalid : P.finite.Valid)
    (hfit : ConesFit P.rightHand.length P.cost.length P.constraintCones P.variableCones)
    (hseparate : Separate P.variableCones)
    (hsecond : ∃ k ∈ P.constraintCones ++ P.variableCones,
      k.isSecondOrder = true ∧ k.indices ≠ [])
    (hright : RightOn solver (P.finite.solve o solver).2) {s : Solution Extended}
    (hs : (P.finite.solve o solver).1 = .ok (.found s)) (hoptimal : s.status = .optimal) :
    ∃ x, s.point = some (finites x) ∧ P.Feasible x ∧
      ∀ y, P.Feasible y → dot P.cost x ≤ dot P.cost y := by
  obtain ⟨n, hn, hcalls, hfound⟩ := Problem.solve_found o solver hvalid hfit
  obtain ⟨_, hmodel⟩ := hfound s hs
  have hquadratics : (n.program P.constraintCones P.variableCones).quadratics.isEmpty = false := by
    obtain ⟨k, hk, hks, hne⟩ := hsecond
    have hblocks : secondOrderBlocks P.variableCones P.constraintCones n.finite.cost.length ≠
        [] := by
      intro hempty
      exact hne ((secondOrderBlocks_eq_nil_iff _ _ _).mp hempty k hk hks)
    simpa [Lifted.program, Numbers.lift] using hblocks
  simp only [Program.solve, hquadratics, Bool.false_eq_true, if_false] at hcalls hmodel
  rw [hcalls] at hright
  obtain ⟨_, hvalues⟩ := Solution.of_ofModel hmodel
  obtain ⟨x, hx, hpoint, _⟩ := hvalues hoptimal
  obtain ⟨z, rfl, hmin⟩ := minimizer_of_solveSmooth hn.consistent (Problem.fit_of_reads hn hfit)
    hseparate hboxLimit hlimit hright hx
  obtain ⟨hfeasible, hleast⟩ := Problem.optimal_of_minimizer hn hfit hseparate hmin
  exact ⟨_, by rw [hpoint, Problem.take_numOrig hn], hfeasible, hleast⟩

def leastLead : Problem ℚ where
  name := "least-lead"
  cost := [1, 0]
  matrix := ⟨1, 2, [0], [1], [1]⟩
  rightHand := [3]
  constraintCones := [⟨.nonneg, [0]⟩]
  variableCones := [⟨.secondOrder, [0, 1]⟩]

def answerInBox : Solver Extended := fun i _ => .returned
  { success := i = 1
    code := if i = 1 then 0 else 9
    note := .text "done"
    point := some [.finite 0, .finite 0]
    iterations := some 1
    lowerMarginals := none
    upperMarginals := none }

def leastLeadCall (columns : Bounds Extended) : SmoothCall Extended where
  start := [.finite 1, .finite 1]
  columns := columns
  cost := [.finite 1, .finite 0]
  rows :=
    { matrix := [[.finite 0, .finite 1]]
      bound := [.finite 3]
      equations := []
      values := [] }
  quadratics := [.ofColumns [0, 1]]
  maxIters := 10000
  tolerance := Scalar.decimal 1 9

theorem calls_leastLead :
    (leastLead.finite.solve (Options.default Extended) answerInBox).2 =
      [.smooth (leastLeadCall
          ⟨[.finite 0, .negInfinity], [.infinity, .infinity]⟩),
        .smooth (leastLeadCall
          ⟨[.finite 0, .finite (-10000)], [.finite 10000, .finite 10000]⟩)] := by
  decide +kernel

theorem right_leastLead :
    RightOn answerInBox (leastLead.finite.solve (Options.default Extended) answerInBox).2 := by
  rw [calls_leastLead]
  intro i c r hc hr
  rcases i with _ | _ | i
  · cases hc
    cases hr
    exact ⟨fun h => by cases h⟩
  · cases hc
    cases hr
    refine ⟨fun _ => ⟨[0, 0], rfl, ⟨?_, ?_⟩, ?_⟩⟩
    · refine ⟨.cons ?_ (.cons ?_ .nil), .cons ?_ (.cons ?_ .nil)⟩ <;> decide +kernel
    · have hblocks : (leastLeadCall
          ⟨[.finite 0, .finite (-10000)], [.finite 10000, .finite 10000]⟩).blocks (finites [0, 0]) =
            .ok [⟨false, [.finite 3], [[.finite 0, .finite (-1)]]⟩,
              ⟨false, [.finite 0], [[.finite 0, .finite 0]]⟩] := by decide +kernel
      refine ⟨_, hblocks, ?_⟩
      simp [ConstraintBlock.Hold]
    · intro y hy
      have hlower := hy.columns.1
      obtain ⟨t, v, rfl⟩ : ∃ t v, y = [t, v] := by
        have hlength := hlower.length_eq
        rw [length_finites] at hlength
        exact List.length_eq_two.mp hlength.symm
      have hlead : 0 ≤ t := (Extended.le_finite_iff 0 t).mp (List.forall₂_cons.mp hlower).1
      have hdot (q w : ℚ) :
          Vec.dot [Extended.finite 1, .finite 0] (finites [q, w]) = .finite q := by
        have hq := dot_finites [1, 0] [q, w]
        simpa [finites, dot] using hq
      have hcost : (leastLeadCall ⟨[.finite 0, .finite (-10000)],
          [.finite 10000, .finite 10000]⟩).cost = [.finite 1, .finite 0] := rfl
      rw [hcost, hdot, hdot, Extended.le_finite_iff]
      exact hlead
  · simp at hc

theorem conic_solution_sound_in_box :
    ∃ s, (leastLead.finite.solve (Options.default Extended) answerInBox).1 = .ok (.found s) ∧
      s.status = .optimal ∧ s.point = some [.finite 0, .finite 0] ∧
        ∀ y, leastLead.Feasible y → 0 ≤ dot leastLead.cost y := by
  have hvalid : leastLead.finite.Valid := ⟨by decide, by decide⟩
  have hfit : ConesFit 1 2 leastLead.constraintCones leastLead.variableCones :=
    ⟨by decide, by decide, by decide⟩
  have hseparate : Separate leastLead.variableCones := by
    intro k hk k' hk' _ _ _
    rw [List.mem_singleton.mp hk, List.mem_singleton.mp hk']
  have hfound : (leastLead.finite.solve (Options.default Extended) answerInBox).1 =
      .ok (.found
        { status := .optimal
          objective := some (.finite 0)
          point := some [.finite 0, .finite 0]
          extended := some [.finite 0, .finite 0]
          reducedCosts := some [none, none]
          numVariables := 2
          numAuxiliary := 0
          numLinear := 1
          numQuadratic := 1
          message := .spelled (.text "done") }) := by decide +kernel
  have hboxLimit : (Options.default Extended).boxLimit = .finite 10000 := by decide +kernel
  obtain ⟨x, hx, _, hleast⟩ := conic_solution_sound (Options.default Extended) answerInBox hboxLimit
    (by norm_num) hvalid hfit hseparate (by decide) right_leastLead hfound rfl
  obtain rfl : [0, 0] = x := finites_injective (Option.some.inj hx)
  refine ⟨_, hfound, rfl, rfl, ?_⟩
  intro y hy
  have hle := hleast y hy
  have hvalue : dot leastLead.cost [0, 0] = 0 := by simp [dot, leastLead]
  rwa [hvalue] at hle

end ConeLift
