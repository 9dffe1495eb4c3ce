import ConeLift.Proofs.LiftedProgram
import ConeLift.Proofs.Reading
import ConeLift.Proofs.Segments

namespace ConeLift

section

variable {n : Numbers ℚ} {constraintCones variableCones : List Cone}

theorem satisfied_mix (hn : n.Consistent)
    (hfit : ConesFit n.rightHand.length n.cost.length constraintCones variableCones)
    (hseparate : Separate variableCones) {s : ℚ} (hs : 0 ≤ s) (hs' : s ≤ 1) {z w : List ℚ}
    (hz : (n.finite.lift constraintCones variableCones).Satisfied z)
    (hw : (n.finite.lift constraintCones variableCones).Satisfied w) :
    (n.finite.lift constraintCones variableCones).Satisfied (mix s z w) := by
  obtain ⟨x, hx, rfl⟩ := split_of_satisfied hn hfit hseparate hz
  obtain ⟨x', hx', rfl⟩ := split_of_satisfied hn hfit hseparate hw
  have hlength : x.length = x'.length := by rw [hx.length, hx'.length]
  -- The auxiliary columns of the mixture are the slack of the mixed point.
  rw [mix_append s _ _ hlength, ← Numbers.secondOrderSlack_mix n constraintCones s hlength]
  exact satisfied_of_feasible hn hfit (Numbers.feasible_mix hs hs' hx hx')

end

namespace Problem

variable {P : Problem ℚ} {n : Numbers ℚ} (hn : P.Reads n)
  (hfit : ConesFit P.rightHand.length P.cost.length P.constraintCones P.variableCones)

include hn

theorem take_numOrig (z : List ℚ) :
    (finites z).take (n.finite.lift P.constraintCones P.variableCones).numOrig =
      finites (z.take P.cost.length) := by
  have hnumOrig : (n.finite.lift P.constraintCones P.variableCones).numOrig = P.cost.length := by
    rw [← hn.cost]
    exact length_finites n.cost
  rw [hnumOrig]
  exact List.map_take.symm

include hfit

theorem fit_of_reads :
    ConesFit n.rightHand.length n.cost.length P.constraintCones P.variableCones := by
  rw [hn.rightHand, hn.cost]
  exact hfit

theorem exists_satisfied {x : List ℚ} (hx : P.Feasible x) :
    ∃ z, (n.program P.constraintCones P.variableCones).Satisfied z ∧
      Vec.dot (n.program P.constraintCones P.variableCones).signedCost (finites z) =
        .finite (dot P.cost x) := by
  have hfeasible := (feasible_iff hn x).mpr hx
  refine ⟨x ++ n.secondOrderSlack P.constraintCones x, ?_, ?_⟩
  · rw [program_satisfied_iff hn.consistent]
    exact satisfied_of_feasible hn.consistent (fit_of_reads hn hfit) hfeasible
  · rw [signedCost_program, dot_cost_lift hfeasible.length, hn.cost]

theorem feasible_of_program (hseparate : Separate P.variableCones) {z : List ℚ}
    (hz : (n.program P.constraintCones P.variableCones).Satisfied z) :
    P.Feasible (z.take P.cost.length) ∧
      Vec.dot (n.program P.constraintCones P.variableCones).signedCost (finites z) =
        .finite (dot P.cost (z.take P.cost.length)) := by
  rw [program_satisfied_iff hn.consistent] at hz
  obtain ⟨x, hx, rfl⟩ := split_of_satisfied hn.consistent (fit_of_reads hn hfit) hseparate hz
  have htake : (x ++ n.secondOrderSlack P.constraintCones x).take P.cost.length = x := by
    rw [← hn.cost, ← hx.length, List.take_left']
    rfl
  rw [htake, signedCost_program, dot_cost_lift hx.length, hn.cost]
  exact ⟨(feasible_iff hn x).mp hx, rfl⟩

theorem optimal_of_minimizer (hseparate : Separate P.variableCones) {z : List ℚ}
    (hz : Minimizer (n.program P.constraintCones P.variableCones).Satisfied
      (n.program P.constraintCones P.variableCones).signedCost z) :
    P.Feasible (z.take P.cost.length) ∧
      ∀ y, P.Feasible y → dot P.cost (z.take P.cost.length) ≤ dot P.cost y := by
  obtain ⟨hfeasible, hcost⟩ := feasible_of_program hn hfit hseparate hz.feasible
  refine ⟨hfeasible, ?_⟩
  intro y hy
  obtain ⟨w, hw, hcost'⟩ := exists_satisfied hn hfit hy
  have hle := hz.least w hw
  rw [hcost, hcost'] at hle
  exact (Extended.le_finite_iff _ _).mp hle

theorem infeasible_of_program
    (h : ∀ z, ¬(n.program P.constraintCones P.variableCones).Satisfied z) (x : List ℚ) :
    ¬P.Feasible x := by
  intro hx
  obtain ⟨z, hz, _⟩ := exists_satisfied hn hfit hx
  exact h z hz

theorem unbounded_of_program (hseparate : Separate P.variableCones)
    (h : Unbounded (n.program P.constraintCones P.variableCones).Satisfied
      (n.program P.constraintCones P.variableCones).signedCost) (B : ℚ) :
    ∃ x, P.Feasible x ∧ dot P.cost x < B := by
  obtain ⟨z, hz, hlt⟩ := h B
  obtain ⟨hfeasible, hcost⟩ := feasible_of_program hn hfit hseparate hz
  rw [hcost] at hlt
  exact ⟨_, hfeasible, (Extended.lt_finite_iff _ _).mp hlt⟩

end Problem

end ConeLift
