import ConeLift.Answer.Basic
import ConeLift.Proofs.Calls
import ConeLift.Proofs.LoadFailure
import ConeLift.Proofs.Lift.Exactness
import ConeLift.Proofs.Reading

namespace ConeLift

section

variable (o : Options Extended) (solver : Solver Extended)

theorem Backend.addQuadratics_of_ok (qs : List (QuadraticRow Extended)) (p : Program Extended)
    (calls : List (Call Extended))
    (h : ((Model.backend o solver).addQuadratics qs (⟨some p, .fresh⟩, calls)).1 = .ok ()) :
    (Model.backend o solver).addQuadratics qs (⟨some p, .fresh⟩, calls) =
      (.ok (), (⟨some { p with quadratics := p.quadratics ++ qs }, .fresh⟩, calls)) := by
  induction qs generalizing p with
  | nil => simp [addQuadratics]
  | cons q qs ih =>
    cases hadd : p.addQuadratic q.ready QuadraticRow.relation with
    | error e =>
      simp [addQuadratics, Model.backend, Model.addQuadratic, hadd, Model.change] at h
    | ok p' =>
      rw [Program.addQuadratic_ready] at hadd
      obtain ⟨_, hcheck, rfl⟩ := map_eq_ok_iff.mp hadd
      have hstep : (Model.backend o solver).addQuadratics (q :: qs) (⟨some p, .fresh⟩, calls) =
          (Model.backend o solver).addQuadratics qs
            (⟨some { p with quadratics := p.quadratics ++ [q] }, .fresh⟩, calls) := by
        simp only [addQuadratics, Model.backend, Model.addQuadratic, Program.addQuadratic_ready,
          hcheck, Except.map, Model.change]
      rw [hstep] at h ⊢
      rw [ih _ h, List.append_assoc]
      rfl

theorem Backend.loadLifted_of_ok {n : Numbers Extended} {constraintCones variableCones : List Cone}
    (hn : n.Liftable constraintCones variableCones) (s : Model Extended × List (Call Extended))
    (h : ((Model.backend o solver).loadLifted (n.lift constraintCones variableCones) s).1 =
      .ok ()) :
    (Model.backend o solver).loadLifted (n.lift constraintCones variableCones) s =
      (.ok (), (⟨some (n.lift constraintCones variableCones).program, .fresh⟩, s.2)) := by
  have hloaded : (Model.backend o solver).loadLifted (n.lift constraintCones variableCones) s =
      (Model.backend o solver).addQuadratics (n.lift constraintCones variableCones).quadratics
        (⟨some { (n.lift constraintCones variableCones).program with quadratics := [] },
          .fresh⟩, s.2) := by
    rw [loadLifted, load_lift o solver hn s]
  rw [hloaded] at h ⊢
  exact addQuadratics_of_ok o solver _ _ _ h

theorem Bridge.loadProblem_of_fit {P : Problem ℚ} (hvalid : P.finite.Valid)
    (hfit : ConesFit P.rightHand.length P.cost.length P.constraintCones P.variableCones) :
    ∃ n kept, P.Reads n ∧
      kept.lifted = n.finite.lift P.constraintCones P.variableCones ∧
        loadProblem (Model.backend o solver) ⟨none, (Model.empty, [])⟩ P.finite =
          (.ok (),
            ⟨some kept, (⟨some (n.program P.constraintCones P.variableCones), .fresh⟩, [])⟩) := by
  obtain ⟨d, n, hdata, hconstraint, hvariable, hread, hn⟩ := P.exists_read hvalid
  have hfit' : ConesFit n.rightHand.length n.cost.length d.constraintCones d.variableCones := by
    rw [hn.rightHand, hn.cost, hconstraint, hvariable]
    exact hfit
  have hbuild := build_of_fit hread hn.consistent hfit'
  obtain ⟨kept, hkept, hlifted⟩ := Kept.exists_of_build hbuild
  obtain ⟨_, n', hread', hliftable, _⟩ := (Lifted.build_eq_ok_iff d _).mp hbuild
  have hn' : n' = n.finite := by
    rw [hread] at hread'
    exact (Except.ok.inj hread').symm
  rw [hn'] at hliftable
  have hload := Backend.loadLifted_of_ok o solver hliftable (Model.empty, []) (by
    rw [Backend.loadLifted_eq_ok_iff o solver hliftable]
    intro k hk _ i hi
    have hlt := hfit'.columns k hk i hi
    have hcost : n.finite.cost.length = n.cost.length := length_finites n.cost
    simp only [Lifted.numVar, Numbers.lift, hcost]
    omega)
  rw [hconstraint, hvariable] at hlifted hload
  refine ⟨n, kept, hn, hlifted, ?_⟩
  rw [loadProblem, hdata]
  simp only [load, hkept, hlifted, hload]

theorem Problem.solve_found {P : Problem ℚ} (hvalid : P.finite.Valid)
    (hfit : ConesFit P.rightHand.length P.cost.length P.constraintCones P.variableCones) :
    ∃ n, P.Reads n ∧
      (P.finite.solve o solver).2 =
        ((n.program P.constraintCones P.variableCones).solve o solver).calls ∧
      ∀ s, (P.finite.solve o solver).1 = .ok (.found s) →
        ((n.program P.constraintCones P.variableCones).solve o solver).error = none ∧
        Solution.ofModel (n.finite.lift P.constraintCones P.variableCones)
          ⟨some (n.program P.constraintCones P.variableCones),
            ((n.program P.constraintCones P.variableCones).solve o solver).outcome⟩ =
          .ok s := by
  obtain ⟨n, kept, hn, hlifted, hload⟩ := Bridge.loadProblem_of_fit o solver hvalid hfit
  refine ⟨n, hn, ?_⟩
  rw [Problem.solve, hload]
  simp only [Model.backend, Model.optimize, List.nil_append]
  cases herror : ((n.program P.constraintCones P.variableCones).solve o solver).error with
  | none =>
    refine ⟨rfl, ?_⟩
    intro s hs
    simp only [Bridge.lifted, hlifted, Except.bind] at hs
    obtain ⟨s', hs', hfound⟩ := map_eq_ok_iff.mp hs
    cases hfound
    exact ⟨rfl, hs'⟩
  | some e =>
    refine ⟨rfl, ?_⟩
    intro s hs
    simp only at hs
    split at hs <;> cases hs

end

namespace Solution

theorem of_optimal {m : Model Extended} {v : List Extended × Extended × List Extended}
    (h : optimal m = .ok v) : m.outcome.point = some v.1 ∧ m.outcome.objective = some v.2.1 := by
  obtain ⟨x, hx, h⟩ := (bind_eq_ok_iff _ _ _).mp h
  obtain ⟨value, hvalue, h⟩ := (bind_eq_ok_iff _ _ _).mp h
  have hpoint : m.outcome.point = some x := by
    rw [Model.solution] at hx
    split at hx
    · rename_i y hy
      cases hx
      exact hy
    · cases hx
  have hobjective : m.outcome.objective = value := by
    simp only [Model.objective, hpoint] at hvalue
    exact Except.ok.inj hvalue
  cases value with
  | none => cases h
  | some value =>
    obtain ⟨costs, _, h⟩ := (bind_eq_ok_iff _ _ _).mp h
    cases h
    exact ⟨hpoint, hobjective⟩

theorem of_ofModel {p : Lifted Extended} {m : Model Extended} {s : Solution Extended}
    (h : ofModel p m = .ok s) :
    s.status = m.outcome.status ∧
      (s.status = .optimal → ∃ x, m.outcome.point = some x ∧ s.point = some (x.take p.numOrig) ∧
        s.objective = m.outcome.objective) := by
  rw [ofModel] at h
  by_cases hoptimal : m.status = .optimal
  · rw [if_pos hoptimal] at h
    obtain ⟨values, hvalues, h⟩ := (bind_eq_ok_iff _ _ _).mp h
    obtain ⟨v, hv, rfl⟩ := map_eq_ok_iff.mp hvalues
    obtain ⟨hpoint, hobjective⟩ := of_optimal hv
    by_cases htext : (!isText m.outcome.message) = true
    · simp only [htext, if_true] at h
      cases h
    · simp only [htext] at h
      cases h
      exact ⟨rfl, fun _ => ⟨v.1, hpoint, rfl, hobjective.symm⟩⟩
  · rw [if_neg hoptimal] at h
    by_cases htext : (!isText m.outcome.message) = true
    · simp only [htext, if_true, bind, Except.bind] at h
      cases h
    · simp only [htext, bind, Except.bind] at h
      cases h
      exact ⟨rfl, fun hs => absurd hs hoptimal⟩

end Solution

end ConeLift
