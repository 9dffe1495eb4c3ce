import ConeLift.Proofs.Session

/-!
What operations that fail leave behind. A change of the program is made as a whole or not at all,
an attempt to solve never changes the program, and what can be read of a model always comes from
an attempt to solve the program it has now.
-/

namespace ConeLift

variable {α : Type}

def Solver.Answers (solver : Solver α) (calls : List (Call α)) : Prop :=
  ∀ i c, calls[i]? = some c → ∃ r, solver i c = .returned r

structure Attempt.Aborted (a : Attempt α) (e : Error) : Prop where
  error : a.error = some e
  status : a.outcome.status = .notSolved
  point : a.outcome.point = none

def Attempt.Heeds (a : Attempt α) (solver : Solver α) : Prop :=
  ∀ i c e, a.calls[i]? = some c → solver i c = .raised e → a.Aborted e

section Calls

variable {solver : Solver α} {calls : List (Call α)} {c : Call α} {a : Attempt α}

theorem Solver.answers_nil (solver : Solver α) : solver.Answers [] := nofun

theorem Solver.Answers.snoc {r : Report α} (h : solver.Answers calls)
    (hr : solver calls.length c = .returned r) : solver.Answers (calls ++ [c]) := by
  intro i d hd
  rcases getElem?_snoc hd with hd | ⟨rfl, rfl⟩
  · exact h i d hd
  · exact ⟨r, hr⟩

theorem Solver.Answers.heeds (h : solver.Answers a.calls) : a.Heeds solver := by
  intro i c e hc hraised
  obtain ⟨r, hr⟩ := h i c hc
  rw [hr] at hraised
  cases hraised

theorem Attempt.heeds_of_raised {e : Error} (h : solver.Answers calls)
    (hraised : solver calls.length c = .raised e) (hcalls : a.calls = calls ++ [c])
    (ha : a.Aborted e) : a.Heeds solver := by
  intro i d e' hd he
  rw [hcalls] at hd
  rcases getElem?_snoc hd with hd | ⟨rfl, rfl⟩
  · obtain ⟨r, hr⟩ := h i d hd
    rw [hr] at he
    cases he
  · rw [hraised] at he
    cases he
    exact ha

end Calls

namespace Program

variable [Scalar α] {p : Program α} {solver : Solver α}

theorem solveLinear_heeds (p : Program α) (o : Options α) (solver : Solver α) :
    (p.solveLinear o solver).Heeds solver := by
  rw [solveLinear]
  split
  · exact solver.answers_nil.heeds
  · rename_i call _
    split
    · rename_i e hraised
      exact Attempt.heeds_of_raised solver.answers_nil hraised rfl ⟨rfl, rfl, rfl⟩
    · rename_i r hr
      have hanswers : solver.Answers [.linear call] := solver.answers_nil.snoc hr
      split
      · exact hanswers.heeds
      · exact hanswers.heeds

theorem solveBoxed_heeds (o : Options α) {first : Report α} {base : Outcome α} {call : Call α}
    (hanswers : solver.Answers [call]) (hstatus : base.status = .notSolved)
    (hpoint : base.point = none) : (p.solveBoxed o solver first base [call]).Heeds solver := by
  have hend := p.solveBoxed_end o solver first base [call]
  generalize p.solveBoxed o solver first base [call] = a at *
  cases hend with
  | unprepared e => exact hanswers.heeds
  | raised hraised =>
    -- The note of the first attempt is in place by now, its point is not.
    exact Attempt.heeds_of_raised hanswers hraised rfl ⟨rfl, hstatus, hpoint⟩
  | unjudged e hretried => exact (hanswers.snoc hretried.answer).heeds
  | pressed hretried => exact (hanswers.snoc hretried.answer).heeds
  | kept error hretried => exact (hanswers.snoc hretried.answer).heeds
  | replaced error hretried => exact (hanswers.snoc hretried.answer).heeds

theorem solveSmooth_heeds (p : Program α) (o : Options α) (solver : Solver α) :
    (p.solveSmooth o solver).Heeds solver := by
  have hend := p.solveSmooth_end o solver
  generalize p.solveSmooth o solver = a at *
  cases hend with
  | unprepared e => exact solver.answers_nil.heeds
  | raised made hraised =>
    exact Attempt.heeds_of_raised solver.answers_nil hraised rfl ⟨rfl, rfl, rfl⟩
  | retried made answer => exact solveBoxed_heeds o (solver.answers_nil.snoc answer) rfl rfl
  | concluded error made answer => exact (solver.answers_nil.snoc answer).heeds

theorem solve_heeds (p : Program α) (o : Options α) (solver : Solver α) :
    (p.solve o solver).Heeds solver := by
  rw [solve]
  split
  · exact p.solveLinear_heeds o solver
  · exact p.solveSmooth_heeds o solver

theorem solve_aborted_of_integral (o : Options α) (solver : Solver α) (hq : p.quadratics ≠ [])
    (htypes : ∃ t ∈ p.types, t ≠ .continuous) :
    (p.solve o solver).Aborted .integerWithQuadratic := by
  have hmixed : p.types.any (· ≠ .continuous) = true := by simpa using htypes
  rw [solve_of_quadratics hq, solveSmooth, if_pos hmixed]
  exact ⟨rfl, rfl, rfl⟩

end Program

namespace Model

variable [Scalar α] {m : Model α} {o : Options α} {op : Operation α} {solver : Solver α}

structure Unsolved (m : Model α) : Prop where
  status : m.status = .notSolved
  solution : m.solution = .error (.noSolution .notSolved)
  objective : m.objective = .error (.noSolution .notSolved)
  reducedCosts : m.reducedCosts = .error (.noSolution .notSolved)

omit [Scalar α] in
theorem unsolved_of_outcome (hstatus : m.outcome.status = .notSolved)
    (hpoint : m.outcome.point = none) : m.Unsolved where
  status := hstatus
  solution := by rw [Model.solution, hpoint, hstatus]
  objective := by rw [Model.objective, hpoint, hstatus]
  reducedCosts := by rw [Model.reducedCosts, hpoint, hstatus]

omit [Scalar α] in
theorem unsolved_fresh (program : Option (Program α)) : Unsolved ⟨program, .fresh⟩ :=
  unsolved_of_outcome rfl rfl

theorem optimize_eq_of_some {p : Program α} (hm : m.program = some p) (o : Options α)
    (solver : Solver α) : ∃ r,
      m.optimize o solver =
        (r, ⟨some p, (p.solve o solver).outcome⟩, (p.solve o solver).calls) ∧
      ∀ e, (p.solve o solver).error = some e → r = .error e := by
  rw [optimize, hm]
  refine ⟨_, rfl, ?_⟩
  intro e he
  rw [he]

def UpToDate (o : Options α) (ops : List (Operation α)) (m : Model α) : Prop :=
  ∀ x, m.solution = .ok x → ∃ p solver,
    m.program = some p ∧ .optimize solver ∈ ops ∧ m.outcome = (p.solve o solver).outcome

theorem Unsolved.upToDate (h : m.Unsolved) (o : Options α) (ops : List (Operation α)) :
    m.UpToDate o ops := by
  intro x hx
  rw [h.solution] at hx
  cases hx

theorem perform_upToDate {ops : List (Operation α)} (h : m.UpToDate o ops) (hop : op ∈ ops) :
    (op.perform o m).2.UpToDate o ops := by
  rcases perform_cases o m op with
    hsame | ⟨program, hchanged, _⟩ | ⟨solver, p, rfl, _, hsolved⟩
  · rw [hsame]
    exact h
  · rw [hchanged]
    exact (unsolved_fresh program).upToDate o ops
  · rw [hsolved]
    intro _ _
    exact ⟨p, solver, rfl, hop, rfl⟩

theorem run_upToDate (o : Options α) (ops : List (Operation α)) : (run o ops).UpToDate o ops :=
  List.foldlRecOn ops _ ((unsolved_fresh none).upToDate o ops) fun _ hm _ hop =>
    perform_upToDate hm hop

/-- After any session: a change is made as a whole or not at all, and no outcome survives it;
an attempt to solve keeps the program, and leaves nothing to read when there is no program, when
integral types meet quadratic rows, and when a call to the solver raises an error. -/
theorem run_all_or_nothing (o : Options α) (ops : List (Operation α)) :
    (run o ops).UpToDate o ops ∧
      (∀ op : Operation α, op.isChange = true →
        (∃ e, op.perform o (run o ops) = (.error e, run o ops)) ∨
          ∃ m, op.perform o (run o ops) = (.ok (), m) ∧ m.Unsolved) ∧
      ∀ solver : Solver α, ∃ r m calls, (run o ops).optimize o solver = (r, m, calls) ∧
        m.program = (run o ops).program ∧
        ((run o ops).program = none → r = .error .nothingLoaded ∧ m.Unsolved) ∧
        (∀ p, (run o ops).program = some p → p.quadratics ≠ [] →
          (∃ t ∈ p.types, t ≠ .continuous) → r = .error .integerWithQuadratic ∧ m.Unsolved) ∧
        ∀ i c e, calls[i]? = some c → solver i c = .raised e → r = .error e ∧ m.Unsolved := by
  refine ⟨run_upToDate o ops, ?_, ?_⟩
  · intro op hop
    rcases perform_change o (run o ops) hop with hrefused | ⟨program, hmade, _⟩
    · exact .inl hrefused
    · exact .inr ⟨_, hmade, unsolved_fresh program⟩
  · intro solver
    cases hm : (run o ops).program with
    | none =>
      refine ⟨_, _, _, optimize_of_none hm, hm, fun _ => ⟨rfl, ?_⟩, nofun, ?_⟩
      · rw [run_unloaded o ops hm]
        exact unsolved_fresh none
      · intro i c e hc
        rw [List.getElem?_nil] at hc
        cases hc
    | some p =>
      obtain ⟨r, hr, herror⟩ := optimize_eq_of_some hm o solver
      have haborted {e : Error} (h : (p.solve o solver).Aborted e) :
          r = .error e ∧ Unsolved ⟨some p, (p.solve o solver).outcome⟩ :=
        ⟨herror e h.error, unsolved_of_outcome h.status h.point⟩
      refine ⟨_, _, _, hr, rfl, nofun, ?_, ?_⟩
      · rintro _ ⟨⟩ hq htypes
        exact haborted (p.solve_aborted_of_integral o solver hq htypes)
      · intro i c e hc hraised
        exact haborted (p.solve_heeds o solver i c e hc hraised)

end Model

end ConeLift
