import ConeLift.Proofs.SmoothAttempts
import ConeLift.Proofs.Traversal

namespace ConeLift

variable {α : Type}

/-- Success means code zero, and brings an entry for each of `n` variables. -/
structure Report.WellFormed (r : Report α) (n : ℕ) : Prop where
  code : r.success = true ↔ r.code = 0
  point : r.success = true → ∃ x, r.point = some x ∧ x.length = n
  lower : r.success = true → ∀ v, r.lowerMarginals = some v → v.length = n
  upper : r.success = true → ∀ v, r.upperMarginals = some v → v.length = n

def Call.numVar : Call α → ℕ
  | .linear c => c.cost.length
  | .smooth c => c.cost.length

def Solver.WellFormed (solver : Solver α) : Prop :=
  ∀ i c r, solver i c = .returned r → r.WellFormed c.numVar

theorem Report.WellFormed.code_ne_zero {r : Report α} {n : ℕ} (h : r.WellFormed n)
    (hfailed : r.success = false) : r.code ≠ 0 := by
  intro hcode
  rw [h.code.mpr hcode] at hfailed
  cases hfailed

namespace Status

theorem ofLinearCode_ne_optimal {code : ℤ} (h : code ≠ 0) : ofLinearCode code ≠ optimal := by
  rw [ofLinearCode, if_neg h]
  split_ifs <;> decide

theorem ofSmoothCode_ne_optimal {code : ℤ} (h : code ≠ 0) : ofSmoothCode code ≠ optimal := by
  rw [ofSmoothCode, if_neg h]
  split_ifs <;> decide

end Status

namespace Outcome

structure Complete (u : Outcome α) (n : ℕ) : Prop where
  point : ∃ x, u.point = some x ∧ x.length = n
  objective : ∃ v, u.objective = some v
  reducedCosts : ∃ costs, u.reducedCosts = some costs ∧ costs.length = n

structure Blank (u : Outcome α) : Prop where
  status : u.status ≠ .optimal
  point : u.point = none
  objective : u.objective = none
  reducedCosts : u.reducedCosts = none

def Settled (u : Outcome α) (n : ℕ) : Prop := (u.status = .optimal ∧ u.Complete n) ∨ u.Blank

theorem fresh_blank : (fresh : Outcome α).Blank where
  status := Status.noConfusion
  point := rfl
  objective := rfl
  reducedCosts := rfl

theorem Blank.with_status {u : Outcome α} (h : u.Blank) (s : Status) (hs : s ≠ .optimal) :
    ({ u with status := s } : Outcome α).Blank := ⟨hs, h.point, h.objective, h.reducedCosts⟩

theorem Blank.with_note {u : Outcome α} (h : u.Blank) (message : Message α) (iterations : ℤ) :
    ({ u with message, iterations } : Outcome α).Blank :=
  ⟨h.status, h.point, h.objective, h.reducedCosts⟩

end Outcome

namespace Program

variable [Scalar α] {p : Program α} {o : Options α} {solver : Solver α} {r : Report α}
  {base : Outcome α}

theorem length_signedCost (p : Program α) : p.signedCost.length = p.cost.length :=
  List.length_map _

theorem numVar_linearCall {call : LinearCall α} (h : p.linearCall o = .ok call) :
    (Call.linear call).numVar = p.cost.length := by
  obtain ⟨rows, _, h⟩ := (bind_eq_ok_iff _ _ _).mp h
  cases h
  exact p.length_signedCost

theorem numVar_smoothCall {columns : Bounds α} {call : SmoothCall α}
    (h : p.smoothCall o columns = .ok call) : (Call.smooth call).numVar = p.cost.length := by
  obtain ⟨rows, _, h⟩ := (bind_eq_ok_iff _ _ _).mp h
  cases h
  exact p.length_signedCost

theorem reducedCosts_ok (h : r.WellFormed p.cost.length) (hsuccess : r.success = true) :
    ∃ costs, p.reducedCosts r = .ok costs ∧ costs.length = p.cost.length := by
  have hunknown : p.unknownCosts.length = p.cost.length := List.length_map _
  cases hlower : r.lowerMarginals with
  | none => exact ⟨_, by rw [reducedCosts, hlower], hunknown⟩
  | some lo =>
    cases hupper : r.upperMarginals with
    | none => exact ⟨_, by rw [reducedCosts, hlower, hupper], hunknown⟩
    | some hi =>
      have hlo := h.lower hsuccess lo hlower
      have hhi := h.upper hsuccess hi hupper
      refine ⟨(List.zipWith (· + ·) lo hi).map p.sense.signed, ?_, ?_⟩
      · rw [reducedCosts, hlower, hupper]
        simp only [Vec.zip_of_length_eq (· + ·) (hlo.trans hhi.symm), Except.map]
      · simp [hlo, hhi]

theorem accept_complete (h : r.WellFormed p.cost.length) (hsuccess : r.success = true)
    {costs : List α} (hcosts : costs.length = p.cost.length) :
    (p.accept r base (.ok costs)).1.status = .optimal ∧
      (p.accept r base (.ok costs)).1.Complete p.cost.length := by
  obtain ⟨x, hx, hlength⟩ := h.point hsuccess
  have hvalue : p.objective r.point = .ok (Vec.dot p.cost x) := by
    rw [hx]
    exact if_pos hlength
  simp only [accept, hvalue]
  exact ⟨trivial, ⟨x, hx, hlength⟩, ⟨_, rfl⟩, costs, rfl, hcosts⟩

theorem conclude_settled (h : r.WellFormed p.cost.length) (hbase : base.Blank) :
    (p.conclude o r base).1.Settled p.cost.length := by
  rw [conclude]
  cases hsuccess : r.success with
  | true =>
    left
    rw [if_pos rfl]
    exact accept_complete h hsuccess (List.length_map _)
  | false =>
    right
    have hstatus := Status.ofSmoothCode_ne_optimal (h.code_ne_zero hsuccess)
    rw [if_neg Bool.false_ne_true]
    split
    · split
      · exact hbase.with_status _ Status.noConfusion
      · split
        · exact hbase.with_status _ Status.noConfusion
        · exact hbase.with_status _ Status.noConfusion
    · exact hbase.with_status _ hstatus

theorem solveLinear_settled (h : solver.WellFormed) :
    (p.solveLinear o solver).outcome.Settled p.cost.length := by
  rw [solveLinear]
  split
  · exact .inr Outcome.fresh_blank
  · rename_i call hcall
    split
    · exact .inr Outcome.fresh_blank
    · rename_i r hr
      have hwell := h _ _ r hr
      rw [numVar_linearCall hcall] at hwell
      cases hsuccess : r.success with
      | true =>
        obtain ⟨costs, hcosts, hlength⟩ := reducedCosts_ok hwell hsuccess
        rw [hcosts]
        exact .inl (accept_complete hwell hsuccess hlength)
      | false =>
        have hstatus := Status.ofLinearCode_ne_optimal (hwell.code_ne_zero hsuccess)
        exact .inr ((Outcome.fresh_blank.with_note _ _).with_status _ hstatus)

theorem solveBoxed_settled (h : solver.WellFormed) {first : Report α} {calls : List (Call α)}
    (hfirst : first.WellFormed p.cost.length) (hbase : base.Blank) :
    (p.solveBoxed o solver first base calls).outcome.Settled p.cost.length := by
  have hend := p.solveBoxed_end o solver first base calls
  generalize p.solveBoxed o solver first base calls = a at *
  cases hend with
  | unprepared e => exact .inr hbase
  | raised => exact .inr hbase
  | unjudged e => exact .inr (hbase.with_note _ _)
  | @pressed box call r =>
    have hnoted := hbase.with_note (.boxLimit o.boxLimit) (base.iterations + r.count)
    exact .inr (hnoted.with_status .unbounded Status.noConfusion)
  | kept error => exact conclude_settled hfirst (hbase.with_note _ _)
  | @replaced box call r error hretried =>
    have hwell := h _ _ r hretried.answer
    rw [numVar_smoothCall hretried.made] at hwell
    exact conclude_settled hwell (hbase.with_note _ _)

theorem solveSmooth_settled (h : solver.WellFormed) :
    (p.solveSmooth o solver).outcome.Settled p.cost.length := by
  have hend := p.solveSmooth_end o solver
  generalize p.solveSmooth o solver = a at *
  cases hend with
  | unprepared e => exact .inr Outcome.fresh_blank
  | raised => exact .inr Outcome.fresh_blank
  | @retried call r made answer =>
    have hwell := h _ _ r answer
    rw [numVar_smoothCall made] at hwell
    exact solveBoxed_settled h hwell (Outcome.fresh_blank.with_note _ _)
  | @concluded call r error made answer =>
    have hwell := h _ _ r answer
    rw [numVar_smoothCall made] at hwell
    exact conclude_settled hwell (Outcome.fresh_blank.with_note _ _)

theorem solve_settled (h : solver.WellFormed) (p : Program α) (o : Options α) :
    (p.solve o solver).outcome.Settled p.cost.length := by
  rw [solve]
  split
  · exact solveLinear_settled h
  · exact solveSmooth_settled h

end Program

end ConeLift
