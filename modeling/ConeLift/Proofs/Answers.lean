import ConeLift.Proofs.AttemptErrors
import ConeLift.Proofs.BridgeSession
import ConeLift.Proofs.ConicSoundness
import ConeLift.Proofs.LoadCalls

namespace ConeLift

structure Outcome.Presentable (u : Outcome Extended) (p : Program Extended) : Prop where
  message : Solution.isText u.message = true
  point : ∀ x, u.point = some x → ∃ z : List ℚ, x = finites z
  value : ∀ v, u.objective = some v → p.objective u.point = .ok v

theorem Outcome.Blank.presentable {u : Outcome Extended} (h : u.Blank)
    (htext : Solution.isText u.message = true) (p : Program Extended) : u.Presentable p := by
  refine ⟨htext, ?_, ?_⟩
  · intro x hx
    rw [h.point] at hx
    cases hx
  · intro v hv
    rw [h.objective] at hv
    cases hv

/-- A solver that raises only errors about values, and whose reports bring a text, and a finite
point when they are successful or about a smooth call. -/
structure Solver.Compliant (solver : Solver Extended) : Prop where
  raised : ∀ i c e, solver i c = .raised e → e.isAboutValues = true
  wellFormed : solver.WellFormed
  note : ∀ i c r, solver i c = .returned r → ∃ t, r.note = .text t
  found : ∀ i c r, solver i c = .returned r → r.success = true →
    ∃ x : List ℚ, r.point = some (finites x)
  shown : ∀ i call r, solver i (.smooth call) = .returned r →
    ∃ x : List ℚ, r.point = some (finites x) ∧ x.length = call.cost.length

theorem Solver.Compliant.showsPoints {solver : Solver Extended} (h : solver.Compliant) :
    solver.ShowsPoints := by
  intro i call r hr
  obtain ⟨x, hx, hlength⟩ := h.shown i call r hr
  exact ⟨finites x, hx, (length_finites x).trans hlength⟩

namespace Program

variable {p : Program Extended} {o : Options Extended} {solver : Solver Extended}
  {r : Report Extended} {base : Outcome Extended}

theorem accept_presentable (hbase : base.Blank) (htext : Solution.isText base.message = true)
    {x : List ℚ} (hx : r.point = some (finites x)) (reduced : Except Error (List Extended)) :
    (p.accept r base reduced).1.Presentable p := by
  have hpoint : ∀ y, r.point = some y → ∃ z : List ℚ, y = finites z := by
    intro y hy
    exact ⟨x, Option.some.inj (hy.symm.trans hx)⟩
  rw [accept]
  cases hvalue : p.objective r.point with
  | error e =>
    refine ⟨htext, hpoint, ?_⟩
    intro v hv
    rw [hbase.objective] at hv
    cases hv
  | ok value =>
    cases reduced with
    | error e =>
      refine ⟨htext, hpoint, ?_⟩
      rintro _ ⟨⟩
      exact hvalue
    | ok costs =>
      refine ⟨htext, hpoint, ?_⟩
      rintro _ ⟨⟩
      exact hvalue

theorem conclude_presentable (hbase : base.Blank) (htext : Solution.isText base.message = true)
    (hr : r.success = true → ∃ x : List ℚ, r.point = some (finites x)) :
    (p.conclude o r base).1.Presentable p := by
  rw [conclude]
  split
  · rename_i hsuccess
    obtain ⟨x, hx⟩ := hr hsuccess
    exact accept_presentable hbase htext hx _
  · -- A failed run leaves its status at most.
    have hkept (s : Status) : Outcome.Presentable { base with status := s } p :=
      ⟨htext, (hbase.presentable htext p).point, (hbase.presentable htext p).value⟩
    split
    · split
      · exact hkept .failed
      · split
        · exact hkept .infeasible
        · exact hkept .failed
    · exact hkept _

variable (hsolver : solver.Compliant)

include hsolver

theorem solveLinear_presentable : (p.solveLinear o solver).outcome.Presentable p := by
  have hfresh : (Outcome.fresh : Outcome Extended).Presentable p :=
    Outcome.fresh_blank.presentable rfl p
  rw [solveLinear]
  split
  · exact hfresh
  · rename_i call _
    split
    · exact hfresh
    · rename_i r hr
      obtain ⟨t, ht⟩ := hsolver.note _ _ r hr
      have hnoted := (Outcome.fresh_blank (α := Extended)).with_note (.note r.note.orSilent) r.count
      have htext : Solution.isText (.note r.note.orSilent : Message Extended) = true := by
        rw [ht]
        rfl
      simp only
      split
      · rename_i hsuccess
        obtain ⟨x, hx⟩ := hsolver.found _ _ r hr hsuccess
        exact accept_presentable hnoted htext hx _
      · exact ⟨htext, (hnoted.presentable htext p).point, (hnoted.presentable htext p).value⟩

theorem solveBoxed_presentable {first : Report Extended} {calls : List (Call Extended)}
    (hfirst : first.success = true → ∃ x : List ℚ, first.point = some (finites x))
    (hbase : base.Blank) (htext : Solution.isText base.message = true) :
    (p.solveBoxed o solver first base calls).outcome.Presentable p := by
  have hend := p.solveBoxed_end o solver first base calls
  generalize p.solveBoxed o solver first base calls = a at *
  cases hend with
  | unprepared e => exact hbase.presentable htext p
  | raised => exact hbase.presentable htext p
  | @unjudged box call r e =>
    exact (hbase.with_note base.message (base.iterations + r.count)).presentable htext p
  | @pressed box call r =>
    have hnoted := hbase.with_note (.boxLimit o.boxLimit) (base.iterations + r.count)
    exact (hnoted.with_status .unbounded Status.noConfusion).presentable rfl p
  | kept error => exact conclude_presentable (hbase.with_note _ _) htext hfirst
  | @replaced box call r error hretried =>
    exact conclude_presentable (hbase.with_note _ _) rfl
      (hsolver.found 1 (.smooth call) r hretried.answer)

theorem solveSmooth_presentable : (p.solveSmooth o solver).outcome.Presentable p := by
  have hend := p.solveSmooth_end o solver
  generalize p.solveSmooth o solver = a at *
  cases hend with
  | unprepared e => exact Outcome.fresh_blank.presentable rfl p
  | raised => exact Outcome.fresh_blank.presentable rfl p
  | @retried call r made answer =>
    exact solveBoxed_presentable hsolver (hsolver.found 0 (.smooth call) r answer)
      (Outcome.fresh_blank.with_note _ _) rfl
  | @concluded call r error made answer =>
    exact conclude_presentable (Outcome.fresh_blank.with_note _ _) rfl
      (hsolver.found 0 (.smooth call) r answer)

theorem solve_presentable (p : Program Extended) (o : Options Extended) :
    (p.solve o solver).outcome.Presentable p := by
  rw [solve]
  split
  · exact solveLinear_presentable hsolver
  · exact solveSmooth_presentable hsolver

end Program

namespace Extended

theorem dot_replicate_zero (k : ℕ) (z : List ℚ) :
    Vec.dot (List.replicate k (0 : Extended)) (finites z) = 0 := by
  induction k generalizing z with
  | zero => rfl
  | succ k ih =>
    cases z with
    | nil => rfl
    | cons v z =>
      calc (0 : Extended) * .finite v + Vec.dot (List.replicate k (0 : Extended)) (finites z)
          = .finite (0 * v) + 0 := by rw [ih, zero_eq, finite_mul]
        _ = 0 := by rw [zero_mul, zero_eq, finite_add, add_zero]

theorem dot_append_replicate_zero (c : List Extended) (k : ℕ) (z : List ℚ) :
    Vec.dot (c ++ List.replicate k 0) (finites z) = Vec.dot c (finites (z.take c.length)) := by
  induction c generalizing z with
  | nil => exact dot_replicate_zero k z
  | cons a c ih =>
    cases z with
    | nil => rfl
    | cons v z =>
      have htail := ih z
      calc a * .finite v + Vec.dot (c ++ List.replicate k 0) (finites z)
          = a * .finite v + Vec.dot c (finites (z.take c.length)) := by rw [htail]
        _ = Vec.dot (a :: c) (finites ((v :: z).take (a :: c).length)) := rfl

end Extended

theorem Partition.numAux_ofCones (cones : List Cone) :
    (ofCones cones).numAux = ((cones.filter Cone.isSecondOrder).map Cone.size).sum := by
  simp only [numAux, ofCones, List.length_flatMap]
  rfl

theorem Partition.length_linear_ofCones (cones : List Cone) :
    (ofCones cones).linear.length =
      ((cones.filter fun k => !k.isSecondOrder).map Cone.size).sum := by
  simp only [ofCones, List.length_flatMap, List.length_map]
  rfl

theorem length_secondOrderBlocks (variableCones constraintCones : List Cone) (numOrig : ℕ) :
    (secondOrderBlocks variableCones constraintCones numOrig).length =
      (quadraticCones variableCones ++ quadraticCones constraintCones).length := by
  have hblocks := (auxiliaryBlocks_spec numOrig constraintCones).1.length_eq
  rw [secondOrderBlocks, List.length_append, List.length_append, List.length_map, ← hblocks]
  rfl

theorem Lifted.program_sound {n : Numbers Extended} {constraintCones variableCones : List Cone}
    (h : n.Liftable constraintCones variableCones)
    (hcolumns : ∀ k ∈ variableCones, ∀ i ∈ k.indices, i < n.cost.length) :
    (n.lift constraintCones variableCones).program.Sound := by
  obtain ⟨⟨hcols, hlower, hupper⟩, ⟨hrowLower, hrowUpper⟩, huncrossed⟩ :=
    (LinearModel.check_eq_ok_iff _).mp (check_lift h)
  refine ⟨⟨hcols, hlower, hupper, hrowLower, hrowUpper, List.length_replicate⟩, huncrossed, ?_⟩
  rw [length_cost_program]
  exact (apart_of_lt hcolumns).rows

namespace Solution

variable {p : Lifted Extended} {m : Model Extended}

def ofOptimum (p : Lifted Extended) (message : Message Extended) (x : List Extended)
    (v : Extended) (costs : List Extended) : Solution Extended where
  status := .optimal
  objective := some v
  point := some (x.take p.numOrig)
  extended := some x
  reducedCosts := some (costs.map finite?)
  numVariables := p.numOrig
  numAuxiliary := p.numAux
  numLinear := p.numLinear
  numQuadratic := p.quadratics.length
  message := message

def ofVerdict (p : Lifted Extended) (message : Message Extended) (status : Status) :
    Solution Extended where
  status := status
  objective := none
  point := none
  extended := none
  reducedCosts := none
  numVariables := p.numOrig
  numAuxiliary := p.numAux
  numLinear := p.numLinear
  numQuadratic := p.quadratics.length
  message := message

theorem ofModel_of_complete {x costs : List Extended} {v : Extended}
    (hstatus : m.outcome.status = .optimal) (hx : m.outcome.point = some x)
    (hv : m.outcome.objective = some v) (hcosts : m.outcome.reducedCosts = some costs)
    (htext : isText m.outcome.message = true) :
    ofModel p m = .ok (ofOptimum p m.outcome.message x v costs) := by
  have hoptimal : optimal m = .ok (x, v, costs) := by
    simp only [optimal, Model.solution, Model.objective, Model.reducedCosts, hx, hv, hcosts, bind,
      Except.bind, pure, Except.pure]
  have hread : m.status = .optimal := hstatus
  simp only [ofModel, hread, if_true, hoptimal, Except.map, htext, Bool.not_true,
    Bool.false_eq_true, if_false, bind, Except.bind, pure, Except.pure]
  rfl

theorem ofModel_of_blank (h : m.outcome.Blank) (htext : isText m.outcome.message = true) :
    ofModel p m = .ok (ofVerdict p m.outcome.message m.outcome.status) := by
  have hread : m.status ≠ .optimal := h.status
  simp only [ofModel, hread, if_false, htext, Bool.not_true, Bool.false_eq_true, bind,
    Except.bind, pure, Except.pure]
  rfl

end Solution

/-- The parts of a solution agree with each other and with the problem: there are values exactly
when the status is that of an optimum, a point and its extension by auxiliary columns, and the cost
of the point. -/
structure Solution.Fits (s : Solution Extended) (P : Problem Extended) : Prop where
  numVariables : s.numVariables = P.cost.length
  numAuxiliary : s.numAuxiliary =
    ((P.constraintCones.filter Cone.isSecondOrder).map Cone.size).sum
  numLinear : s.numLinear =
    ((P.constraintCones.filter fun k => !k.isSecondOrder).map Cone.size).sum
  numQuadratic : s.numQuadratic =
    (quadraticCones P.variableCones ++ quadraticCones P.constraintCones).length
  message : isText s.message = true
  optimum : s.status = .optimal → ∃ (x y : List ℚ) (costs : List (Option Extended)),
    s.point = some (finites x) ∧ s.extended = some (finites (x ++ y)) ∧
      s.objective = some (Vec.dot P.cost (finites x)) ∧ s.reducedCosts = some costs ∧
      x.length = s.numVariables ∧ y.length = s.numAuxiliary ∧
      costs.length = s.numVariables + s.numAuxiliary ∧
      (∀ v, some v ∈ costs → Scalar.isFinite v = true) ∧
      ∀ c, P.cost = finites c → s.objective = some (.finite (dot c x))
  verdict : s.status ≠ .optimal →
    s.point = none ∧ s.extended = none ∧ s.objective = none ∧ s.reducedCosts = none

namespace Solution

variable {P : Problem Extended} {n : Numbers Extended}

theorem ofOptimum_fits (hcost : n.cost = P.cost) {message : Message Extended}
    (hmessage : isText message = true) {z : List ℚ} {v : Extended} {costs : List Extended}
    (hz : z.length = (n.lift P.constraintCones P.variableCones).program.cost.length)
    (hcosts : costs.length = (n.lift P.constraintCones P.variableCones).program.cost.length)
    (hv : (n.lift P.constraintCones P.variableCones).program.objective (some (finites z)) =
      .ok v) :
    (ofOptimum (n.lift P.constraintCones P.variableCones) message (finites z) v costs).Fits P := by
  have hlength : (n.lift P.constraintCones P.variableCones).program.cost.length =
      P.cost.length + (Partition.ofCones P.constraintCones).numAux := by
    simp [Lifted.program, Lifted.toLinear, Numbers.lift, hcost]
  have hdot : v = Vec.dot P.cost (finites (z.take P.cost.length)) := by
    rw [Program.objective, if_pos ((length_finites z).trans hz)] at hv
    rw [← Except.ok.inj hv, ← Extended.dot_append_replicate_zero, ← hcost]
    rfl
  rw [hlength] at hz hcosts
  refine ⟨congrArg List.length hcost, Partition.numAux_ofCones _,
    Partition.length_linear_ofCones _, ?_, hmessage, ?_, fun h => absurd rfl h⟩
  · exact (List.length_map _).trans (length_secondOrderBlocks _ _ _)
  · intro _
    have hnumOrig : (n.lift P.constraintCones P.variableCones).numOrig = P.cost.length :=
      congrArg List.length hcost
    refine ⟨z.take P.cost.length, z.drop P.cost.length, costs.map finite?, ?_, ?_, ?_, rfl, ?_, ?_,
      ?_, ?_, ?_⟩
    · simp only [ofOptimum, hnumOrig, finites, List.map_take]
    · rw [List.take_append_drop]
      rfl
    · rw [← hdot]
      rfl
    · rw [List.length_take, hz]
      simp [ofOptimum, hnumOrig]
    · rw [List.length_drop, hz]
      simp [ofOptimum, Numbers.lift]
    · rw [List.length_map, hcosts]
      simp [ofOptimum, Numbers.lift, hcost]
    · intro w hw
      obtain ⟨u, _, hu⟩ := List.mem_map.mp hw
      obtain ⟨hfinite, rfl⟩ := (finite?_eq_some_iff u w).mp hu
      exact hfinite
    · intro c hc
      rw [← dot_finites, ← hc, ← hdot]
      rfl

theorem ofVerdict_fits (hcost : n.cost = P.cost) {message : Message Extended}
    (hmessage : isText message = true) {status : Status} (hstatus : status ≠ .optimal) :
    (ofVerdict (n.lift P.constraintCones P.variableCones) message status).Fits P := by
  refine ⟨congrArg List.length hcost, Partition.numAux_ofCones _,
    Partition.length_linear_ofCones _, ?_, hmessage, fun h => absurd h hstatus,
    fun _ => ⟨rfl, rfl, rfl, rfl⟩⟩
  exact (List.length_map _).trans (length_secondOrderBlocks _ _ _)

theorem exists_ofModel (hcost : n.cost = P.cost) {m : Model Extended}
    (hsettled : m.outcome.Settled
      (n.lift P.constraintCones P.variableCones).program.cost.length)
    (hpresentable : m.outcome.Presentable (n.lift P.constraintCones P.variableCones).program) :
    ∃ s, ofModel (n.lift P.constraintCones P.variableCones) m = .ok s ∧ s.Fits P := by
  rcases hsettled with ⟨hstatus, ⟨x, hx, hlength⟩, ⟨v, hv⟩, costs, hcosts, hsize⟩ | hblank
  · obtain ⟨z, rfl⟩ := hpresentable.point x hx
    have hvalue := hpresentable.value v hv
    rw [hx] at hvalue
    rw [length_finites] at hlength
    exact ⟨_, ofModel_of_complete hstatus hx hv hcosts hpresentable.message,
      ofOptimum_fits hcost hpresentable.message hlength hsize hvalue⟩
  · exact ⟨_, ofModel_of_blank hblank hpresentable.message,
      ofVerdict_fits hcost hpresentable.message hblank.status⟩

end Solution

namespace Problem

variable {P : Problem Extended} {o : Options Extended} {solver : Solver Extended}

theorem exists_liftable (hvalid : P.Valid)
    (hrows : ∀ k ∈ P.constraintCones, ∀ i ∈ k.indices, i < P.rightHand.length)
    (hcolumns : ∀ k ∈ P.variableCones, ∀ i ∈ k.indices, i < P.cost.length) :
    ∃ d n, P.toData = .ok d ∧ d.constraintCones = P.constraintCones ∧
      d.variableCones = P.variableCones ∧ d.InRange ∧ Lifted.readNumbers d = .ok n ∧
      n.cost = P.cost ∧ n.Liftable P.constraintCones P.variableCones := by
  exact ⟨_, _, toData_of_valid hvalid, rfl, rfl, ConicData.inRange_of_ofList rfl hcolumns,
    P.readNumbers_summedData, rfl, liftable_summed hvalid hrows hcolumns⟩

theorem solve_of_unsupported {d : ConicData Extended} (hdata : P.toData = .ok d)
    (hconstraint : d.constraintCones = P.constraintCones)
    (hvariable : d.variableCones = P.variableCones) {k : Cone}
    (hk : (P.constraintCones ++ P.variableCones).find? (fun k => !k.kind.supported) = some k) :
    P.solve o solver = (.ok (.declined (Error.unsupported k.kind).account), []) := by
  have hkept : Kept.ofData d = .error (.unsupported k.kind) := by
    simp only [Kept.ofData, Lifted.checkKinds, hconstraint, hvariable, hk, bind, Except.bind]
  have hunliftable : (Error.unsupported k.kind).isUnliftable = true := rfl
  simp only [solve, Bridge.loadProblem, hdata, Bridge.load, hkept, hunliftable, if_true]

theorem load_of_liftable (o : Options Extended) (solver : Solver Extended)
    {d : ConicData Extended} {n : Numbers Extended}
    (hdata : P.toData = .ok d) (hconstraint : d.constraintCones = P.constraintCones)
    (hvariable : d.variableCones = P.variableCones) (hin : d.InRange)
    (hread : Lifted.readNumbers d = .ok n) (hn : n.Liftable P.constraintCones P.variableCones)
    (hsupported : ∀ k ∈ P.constraintCones ++ P.variableCones, k.kind.supported = true) :
    ∃ kept : Kept Extended, kept.lifted = n.lift P.constraintCones P.variableCones ∧
      Bridge.loadProblem (Model.backend o solver) ⟨none, (Model.empty, [])⟩ P =
        (.ok (), ⟨some kept,
          (⟨some (n.lift P.constraintCones P.variableCones).program, .fresh⟩, [])⟩) := by
  have hbuild : Lifted.build d = .ok (n.lift P.constraintCones P.variableCones) := by
    rw [Lifted.build_eq_ok_iff, hconstraint, hvariable]
    exact ⟨hsupported, n, hread, hn, rfl⟩
  obtain ⟨kept, hlifted, hload⟩ :=
    Bridge.load_of_built hin hbuild o solver ⟨none, (Model.empty, [])⟩
  refine ⟨kept, hlifted, ?_⟩
  rw [Bridge.loadProblem, hdata]
  exact hload

/-- The answer for a valid problem whose cones name rows and variables that exist, whatever the
solver does within its rules: the first kind without a lift, or the error that the solver raised,
or a solution that fits. -/
theorem solve_answers (hvalid : P.Valid)
    (hrows : ∀ k ∈ P.constraintCones, ∀ i ∈ k.indices, i < P.rightHand.length)
    (hcolumns : ∀ k ∈ P.variableCones, ∀ i ∈ k.indices, i < P.cost.length)
    (o : Options Extended) (hsolver : solver.Compliant) :
    ∃ answer, (P.solve o solver).1 = .ok answer ∧
      (∀ k, (P.constraintCones ++ P.variableCones).find? (fun k => !k.kind.supported) = some k →
        answer = .declined ("Cone type " ++ k.kind.name ++ " not supported") ∧
          (P.solve o solver).2 = []) ∧
      ((∀ k ∈ P.constraintCones ++ P.variableCones, k.kind.supported = true) →
        (∃ i c e, (P.solve o solver).2[i]? = some c ∧ solver i c = .raised e ∧
          answer = .declined ("Failed to solve problem: " ++ e.account)) ∨
        solver.Answers (P.solve o solver).2 ∧ ∃ s, answer = .found s ∧ s.Fits P) := by
  obtain ⟨d, n, hdata, hconstraint, hvariable, hin, hread, hcost, hn⟩ :=
    exists_liftable hvalid hrows hcolumns
  cases hfind : (P.constraintCones ++ P.variableCones).find? fun k => !k.kind.supported with
  | some k =>
    rw [solve_of_unsupported hdata hconstraint hvariable hfind]
    refine ⟨_, rfl, ?_, ?_⟩
    · rintro _ ⟨⟩
      exact ⟨rfl, rfl⟩
    · intro hsupported
      have hkind := List.find?_some hfind
      rw [hsupported k (List.mem_of_find?_eq_some hfind)] at hkind
      cases hkind
  | none =>
    have hsupported : ∀ k ∈ P.constraintCones ++ P.variableCones, k.kind.supported = true := by
      simpa using List.find?_eq_none.mp hfind
    obtain ⟨kept, hlifted, hload⟩ := load_of_liftable o solver hdata hconstraint hvariable hin
      hread hn hsupported
    have hsound := Lifted.program_sound hn (by rw [hcost]; exact hcolumns)
    generalize hp : (n.lift P.constraintCones P.variableCones).program = p at *
    have hcontinuous : ∀ t ∈ p.types, t = .continuous := by
      rw [← hp]
      exact fun t ht => List.eq_of_mem_replicate ht
    rw [solve, hload]
    simp only [Model.backend, Model.optimize, List.nil_append]
    rcases Attempt.raised_or_answered (p.solve_heeds o solver)
      (Program.solve_onlyRaised hsound hcontinuous hsolver.wellFormed hsolver.showsPoints) with
      ⟨i, c, e, hc, hraised, herror⟩ | ⟨herror, hanswers⟩
    · simp only [herror, hsolver.raised i c e hraised, if_true]
      exact ⟨_, rfl, by simp, fun _ => .inl ⟨i, c, e, hc, hraised, rfl⟩⟩
    · obtain ⟨s, hs, hfits⟩ := Solution.exists_ofModel (m := ⟨some p, (p.solve o solver).outcome⟩)
        hcost (by rw [hp]; exact p.solve_settled hsolver.wellFormed o)
        (by rw [hp]; exact p.solve_presentable hsolver o)
      simp only [herror, Bridge.lifted, hlifted, Except.bind, hs, Except.map]
      exact ⟨_, rfl, by simp, fun _ => .inr ⟨hanswers, s, rfl, hfits⟩⟩

def secondTry : Solver Extended := fun i c => .returned
  { success := i ≠ 0
    code := if i = 0 then 9 else 0
    note := .text "done"
    point := some (finites (List.replicate c.numVar 0))
    iterations := some 1
    lowerMarginals := none
    upperMarginals := none }

theorem secondTry_compliant : secondTry.Compliant := by
  have hlength (c : Call Extended) : (finites (List.replicate c.numVar 0)).length = c.numVar := by
    rw [length_finites, List.length_replicate]
  constructor
  · intro i c e h
    cases h
  · intro i c r h
    cases h
    refine ⟨by simp, fun _ => ⟨_, rfl, hlength c⟩, ?_, ?_⟩
    · rintro _ _ ⟨⟩
    · rintro _ _ ⟨⟩
  · intro i c r h
    cases h
    exact ⟨_, rfl⟩
  · intro i c r h _
    cases h
    exact ⟨_, rfl⟩
  · intro i call r h
    cases h
    exact ⟨_, rfl, List.length_replicate⟩

theorem solve_answers_leastLead :
    ∃ s, (leastLead.finite.solve (Options.default Extended) secondTry).1 = .ok (.found s) ∧
      s.status = .optimal ∧ s.Fits leastLead.finite := by
  have hstatus : (leastLead.finite.solve (Options.default Extended) secondTry).1 =
      .ok (.found
        { status := .optimal
          objective := some (.finite 0)
          point := some [.finite 0, .finite 0]
          extended := some [.finite 0, .finite 0]
          reducedCosts := some [none, none]
          numVariables := 2
          numAuxiliary := 0
          numLinear := 1
          numQuadratic := 1
          message := .spelled (.text "done") }) := by decide +kernel
  obtain ⟨answer, hanswer, _, hsolved⟩ := solve_answers (P := leastLead.finite)
    ⟨by decide, by decide⟩ (by decide) (by decide) (Options.default Extended) secondTry_compliant
  rcases hsolved (by decide) with ⟨i, c, e, _, hraised, _⟩ | ⟨_, s, rfl, hfits⟩
  · cases hraised
  · rw [hstatus] at hanswer
    cases hanswer
    exact ⟨_, hstatus, rfl, hfits⟩

end Problem

end ConeLift
