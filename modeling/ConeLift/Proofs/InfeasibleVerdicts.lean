import ConeLift.Proofs.Extremes
import ConeLift.Proofs.Session
import ConeLift.Proofs.SmoothAttempts
import ConeLift.Proofs.Traversal

/-!
When an attempt with quadratic rows ends with the verdict that there is no feasible point. The
verdict rests on the first report alone, so it can be at odds with a feasible point of the second.
-/

namespace ConeLift

theorem Status.ofSmoothCode_eq_infeasible_iff (code : ℤ) :
    ofSmoothCode code = infeasible ↔ code = Program.incompatible := by
  rw [ofSmoothCode, Program.incompatible]
  split_ifs with hzero hfour
  · simp [hzero]
  · simp [hfour]
  · simp [hfour]
  · simp [hfour]

namespace Program

variable {α : Type} [Scalar α]

def Exceeds (p : Program α) (o : Options α) (x : Option (List α)) : Prop :=
  ∃ v, p.violation x = .ok v ∧ Scalar.lt o.feasibility v = true

def Meets (p : Program α) (o : Options α) (x : Option (List α)) : Prop :=
  ∃ v, p.violation x = .ok v ∧ Scalar.le v o.feasibility = true

structure Rejected (p : Program α) (o : Options α) (solver : Solver α)
    (call boxed : SmoothCall α) (first second : Report α) : Prop where
  made : p.smoothCall o p.columns = .ok call
  answer : solver 0 (.smooth call) = .returned first
  gaveUp : first.success = false ∧ Status.ofSmoothCode first.code = .failed
  exceeds : p.Exceeds o first.point
  retry : ∃ box, p.Retried o solver box boxed second ∧ p.judgeRetry o box second = .keep

/-- A run that gives up away from the feasible points, followed by one that gives up at a feasible
point inside the box. -/
structure Overlooked (p : Program α) (o : Options α) (solver : Solver α)
    (first second : Report α) : Prop where
  firstRun : ∃ call, p.smoothCall o p.columns = .ok call ∧
    solver 0 (.smooth call) = .returned first
  firstGaveUp : first.success = false ∧ Status.ofSmoothCode first.code = .failed
  exceeds : p.Exceeds o first.point
  secondRun : ∃ box call, p.Retried o solver box call second ∧
    p.pressesBox box o.boxLimit second.point = .ok false
  secondGaveUp : second.success = false
  meets : p.Meets o second.point

section Verdict

variable {p : Program α} {o : Options α} {solver : Solver α} {r first second : Report α}
  {base : Outcome α} {calls : List (Call α)} {box : Bounds α} {call boxed : SmoothCall α}

theorem accept_status (r : Report α) (base : Outcome α) (reduced : Except Error (List α)) :
    (p.accept r base reduced).1.status = .optimal := by
  rw [accept]
  split
  · rfl
  · split <;> rfl

theorem conclude_status (h : r.success = true) : (p.conclude o r base).1.status = .optimal := by
  rw [conclude, if_pos h, accept_status]

theorem conclude_infeasible_iff (hfailed : r.success = false) (hcode : r.code ≠ incompatible) :
    (p.conclude o r base).1.status = .infeasible ↔
      Status.ofSmoothCode r.code = .failed ∧ p.Exceeds o r.point := by
  rw [conclude, if_neg (by simp [hfailed])]
  split
  · rename_i hstatus
    cases hviolation : p.violation r.point with
    | error e => simp [Exceeds, hviolation]
    | ok v =>
      by_cases hv : Scalar.lt o.feasibility v = true
      · simp [Exceeds, hviolation, hv, hstatus]
      · simp [Exceeds, hviolation, hv]
  · rename_i hstatus
    refine iff_of_false ?_ fun h => hstatus h.1
    exact mt (Status.ofSmoothCode_eq_infeasible_iff r.code).mp hcode

theorem judgeRetry_eq_keep_iff (h : p.Meets o r.point) :
    p.judgeRetry o box r = .keep ↔
      p.pressesBox box o.boxLimit r.point = .ok false ∧ r.success = false := by
  obtain ⟨v, hv, hle⟩ := h
  simp only [judgeRetry, hv, hle, Bool.not_true, Bool.false_eq_true, if_false]
  cases hpresses : p.pressesBox box o.boxLimit r.point with
  | error e => simp
  | ok presses =>
    cases presses with
    | true => simp
    | false => cases hsuccess : r.success <;> simp

theorem solveBoxed_infeasible_iff (hbase : base.status ≠ .infeasible)
    (hfailed : first.success = false) (hcode : first.code ≠ incompatible) :
    (p.solveBoxed o solver first base calls).outcome.status = .infeasible ↔
      (Status.ofSmoothCode first.code = .failed ∧ p.Exceeds o first.point) ∧
        ∃ box call second, p.Retried o solver box call second ∧
          p.judgeRetry o box second = .keep := by
  constructor
  · intro h
    have hend := p.solveBoxed_end o solver first base calls
    generalize p.solveBoxed o solver first base calls = a at *
    cases hend with
    | unprepared e => exact absurd h hbase
    | raised => exact absurd h hbase
    | unjudged e => exact absurd h hbase
    | pressed => cases h
    | @kept box call second error hretried hkeep =>
      exact ⟨(conclude_infeasible_iff hfailed hcode).mp h, box, call, second, hretried, hkeep⟩
    | replaced error hretried hreplace =>
      -- A report that replaces the first one is a success, and so an optimum.
      rw [conclude_status (of_replace hreplace).1] at h
      cases h
  · rintro ⟨hexceeds, box, call, second, ⟨hbox, hcall, hanswer⟩, hkeep⟩
    simp only [solveBoxed, hbox, hcall, hanswer, hkeep, bind, Except.bind, pure, Except.pure]
    exact (conclude_infeasible_iff hfailed hcode).mpr hexceeds

theorem Retried.calls_eq (h : p.Retried o solver box call second) :
    (p.solveBoxed o solver first base calls).calls = calls ++ [.smooth call] := by
  simp only [solveBoxed, h.inBox, h.made, h.answer, bind, Except.bind, pure, Except.pure]
  split <;> rfl

theorem solveSmooth_of_returned (hcontinuous : ∀ t ∈ p.types, t = .continuous)
    (hcall : p.smoothCall o p.columns = .ok call)
    (hanswer : solver 0 (.smooth call) = .returned first) :
    p.solveSmooth o solver =
      if !first.success && first.code ≠ incompatible then
        p.solveBoxed o solver first first.begun [.smooth call]
      else
        ⟨(p.conclude o first first.begun).1, (p.conclude o first first.begun).2,
          [.smooth call]⟩ := by
  have htypes : p.types.any (· ≠ .continuous) = false := by simpa using hcontinuous
  rw [solveSmooth, htypes, if_neg Bool.false_ne_true, hcall]
  simp only [hanswer]
  rfl

theorem solveSmooth_of_gaveUp (hcontinuous : ∀ t ∈ p.types, t = .continuous)
    (hcall : p.smoothCall o p.columns = .ok call)
    (hanswer : solver 0 (.smooth call) = .returned first) (hfailed : first.success = false)
    (hcode : first.code ≠ incompatible) :
    p.solveSmooth o solver = p.solveBoxed o solver first first.begun [.smooth call] := by
  rw [solveSmooth_of_returned hcontinuous hcall hanswer, if_pos (by simp [hfailed, hcode])]

theorem solveSmooth_of_settled (hcontinuous : ∀ t ∈ p.types, t = .continuous)
    (hcall : p.smoothCall o p.columns = .ok call)
    (hanswer : solver 0 (.smooth call) = .returned first)
    (h : ¬(first.success = false ∧ first.code ≠ incompatible)) :
    p.solveSmooth o solver = ⟨(p.conclude o first first.begun).1,
      (p.conclude o first first.begun).2, [.smooth call]⟩ := by
  rw [solveSmooth_of_returned hcontinuous hcall hanswer, if_neg (by simpa using h)]

theorem Rejected.calls_eq (hcontinuous : ∀ t ∈ p.types, t = .continuous)
    (h : p.Rejected o solver call boxed first second) (hcode : first.code ≠ incompatible) :
    (p.solveSmooth o solver).calls = [.smooth call, .smooth boxed] := by
  obtain ⟨box, hretried, _⟩ := h.retry
  rw [solveSmooth_of_gaveUp hcontinuous h.made h.answer h.gaveUp.1 hcode, hretried.calls_eq]
  rfl

theorem solveSmooth_infeasible_iff (hcontinuous : ∀ t ∈ p.types, t = .continuous)
    (hcode : ∀ call r, p.smoothCall o p.columns = .ok call →
      solver 0 (.smooth call) = .returned r → r.code ≠ incompatible) :
    (p.solveSmooth o solver).outcome.status = .infeasible ↔
      ∃ call boxed first second, p.Rejected o solver call boxed first second := by
  have hfresh (r : Report α) : r.begun.status ≠ .infeasible := Status.noConfusion
  constructor
  · intro h
    have hend := p.solveSmooth_end o solver
    generalize p.solveSmooth o solver = a at *
    cases hend with
    | unprepared e => cases h
    | raised => cases h
    | @retried call first hmade hanswer hsuccess hne =>
      rw [solveBoxed_infeasible_iff (hfresh first) hsuccess hne] at h
      obtain ⟨⟨hfailed, hexceeds⟩, box, boxed, second, hretry⟩ := h
      exact ⟨call, boxed, first, second, hmade, hanswer, ⟨hsuccess, hfailed⟩, hexceeds, box, hretry⟩
    | @concluded call first error hmade hanswer hdone =>
      have hsuccess := hdone.resolve_right (hcode call first hmade hanswer)
      rw [conclude_status hsuccess] at h
      cases h
  · rintro ⟨call, boxed, first, second, hmade, hanswer, ⟨hsuccess, hfailed⟩, hexceeds, box, hretry⟩
    have hne := hcode call first hmade hanswer
    rw [solveSmooth_of_gaveUp hcontinuous hmade hanswer hsuccess hne,
      solveBoxed_infeasible_iff (hfresh first) hsuccess hne]
    exact ⟨⟨hfailed, hexceeds⟩, box, boxed, second, hretry⟩

theorem overlooked_iff :
    p.Overlooked o solver first second ↔
      ∃ call boxed, p.Rejected o solver call boxed first second ∧ p.Meets o second.point := by
  constructor
  · rintro ⟨⟨call, hmade, hanswer⟩, hgaveUp, hexceeds, ⟨box, boxed, hretried, hpresses⟩, hfailed,
      hmeets⟩
    have hkeep := (judgeRetry_eq_keep_iff hmeets).mpr ⟨hpresses, hfailed⟩
    exact ⟨call, boxed, ⟨hmade, hanswer, hgaveUp, hexceeds, box, hretried, hkeep⟩, hmeets⟩
  · rintro ⟨call, boxed, ⟨hmade, hanswer, hgaveUp, hexceeds, box, hretried, hkeep⟩, hmeets⟩
    obtain ⟨hpresses, hfailed⟩ := (judgeRetry_eq_keep_iff hmeets).mp hkeep
    exact ⟨⟨call, hmade, hanswer⟩, hgaveUp, hexceeds, ⟨box, boxed, hretried, hpresses⟩, hfailed,
      hmeets⟩

end Verdict

theorem Exceeds.not_meets {p : Program Extended} {o : Options Extended}
    {x : Option (List Extended)} (h : p.Exceeds o x) : ¬p.Meets o x := by
  rintro ⟨w, hw, hle⟩
  obtain ⟨v, hv, hlt⟩ := h
  obtain rfl : v = w := Except.ok.inj (hv.symm.trans hw)
  rw [Extended.not_le_of_lt hlt] at hle
  cases hle

end Program

namespace Model

def HasFeasiblePoint {α : Type} [Scalar α] (m : Model α) (o : Options α) (solver : Solver α) :
    Prop :=
  ∃ i call r v, (m.optimize o solver).2.2[i]? = some call ∧ solver i call = .returned r ∧
    m.violation r.point = .ok v ∧ Scalar.le v o.feasibility = true

variable {m : Model Extended} {p : Program Extended} {o : Options Extended}
  {solver : Solver Extended}

/-- The verdict respects a feasible point in hand, except when a run that gives up away from the
feasible points is followed by one that gives up at such a point inside the box. -/
theorem infeasible_against_point_iff (hp : m.program = some p) (hquadratics : p.quadratics ≠ [])
    (hcontinuous : ∀ t ∈ p.types, t = .continuous)
    (hcode : ∀ c r, (m.optimize o solver).2.2[0]? = some c → solver 0 c = .returned r →
      r.code ≠ Program.incompatible) :
    (m.HasFeasiblePoint o solver → (m.optimize o solver).2.1.status ≠ .infeasible) ↔
      ¬∃ first second, p.Overlooked o solver first second := by
  have hsolve : p.solve o solver = p.solveSmooth o solver := Program.solve_of_quadratics hquadratics
  have hfirst : ∀ call r, p.smoothCall o p.columns = .ok call →
      solver 0 (.smooth call) = .returned r → r.code ≠ Program.incompatible := by
    intro call r hcall hr
    obtain ⟨more, hmore⟩ := Program.solveSmooth_first_call solver hcontinuous hcall
    refine hcode (.smooth call) r ?_ hr
    rw [optimize_of_some hp, hsolve, hmore]
    rfl
  have hstatus : (m.optimize o solver).2.1.status = .infeasible ↔
      ∃ call boxed first second, p.Rejected o solver call boxed first second := by
    rw [optimize_of_some hp, hsolve]
    exact Program.solveSmooth_infeasible_iff hcontinuous hfirst
  have hviolation (x : Option (List Extended)) : m.violation x = p.violation x := by
    simp only [violation, hp]
  have hcalls {call boxed first second} (h : p.Rejected o solver call boxed first second) :
      (m.optimize o solver).2.2 = [.smooth call, .smooth boxed] := by
    rw [optimize_of_some hp, hsolve]
    exact h.calls_eq hcontinuous (hfirst call first h.made h.answer)
  constructor
  · rintro hnever ⟨first, second, hoverlooked⟩
    obtain ⟨call, boxed, hrejected, v, hv, hle⟩ := Program.overlooked_iff.mp hoverlooked
    obtain ⟨box, hretried, _⟩ := hrejected.retry
    refine hnever ⟨1, .smooth boxed, second, v, ?_, hretried.answer, ?_, hle⟩ ?_
    · rw [hcalls hrejected]
      rfl
    · rw [hviolation, hv]
    · exact hstatus.mpr ⟨call, boxed, first, second, hrejected⟩
  · rintro hnone ⟨i, c, r, v, hc, hr, hv, hle⟩ hinfeasible
    obtain ⟨call, boxed, first, second, hrejected⟩ := hstatus.mp hinfeasible
    rw [hviolation] at hv
    rw [hcalls hrejected] at hc
    rcases i with _ | _ | i
    · cases hc
      obtain rfl : first = r := Response.returned.inj (hrejected.answer.symm.trans hr)
      exact hrejected.exceeds.not_meets ⟨v, hv, hle⟩
    · cases hc
      obtain ⟨box, hretried, _⟩ := hrejected.retry
      obtain rfl : second = r := Response.returned.inj (hretried.answer.symm.trans hr)
      exact hnone ⟨first, second, Program.overlooked_iff.mpr ⟨call, boxed, hrejected, v, hv, hle⟩⟩
    · cases hc

def intervalSession : List (Operation Extended) :=
  [.load
      { matrix := .compressed ⟨1, []⟩
        lower := .ofList [.negInfinity]
        upper := .ofList [.infinity]
        cost := .ofList [.finite 1]
        rowLower := .ofList []
        rowUpper := .ofList [] } "min",
    .addQuadratic ⟨[], [], [0], [0], [.ok 1], .ok 1⟩ "<="]

def intervalProgram : Program Extended where
  matrix := ⟨1, []⟩
  columns := ⟨[.negInfinity], [.infinity]⟩
  cost := finites [1]
  rows := ⟨[], []⟩
  sense := .minimize
  quadratics := [⟨[], [], [0], [0], [1], 1⟩]
  types := [.continuous]

def driftingSolver (recovers : Bool) : Solver Extended := fun i _ => .returned
  { success := i ≠ 0 && recovers
    code := if i ≠ 0 && recovers then 0 else 8
    note := .none
    point := some [if i = 0 then .finite 5 else 0]
    iterations := none
    lowerMarginals := none
    upperMarginals := none }

theorem driftingSolver_code_ne_incompatible (recovers : Bool) (c : Call Extended)
    {r : Report Extended} (h : driftingSolver recovers 0 c = .returned r) :
    r.code ≠ Program.incompatible := by
  cases h
  simp [Program.incompatible]

theorem interval_hasFeasiblePoint (recovers : Bool) :
    (run (Options.default Extended) intervalSession).HasFeasiblePoint (Options.default Extended)
      (driftingSolver recovers) := by
  have hcalled : (((run (Options.default Extended) intervalSession).optimize
      (Options.default Extended) (driftingSolver recovers)).2.2[1]?).isSome = true := by
    cases recovers <;> decide +kernel
  obtain ⟨call, hcall⟩ := Option.isSome_iff_exists.mp hcalled
  have hviolation : (run (Options.default Extended) intervalSession).violation
      (some [0]) = .ok 0 := by decide +kernel
  exact ⟨1, call, _, 0, hcall, rfl, hviolation, by decide +kernel⟩

theorem infeasible_against_point_iff_interval :
    ((run (Options.default Extended) intervalSession).optimize (Options.default Extended)
      (driftingSolver true)).2.1.status ≠ .infeasible := by
  have hprogram : (run (Options.default Extended) intervalSession).program =
      some intervalProgram := by decide +kernel
  refine (infeasible_against_point_iff hprogram (by simp [intervalProgram])
    (by simp [intervalProgram]) ?_).mpr ?_ (interval_hasFeasiblePoint true)
  · intro c r _ hr
    exact driftingSolver_code_ne_incompatible true c hr
  · rintro ⟨first, second, hoverlooked⟩
    obtain ⟨_, _, hretried, _⟩ := hoverlooked.secondRun
    have hfailed := hoverlooked.secondGaveUp
    cases hretried.answer
    simp at hfailed

theorem infeasible_against_point_interval :
    (run (Options.default Extended) intervalSession).program = some intervalProgram ∧
      (∀ c r, driftingSolver false 0 c = .returned r → r.code ≠ Program.incompatible) ∧
      (run (Options.default Extended) intervalSession).HasFeasiblePoint (Options.default Extended)
        (driftingSolver false) ∧
      ((run (Options.default Extended) intervalSession).optimize (Options.default Extended)
        (driftingSolver false)).2.1.status = .infeasible := by
  refine ⟨by decide +kernel, ?_, interval_hasFeasiblePoint false, by decide +kernel⟩
  intro c r hr
  exact driftingSolver_code_ne_incompatible false c hr

end Model

end ConeLift
