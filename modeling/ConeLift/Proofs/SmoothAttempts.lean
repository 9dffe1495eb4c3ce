import ConeLift.Model.Optimize

namespace ConeLift

def Report.begun {α : Type} (r : Report α) : Outcome α :=
  { Outcome.fresh with message := .spelled r.note, iterations := r.count }

namespace Program

variable {α : Type} [Scalar α]

structure Retried (p : Program α) (o : Options α) (solver : Solver α) (box : Bounds α)
    (call : SmoothCall α) (r : Report α) : Prop where
  inBox : p.columns.box o.boxLimit = .ok box
  made : p.smoothCall o box = .ok call
  answer : solver 1 (.smooth call) = .returned r

inductive BoxedEnd (p : Program α) (o : Options α) (solver : Solver α) (first : Report α)
    (base : Outcome α) (calls : List (Call α)) : Attempt α → Prop where
  | unprepared (e : Error) : BoxedEnd p o solver first base calls ⟨base, some e, calls⟩
  | raised {call : SmoothCall α} {e : Error} (h : solver 1 (.smooth call) = .raised e) :
    BoxedEnd p o solver first base calls ⟨base, some e, calls ++ [.smooth call]⟩
  | unjudged {box : Bounds α} {call : SmoothCall α} {r : Report α} (e : Error)
    (h : p.Retried o solver box call r) :
    BoxedEnd p o solver first base calls
      ⟨{ base with iterations := base.iterations + r.count }, some e, calls ++ [.smooth call]⟩
  | pressed {box : Bounds α} {call : SmoothCall α} {r : Report α}
    (h : p.Retried o solver box call r) :
    BoxedEnd p o solver first base calls
      ⟨{ base with
          iterations := base.iterations + r.count
          status := .unbounded
          message := .boxLimit o.boxLimit }, none, calls ++ [.smooth call]⟩
  | kept {box : Bounds α} {call : SmoothCall α} {r : Report α} (error : Option Error)
    (h : p.Retried o solver box call r) (hjudge : p.judgeRetry o box r = .keep) :
    BoxedEnd p o solver first base calls
      ⟨(p.conclude o first { base with iterations := base.iterations + r.count }).1, error,
        calls ++ [.smooth call]⟩
  | replaced {box : Bounds α} {call : SmoothCall α} {r : Report α} (error : Option Error)
    (h : p.Retried o solver box call r) (hjudge : p.judgeRetry o box r = .replace) :
    BoxedEnd p o solver first base calls
      ⟨(p.conclude o r
          { base with
            iterations := base.iterations + r.count
            message := .spelled r.note }).1, error, calls ++ [.smooth call]⟩

inductive SmoothEnd (p : Program α) (o : Options α) (solver : Solver α) : Attempt α → Prop where
  | unprepared (e : Error)
    (h : ∀ call, p.smoothCall o p.columns = .ok call → ∃ t ∈ p.types, t ≠ .continuous) :
    SmoothEnd p o solver ⟨.fresh, some e, []⟩
  | raised {call : SmoothCall α} {e : Error} (made : p.smoothCall o p.columns = .ok call)
    (h : solver 0 (.smooth call) = .raised e) :
    SmoothEnd p o solver ⟨.fresh, some e, [.smooth call]⟩
  | retried {call : SmoothCall α} {r : Report α} (made : p.smoothCall o p.columns = .ok call)
    (answer : solver 0 (.smooth call) = .returned r) (hfailed : r.success = false)
    (hcode : r.code ≠ incompatible) :
    SmoothEnd p o solver (p.solveBoxed o solver r r.begun [.smooth call])
  | concluded {call : SmoothCall α} {r : Report α} (error : Option Error)
    (made : p.smoothCall o p.columns = .ok call)
    (answer : solver 0 (.smooth call) = .returned r)
    (h : r.success = true ∨ r.code = incompatible) :
    SmoothEnd p o solver ⟨(p.conclude o r r.begun).1, error, [.smooth call]⟩

theorem solveBoxed_end (p : Program α) (o : Options α) (solver : Solver α) (first : Report α)
    (base : Outcome α) (calls : List (Call α)) :
    p.BoxedEnd o solver first base calls (p.solveBoxed o solver first base calls) := by
  rw [solveBoxed]
  cases hbox : p.columns.box o.boxLimit with
  | error e => exact .unprepared e
  | ok box =>
    cases hcall : p.smoothCall o box with
    | error e =>
      simp only [hcall, bind, Except.bind]
      exact .unprepared e
    | ok call =>
      simp only [hcall, bind, Except.bind, pure, Except.pure]
      cases hr : solver 1 (.smooth call) with
      | raised e => exact .raised hr
      | returned r =>
        have hretried : p.Retried o solver box call r := ⟨hbox, hcall, hr⟩
        simp only
        cases hjudge : p.judgeRetry o box r with
        | failed e => exact .unjudged e hretried
        | unbounded => exact .pressed hretried
        | keep => exact .kept _ hretried hjudge
        | replace => exact .replaced _ hretried hjudge

theorem solveSmooth_end (p : Program α) (o : Options α) (solver : Solver α) :
    p.SmoothEnd o solver (p.solveSmooth o solver) := by
  rw [solveSmooth]
  split
  · rename_i htypes
    exact .unprepared _ fun _ _ => by simpa using htypes
  · cases hcall : p.smoothCall o p.columns with
    | error e => exact .unprepared e (by simp [hcall])
    | ok call =>
      simp only
      cases hr : solver 0 (.smooth call) with
      | raised e => exact .raised hcall hr
      | returned r =>
        simp only
        split
        · rename_i hretry
          rw [Bool.and_eq_true, Bool.not_eq_true', decide_eq_true_iff] at hretry
          exact .retried hcall hr hretry.1 hretry.2
        · rename_i hretry
          refine .concluded _ hcall hr ?_
          rw [Bool.and_eq_true, Bool.not_eq_true', decide_eq_true_iff] at hretry
          cases hsuccess : r.success with
          | true => exact .inl rfl
          | false => exact .inr (Decidable.not_not.mp fun hcode => hretry ⟨hsuccess, hcode⟩)

variable {p : Program α} {o : Options α} {solver : Solver α} {x : List α}

theorem solve_of_quadratics (h : p.quadratics ≠ []) :
    p.solve o solver = p.solveSmooth o solver := by
  rw [solve, if_neg (by simpa using h)]

theorem solve_of_linear (h : p.quadratics = []) : p.solve o solver = p.solveLinear o solver := by
  rw [solve, if_pos (by rw [h, List.isEmpty_nil])]

theorem calls_of_solveBoxed (p : Program α) (o : Options α) (solver : Solver α) (first : Report α)
    (base : Outcome α) (calls : List (Call α)) :
    ∃ more, (p.solveBoxed o solver first base calls).calls = calls ++ more := by
  have hend := p.solveBoxed_end o solver first base calls
  generalize p.solveBoxed o solver first base calls = a at *
  cases hend with
  | unprepared e => exact ⟨[], (List.append_nil calls).symm⟩
  | _ => exact ⟨_, rfl⟩

theorem made_of_mem_solveBoxed {first : Report α} {base : Outcome α} {calls : List (Call α)}
    {c : Call α} (h : c ∈ (p.solveBoxed o solver first base calls).calls) :
    c ∈ calls ∨ ∃ columns call, p.smoothCall o columns = .ok call ∧ c = .smooth call := by
  rw [solveBoxed] at h
  cases hbox : p.columns.box o.boxLimit with
  | error e =>
    simp only [hbox, bind, Except.bind] at h
    exact .inl h
  | ok box =>
    cases hcall : p.smoothCall o box with
    | error e =>
      simp only [hbox, hcall, bind, Except.bind] at h
      exact .inl h
    | ok call =>
      simp only [hbox, hcall, bind, Except.bind, pure, Except.pure] at h
      have hmade : c ∈ calls ++ [.smooth call] := by
        split at h
        · exact h
        · split at h <;> exact h
      rcases List.mem_append.mp hmade with hc | hc
      · exact .inl hc
      · exact .inr ⟨box, call, hcall, List.mem_singleton.mp hc⟩

theorem made_of_mem_solveSmooth {c : Call α} (h : c ∈ (p.solveSmooth o solver).calls) :
    ∃ columns call, p.smoothCall o columns = .ok call ∧ c = .smooth call := by
  have hend := p.solveSmooth_end o solver
  generalize p.solveSmooth o solver = a at *
  cases hend with
  | unprepared e => cases h
  | raised made => exact ⟨_, _, made, List.mem_singleton.mp h⟩
  | retried made =>
    rcases made_of_mem_solveBoxed h with hc | hmade
    · exact ⟨_, _, made, List.mem_singleton.mp hc⟩
    · exact hmade
  | concluded error made => exact ⟨_, _, made, List.mem_singleton.mp h⟩

theorem solveSmooth_first_call {call : SmoothCall α} (solver : Solver α)
    (hcontinuous : ∀ t ∈ p.types, t = .continuous) (hcall : p.smoothCall o p.columns = .ok call) :
    ∃ more, (p.solveSmooth o solver).calls = .smooth call :: more := by
  have hend := p.solveSmooth_end o solver
  generalize p.solveSmooth o solver = a at *
  cases hend with
  | unprepared e h =>
    obtain ⟨t, ht, hne⟩ := h call hcall
    exact absurd (hcontinuous t ht) hne
  | raised made =>
    cases hcall.symm.trans made
    exact ⟨[], rfl⟩
  | retried made =>
    cases hcall.symm.trans made
    exact p.calls_of_solveBoxed o solver _ _ [.smooth call]
  | concluded error made =>
    cases hcall.symm.trans made
    exact ⟨[], rfl⟩

theorem accept_point (r : Report α) (base : Outcome α)
    (reduced : Except Error (List α)) : (p.accept r base reduced).1.point = r.point := by
  cases hvalue : p.objective r.point with
  | error e => simp [accept, hvalue]
  | ok v =>
    cases reduced with
    | error e => simp [accept, hvalue]
    | ok costs => simp [accept, hvalue]

theorem report_of_conclude {r : Report α} {base : Outcome α}
    (hbase : base.point = none) (h : (p.conclude o r base).1.point = some x) :
    r.success = true ∧ r.point = some x := by
  cases hsuccess : r.success with
  | true =>
    simp only [conclude, hsuccess, if_true, accept_point] at h
    exact ⟨rfl, h⟩
  | false =>
    simp only [conclude, hsuccess, Bool.false_eq_true, if_false] at h
    split at h
    · cases hviolation : p.violation r.point with
      | error e => simp [hviolation, hbase] at h
      | ok v =>
        simp only [hviolation] at h
        split at h <;> simp [hbase] at h
    · simp [hbase] at h

theorem of_replace {box : Bounds α} {r : Report α} (h : p.judgeRetry o box r = .replace) :
    r.success = true ∧ p.pressesBox box o.boxLimit r.point = .ok false := by
  rw [judgeRetry] at h
  split at h
  · cases h
  · split at h
    · cases h
    · split at h
      · cases h
      · cases h
      · rename_i hpresses
        split at h
        · rename_i hsuccess
          exact ⟨hsuccess, hpresses⟩
        · cases h

structure TakesOver (p : Program α) (o : Options α) (solver : Solver α) (call : SmoothCall α)
    (r : Report α) : Prop where
  made : ∃ box, p.columns.box o.boxLimit = .ok box ∧ p.smoothCall o box = .ok call ∧
    p.pressesBox box o.boxLimit r.point = .ok false
  answer : solver 1 (.smooth call) = .returned r
  success : r.success = true

theorem takesOver_of_solveBoxed {first : Report α} {base : Outcome α} {calls : List (Call α)}
    (hbase : base.point = none) (hfirst : first.success = false)
    (h : (p.solveBoxed o solver first base calls).outcome.point = some x) :
    ∃ call r, TakesOver p o solver call r ∧ r.point = some x ∧
      (p.solveBoxed o solver first base calls).calls = calls ++ [.smooth call] := by
  have hend := p.solveBoxed_end o solver first base calls
  generalize p.solveBoxed o solver first base calls = a at *
  cases hend with
  | unprepared e => simp [hbase] at h
  | raised => simp [hbase] at h
  | unjudged e => simp [hbase] at h
  | pressed => simp [hbase] at h
  | kept error =>
    -- The first report would stand, but it was no success.
    have hreport := report_of_conclude (by exact hbase) h
    rw [hfirst] at hreport
    cases hreport.1
  | @replaced box call r error hretried hjudge =>
    obtain ⟨hsuccess, hpresses⟩ := of_replace hjudge
    obtain ⟨_, hpoint⟩ := report_of_conclude (by exact hbase) h
    exact ⟨call, r, ⟨⟨box, hretried.inBox, hretried.made, hpresses⟩, hretried.answer, hsuccess⟩,
      hpoint, rfl⟩

theorem calls_of_solveSmooth (h : (p.solveSmooth o solver).outcome.point = some x) :
    ∃ call, p.smoothCall o p.columns = .ok call ∧
      ((∃ r, solver 0 (.smooth call) = .returned r ∧ r.success = true ∧ r.point = some x ∧
          (p.solveSmooth o solver).calls = [.smooth call]) ∨
        ∃ boxed r, TakesOver p o solver boxed r ∧ r.point = some x ∧
          (p.solveSmooth o solver).calls = [.smooth call, .smooth boxed]) := by
  have hend := p.solveSmooth_end o solver
  generalize p.solveSmooth o solver = a at *
  cases hend with
  | unprepared e => simp [Outcome.fresh] at h
  | raised => simp [Outcome.fresh] at h
  | @retried call r made answer hfailed =>
    obtain ⟨boxed, r', htakes, hpoint, hcalls⟩ := takesOver_of_solveBoxed (by rfl) hfailed h
    exact ⟨call, made, .inr ⟨boxed, r', htakes, hpoint, hcalls⟩⟩
  | @concluded call r error made answer =>
    obtain ⟨hsuccess, hpoint⟩ := report_of_conclude (by rfl) h
    exact ⟨call, made, .inl ⟨r, answer, hsuccess, hpoint, rfl⟩⟩

end Program

end ConeLift
