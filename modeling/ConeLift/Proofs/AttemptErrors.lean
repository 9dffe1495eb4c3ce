import ConeLift.Proofs.Gradients
import ConeLift.Proofs.SessionErrors
import ConeLift.Proofs.Split

namespace ConeLift

theorem QuadraticRow.value_ok {q : QuadraticRow Extended} {x : List Extended}
    (h : q.Fits x.length) : ∃ v, q.value x = .ok v := by
  obtain ⟨hlinear, hrow, hcol⟩ := h.parts
  obtain ⟨xs, hxs, hxsLength⟩ := gather_ok x hlinear
  obtain ⟨rs, hrs, hrsLength⟩ := gather_ok x hrow
  obtain ⟨cs, hcs, hcsLength⟩ := gather_ok x hcol
  have hlinearCoef : ¬q.linearCoef.length ≠ xs.length := by rw [hxsLength, h.linear, not_not]
  have hcoef : q.coef.length = rs.length := by rw [hrsLength, h.square, h.coef]
  have hhalfLength : (List.zipWith (· * ·) q.coef rs).length = cs.length := by
    simp [hcoef, hrsLength, hcsLength, h.square]
  have hhalf := Vec.zip_of_length_eq (· * ·) hcoef
  have hproducts := Vec.zip_of_length_eq (· * ·) hhalfLength
  simp only [value, hxs, hlinearCoef, hrs, hhalf, hcs, hproducts, bind, Except.bind, if_false]
  exact ⟨_, rfl⟩

namespace Program

variable {p : Program Extended} {o : Options Extended} {solver : Solver Extended}
  {r : Report Extended} {base : Outcome Extended} {x : List Extended}

section Shaped

variable (hp : p.Shaped)

include hp

theorem rows_eq_tabulate : p.rows = .tabulate p.matrix.numRows p.rows.pair :=
  p.rows.eq_tabulate hp.rowLower hp.rowUpper

theorem linearCall_ok (o : Options Extended) : ∃ call, p.linearCall o = .ok call := by
  have hsplit := SplitRows.sparse_tabulate p.matrix p.rows.pair
  rw [← rows_eq_tabulate hp] at hsplit
  simp only [linearCall, hsplit, bind, Except.bind, pure, Except.pure]
  exact ⟨_, rfl⟩

theorem smoothCall_ok (o : Options Extended) (columns : Bounds Extended) :
    ∃ call, p.smoothCall o columns = .ok call := by
  have hdense : p.matrix.toDense = (List.range p.matrix.numRows).map
      fun i => p.matrix.toDense.getD i [] := by
    rw [← p.matrix.length_toDense]
    exact eq_map_range p.matrix.toDense []
  have hsplit := SplitRows.dense_tabulate p.matrix.numRows
    (fun i => p.matrix.toDense.getD i []) p.rows.pair
  rw [← hdense, ← rows_eq_tabulate hp] at hsplit
  simp only [smoothCall, hsplit, bind, Except.bind, pure, Except.pure]
  exact ⟨_, rfl⟩

theorem box_ok (limit : Extended) : ∃ box, p.columns.box limit = .ok box := by
  have hzip (f : Extended → Extended → Extended) :=
    Vec.zip_of_length_eq f (hp.lower.trans hp.upper.symm)
  simp only [Bounds.box, hzip, bind, Except.bind, pure, Except.pure]
  exact ⟨_, rfl⟩

theorem pressesBox_ok (box : Bounds Extended) (limit : Extended)
    (hx : x.length = p.cost.length) : ∃ b, p.pressesBox box limit (some x) = .ok b := by
  unfold pressesBox
  simp only
  split
  · exact ⟨_, rfl⟩
  · exact ⟨_, rfl⟩
  · rename_i xs _ hxs
    obtain rfl : x = xs := Option.some.inj hxs
    exact ⟨_, if_pos (hx.trans hp.lower.symm)⟩

end Shaped

theorem violation_ok (hp : p.Sound) (hx : x.length = p.cost.length) :
    ∃ v, p.violation (some x) = .ok v := by
  obtain ⟨values, hvalues⟩ : ∃ values, p.quadratics.mapM (fun q => do
      return (← q.value x) - q.bound) = .ok values := by
    apply exists_mapM_of_forall
    intro q hq
    obtain ⟨v, hv⟩ := QuadraticRow.value_ok (x := x) (by rw [hx]; exact hp.quadratics q hq)
    refine ⟨v - q.bound, ?_⟩
    rw [hv]
    rfl
  have hlength : ¬x.length ≠ p.matrix.numCols := by rw [hp.cols, hx, not_not]
  rw [violation]
  split
  · rw [excesses, hvalues]
    simp only [hlength, if_false]
    exact ⟨_, rfl⟩
  · exact ⟨_, rfl⟩

def Reads (p : Program Extended) (r : Report Extended) : Prop :=
  ∃ x, r.point = some x ∧ x.length = p.cost.length

theorem accept_error (hr : p.Reads r) (costs : List Extended) :
    (p.accept r base (.ok costs)).2 = none := by
  obtain ⟨x, hx, hlength⟩ := hr
  have hvalue : p.objective r.point = .ok (Vec.dot p.cost x) := by
    rw [hx]
    exact if_pos hlength
  rw [accept, hvalue]

theorem conclude_error (hp : p.Sound) (hr : p.Reads r) : (p.conclude o r base).2 = none := by
  rw [conclude]
  split
  · exact accept_error hr _
  · obtain ⟨x, hx, hlength⟩ := hr
    obtain ⟨v, hv⟩ := violation_ok hp hlength
    rw [hx, hv]
    simp only
    split
    · split <;> rfl
    · rfl

theorem judgeRetry_ne_failed (hp : p.Sound) (hr : p.Reads r) (box : Bounds Extended)
    (e : Error) : p.judgeRetry o box r ≠ .failed e := by
  obtain ⟨x, hx, hlength⟩ := hr
  obtain ⟨v, hv⟩ := violation_ok hp hlength
  obtain ⟨b, hb⟩ := pressesBox_ok hp.toShaped box o.boxLimit hlength
  rw [judgeRetry, hx, hv, hb]
  simp only
  split
  · rintro ⟨⟩
  · cases b with
    | true => rintro ⟨⟩
    | false =>
      simp only
      split
      · rintro ⟨⟩
      · rintro ⟨⟩

end Program

def Attempt.OnlyRaised (a : Attempt Extended) (solver : Solver Extended) : Prop :=
  ∀ e, a.error = some e → ∃ i c, a.calls[i]? = some c ∧ solver i c = .raised e

theorem Attempt.onlyRaised_of_none {a : Attempt Extended} {solver : Solver Extended}
    (h : a.error = none) : a.OnlyRaised solver := by
  intro e he
  rw [h] at he
  cases he

theorem Attempt.raised_or_answered {a : Attempt Extended} {solver : Solver Extended}
    (hheeds : a.Heeds solver) (honly : a.OnlyRaised solver) :
    (∃ i c e, a.calls[i]? = some c ∧ solver i c = .raised e ∧ a.error = some e) ∨
      a.error = none ∧ solver.Answers a.calls := by
  cases herror : a.error with
  | some e =>
    obtain ⟨i, c, hc, hraised⟩ := honly e herror
    exact .inl ⟨i, c, e, hc, hraised, rfl⟩
  | none =>
    refine .inr ⟨rfl, ?_⟩
    intro i c hc
    cases hanswer : solver i c with
    | returned r => exact ⟨r, rfl⟩
    | raised e =>
      have haborted := hheeds i c e hc hanswer
      rw [haborted.error] at herror
      cases herror

def Solver.ShowsPoints (solver : Solver Extended) : Prop :=
  ∀ i call r, solver i (.smooth call) = .returned r →
    ∃ x, r.point = some x ∧ x.length = call.cost.length

namespace Program

variable {p : Program Extended} {o : Options Extended} {solver : Solver Extended}

theorem reads_of_showsPoints (hshows : solver.ShowsPoints) {columns : Bounds Extended}
    {call : SmoothCall Extended} {i : ℕ} {r : Report Extended}
    (hcall : p.smoothCall o columns = .ok call) (hr : solver i (.smooth call) = .returned r) :
    p.Reads r := by
  obtain ⟨x, hx, hlength⟩ := hshows i call r hr
  exact ⟨x, hx, hlength.trans (numVar_smoothCall hcall)⟩

theorem solveLinear_onlyRaised (hp : p.Shaped) (hsolver : solver.WellFormed) :
    (p.solveLinear o solver).OnlyRaised solver := by
  obtain ⟨call, hcall⟩ := linearCall_ok hp o
  rw [solveLinear, hcall]
  simp only
  cases hr : solver 0 (.linear call) with
  | raised e =>
    rintro _ ⟨⟩
    exact ⟨0, .linear call, rfl, hr⟩
  | returned r =>
    apply Attempt.onlyRaised_of_none
    simp only
    split
    · rename_i hsuccess
      have hwell := hsolver 0 (.linear call) r hr
      rw [numVar_linearCall hcall] at hwell
      obtain ⟨costs, hcosts, _⟩ := reducedCosts_ok hwell hsuccess
      rw [hcosts]
      exact accept_error (hwell.point hsuccess) costs
    · rfl

theorem solveBoxed_onlyRaised (hp : p.Sound) (hshows : solver.ShowsPoints)
    {first : Report Extended} (hfirst : p.Reads first) (base : Outcome Extended)
    (call : SmoothCall Extended) :
    (p.solveBoxed o solver first base [.smooth call]).OnlyRaised solver := by
  obtain ⟨box, hbox⟩ := box_ok hp.toShaped o.boxLimit
  obtain ⟨boxed, hboxed⟩ := smoothCall_ok hp.toShaped o box
  simp only [solveBoxed, hbox, hboxed, bind, Except.bind, pure, Except.pure]
  cases hr : solver 1 (.smooth boxed) with
  | raised e =>
    rintro _ ⟨⟩
    exact ⟨1, .smooth boxed, rfl, hr⟩
  | returned r =>
    have hreads : p.Reads r := reads_of_showsPoints hshows hboxed hr
    apply Attempt.onlyRaised_of_none
    simp only
    cases hjudge : p.judgeRetry o box r with
    | failed e => exact absurd hjudge (judgeRetry_ne_failed hp hreads box e)
    | unbounded => rfl
    | keep => exact conclude_error hp hfirst
    | replace => exact conclude_error hp hreads

theorem solveSmooth_onlyRaised (hp : p.Sound) (hcontinuous : ∀ t ∈ p.types, t = .continuous)
    (hshows : solver.ShowsPoints) : (p.solveSmooth o solver).OnlyRaised solver := by
  have htypes : p.types.any (· ≠ .continuous) = false := by simpa using hcontinuous
  obtain ⟨call, hcall⟩ := smoothCall_ok hp.toShaped o p.columns
  rw [solveSmooth, htypes, if_neg Bool.false_ne_true, hcall]
  simp only
  cases hr : solver 0 (.smooth call) with
  | raised e =>
    rintro _ ⟨⟩
    exact ⟨0, .smooth call, rfl, hr⟩
  | returned r =>
    have hreads : p.Reads r := reads_of_showsPoints hshows hcall hr
    simp only
    split
    · exact solveBoxed_onlyRaised hp hshows hreads _ call
    · exact Attempt.onlyRaised_of_none (conclude_error hp hreads)

theorem solve_onlyRaised (hp : p.Sound) (hcontinuous : ∀ t ∈ p.types, t = .continuous)
    (hsolver : solver.WellFormed) (hshows : solver.ShowsPoints) :
    (p.solve o solver).OnlyRaised solver := by
  rw [solve]
  split
  · exact solveLinear_onlyRaised hp.toShaped hsolver
  · exact solveSmooth_onlyRaised hp hcontinuous hshows

end Program

end ConeLift
