import ConeLift.Proofs.AttemptErrors
import ConeLift.Proofs.UnboundedVerdicts

namespace ConeLift

theorem exists_boxPair_above {b : Extended × Extended} (h : Scalar.isFinite b.2 = false)
    (limit : ℚ) : ∃ s, (boxPair limit b).2 = .finite s := by
  have hupper : (boxPair limit b).2 =
      (if Scalar.isFinite b.1 then b.1 else 0) + .finite limit := if_neg (by simp [h])
  rw [hupper]
  cases b.1 with
  | finite l => exact ⟨l + limit, rfl⟩
  | _ => exact ⟨0 + limit, rfl⟩

theorem exists_boxPair_below {b : Extended × Extended} (h : Scalar.isFinite b.1 = false)
    (limit : ℚ) : ∃ s, (boxPair limit b).1 = .finite s := by
  have hlower : (boxPair limit b).1 =
      (if Scalar.isFinite b.2 then b.2 else 0) - .finite limit := if_neg (by simp [h])
  rw [hlower]
  cases b.2 with
  | finite u => exact ⟨u - limit, Extended.finite_sub u limit⟩
  | _ => exact ⟨0 - limit, Extended.finite_sub 0 limit⟩

/-- In the box `c`, the value comes up to a side that took the place of an infinite bound, but for
the margin, or passes it. -/
def Reaches (b c : Extended × Extended) (margin v : ℚ) : Prop :=
  (Scalar.isFinite b.2 = false ∧ ∃ s, c.2 = .finite s ∧ s - margin ≤ v) ∨
    (Scalar.isFinite b.1 = false ∧ ∃ s, c.1 = .finite s ∧ v ≤ s + margin)

structure KeepsAway (b c : Extended × Extended) (margin v : ℚ) : Prop where
  above : Scalar.isFinite b.2 = false → ∃ s, c.2 = .finite s ∧ v < s - margin
  below : Scalar.isFinite b.1 = false → ∃ s, c.1 = .finite s ∧ s + margin < v

section

variable {b : Extended × Extended} {limit margin v : ℚ}

theorem atSide_iff_reaches :
    Program.atSide (.finite margin) (.finite v) b (boxPair limit b) = true ↔
      Reaches b (boxPair limit b) margin v := by
  rw [Program.atSide, Bool.or_eq_true, Bool.and_eq_true, Bool.and_eq_true, Bool.not_eq_true',
    Bool.not_eq_true', Reaches]
  refine or_congr (and_congr_right fun hopen => ?_) (and_congr_right fun hopen => ?_)
  · obtain ⟨s, hs⟩ := exists_boxPair_above hopen limit
    simp [hs]
  · obtain ⟨s, hs⟩ := exists_boxPair_below hopen limit
    simp [hs]

theorem keepsAway_of_not_reaches (h : ¬Reaches b (boxPair limit b) margin v) :
    KeepsAway b (boxPair limit b) margin v := by
  rw [Reaches, not_or] at h
  constructor
  · intro hopen
    obtain ⟨s, hs⟩ := exists_boxPair_above hopen limit
    exact ⟨s, hs, not_le.mp fun hle => h.1 ⟨hopen, s, hs, hle⟩⟩
  · intro hopen
    obtain ⟨s, hs⟩ := exists_boxPair_below hopen limit
    exact ⟨s, hs, not_le.mp fun hle => h.2 ⟨hopen, s, hs, hle⟩⟩

end

def Solver.Responds (solver : Solver Extended) (n : ℕ) : Prop :=
  ∀ i call, call.cost.length = n →
    ∃ r x, solver i (.smooth call) = .returned r ∧ r.point = some x ∧ x.length = n

theorem Report.count_of_whole {α : Type} {r : Report α} {k : ℤ}
    (h : r.iterations = some (k : ℚ)) : r.count = k := by
  simp [count, h]

theorem Report.sum_count_of_whole {α : Type} {runs : List (Report α)} {counts : List ℤ}
    (h : runs.map Report.iterations = counts.map fun k : ℤ => some (k : ℚ)) :
    (runs.map Report.count).sum = counts.sum := by
  induction runs generalizing counts with
  | nil =>
    obtain rfl : counts = [] := by simpa using h.symm
    rfl
  | cons r runs ih =>
    cases counts with
    | nil => cases h
    | cons k counts =>
      rw [List.map_cons, List.map_cons, List.cons.injEq] at h
      rw [List.map_cons, List.sum_cons, List.sum_cons, count_of_whole h.1, ih h.2]

namespace Program

section

variable {α : Type} [Scalar α] {p : Program α} {o : Options α} {r : Report α} {base : Outcome α}

theorem conclude_iterations : (p.conclude o r base).1.iterations = base.iterations := by
  rw [conclude]
  split
  · rw [accept]
    split
    · rfl
    · rfl
  · split
    · split
      · rfl
      · split <;> rfl
    · rfl

theorem conclude_ne_optimal (hfailed : r.success = false) (hcode : r.code ≠ 0) :
    (p.conclude o r base).1.status ≠ .optimal := by
  rw [conclude, if_neg (by simp [hfailed])]
  split
  · split
    · exact Status.noConfusion
    · split <;> exact Status.noConfusion
  · exact Status.ofSmoothCode_ne_optimal hcode

theorem conclude_point (hsuccess : r.success = true) :
    (p.conclude o r base).1.point = r.point := by
  rw [conclude, if_pos hsuccess, accept_point]

end

variable {p : Program Extended} {o : Options Extended} {limit tolerance : ℚ} {z : List ℚ}

theorem exists_finites_of_meets {x : List Extended} (hfeas : o.feasibility = .finite tolerance)
    (h : p.Meets o (some x)) : ∃ z, x = finites z := by
  obtain ⟨v, hv, hle⟩ := h
  rw [violation] at hv
  split at hv
  · rename_i hall
    exact exists_eq_finites (List.all_eq_true.mp hall)
  · rw [← Except.ok.inj hv, hfeas] at hle
    cases hle

def ReachesBox (p : Program Extended) (limit : ℚ) (z : List ℚ) : Prop :=
  ∃ j < p.cost.length,
    Reaches (p.columns.pair j) ((p.boxed limit).pair j) (limit / 100) (coord z j)

def KeepsFromBox (p : Program Extended) (limit : ℚ) (z : List ℚ) : Prop :=
  ∀ j < p.cost.length,
    KeepsAway (p.columns.pair j) ((p.boxed limit).pair j) (limit / 100) (coord z j)

theorem pair_boxed {j : ℕ} (hj : j < p.cost.length) :
    (p.boxed limit).pair j = boxPair limit (p.columns.pair j) := Bounds.pair_tabulate _ hj

theorem Shaped.pressesBox_iff (hp : p.Shaped) (hz : z.length = p.cost.length) :
    p.pressesBox (p.boxed limit) (.finite limit) (some (finites z)) = .ok true ↔
      p.ReachesBox limit z := by
  rw [boxed, pressesBox_eq _ hp.columns_eq hz, Except.ok.injEq, List.any_eq_true, ReachesBox]
  simp only [List.mem_range, atSide_iff_reaches]
  refine exists_congr fun j => and_congr_right fun hj => ?_
  rw [pair_boxed hj]

theorem Shaped.keepsFromBox (hp : p.Shaped) (hz : z.length = p.cost.length)
    (h : p.pressesBox (p.boxed limit) (.finite limit) (some (finites z)) = .ok false) :
    p.KeepsFromBox limit z := by
  intro j hj
  have hside := atSide_of_pressesBox hp.columns_eq hz h j hj
  rw [pair_boxed hj]
  apply keepsAway_of_not_reaches
  rw [← atSide_iff_reaches, hside]
  exact Bool.false_ne_true

/-- The calls of an attempt and the reports that answer them: a first run within the bounds of the
program, and a second one in the box exactly if the first one gives up. -/
structure RunsAs (p : Program Extended) (o : Options Extended) (limit : ℚ)
    (solver : Solver Extended) (calls : List (Call Extended)) (runs : List (Report Extended)) :
    Prop where
  answers : ∀ i, calls[i]?.map (solver i) = runs[i]?.map .returned
  made : ∀ i c, calls[i]? = some c → ∃ call, c = .smooth call ∧
    p.smoothCall o (if i = 0 then p.columns else p.boxed limit) = .ok call
  again : ∃ first more, runs = first :: more ∧ more.length ≤ 1 ∧
    (more.length = 1 ↔ first.success = false ∧ first.code ≠ incompatible)

/-- What the reports say for an outcome. -/
structure Justifies (p : Program Extended) (o : Options Extended) (limit : ℚ)
    (runs : List (Report Extended)) (u : Outcome Extended) : Prop where
  iterations : u.iterations = (runs.map Report.count).sum
  stored : ∀ x, u.point = some x → u.status = .optimal ∧
    ∃ last, runs.getLast? = some last ∧ last.success = true ∧ last.point = some x ∧
      (runs.length = 2 → ∃ z, x = finites z ∧ p.Meets o (some x) ∧ p.KeepsFromBox limit z)
  unbounded : u.status = .unbounded ↔ ∃ first second z, runs = [first, second] ∧
    second.point = some (finites z) ∧ p.Meets o (some (finites z)) ∧ p.ReachesBox limit z
  optimal : (∀ r ∈ runs, r.code = 0 → r.success = true) → u.status = .optimal →
    ∃ x, u.point = some x

theorem justifies_single {r : Report Extended} (hr : p.Reads r)
    (h : r.success = true ∨ r.code = incompatible) :
    p.Justifies o limit [r] (p.conclude o r r.begun).1 := by
  constructor
  · rw [conclude_iterations, List.map_singleton, List.sum_singleton]
    rfl
  · intro x hx
    obtain ⟨hsuccess, hpoint⟩ := report_of_conclude rfl hx
    exact ⟨conclude_status hsuccess, r, rfl, hsuccess, hpoint, fun h => by cases h⟩
  · refine iff_of_false conclude_ne_unbounded ?_
    rintro ⟨first, second, z, hruns, _⟩
    cases hruns
  · intro _ hoptimal
    rcases h with hsuccess | hcode
    · obtain ⟨x, hx, _⟩ := hr
      exact ⟨x, by rw [conclude_point hsuccess, hx]⟩
    · cases hsuccess : r.success with
      | true =>
        obtain ⟨x, hx, _⟩ := hr
        exact ⟨x, by rw [conclude_point hsuccess, hx]⟩
      | false =>
        refine absurd hoptimal (conclude_ne_optimal hsuccess ?_)
        rw [hcode]
        decide

theorem Reads.finites_iff {r : Report Extended} (hr : p.Reads r)
    (hfeas : o.feasibility = .finite tolerance) :
    p.Meets o r.point ↔ ∃ z, r.point = some (finites z) ∧ z.length = p.cost.length ∧
      p.Meets o (some (finites z)) := by
  obtain ⟨x, hx, hlength⟩ := hr
  rw [hx]
  constructor
  · intro hmeets
    obtain ⟨z, rfl⟩ := exists_finites_of_meets hfeas hmeets
    exact ⟨z, rfl, by rwa [length_finites] at hlength, hmeets⟩
  · rintro ⟨z, hz, _, hmeets⟩
    rwa [hz]

theorem judgeRetry_unbounded_iff (hp : p.Shaped) (hfeas : o.feasibility = .finite tolerance)
    (hlimit : o.boxLimit = .finite limit) {r : Report Extended} (hr : p.Reads r) :
    p.judgeRetry o (p.boxed limit) r = .unbounded ↔ ∃ z, r.point = some (finites z) ∧
      p.Meets o (some (finites z)) ∧ p.ReachesBox limit z := by
  rw [judgeRetry_eq_unbounded_iff, hr.finites_iff hfeas, hlimit]
  constructor
  · rintro ⟨⟨z, hz, hlength, hmeets⟩, hpresses⟩
    rw [hz, hp.pressesBox_iff hlength] at hpresses
    exact ⟨z, hz, hmeets, hpresses⟩
  · rintro ⟨z, hz, hmeets, hreaches⟩
    obtain ⟨x, hx, hlength⟩ := hr
    obtain rfl : finites z = x := Option.some.inj (hz.symm.trans hx)
    rw [length_finites] at hlength
    rw [hz, hp.pressesBox_iff hlength]
    exact ⟨⟨z, rfl, hlength, hmeets⟩, hreaches⟩

theorem meets_of_replace {box : Bounds Extended} {r : Report Extended}
    (h : p.judgeRetry o box r = .replace) : p.Meets o r.point := by
  rw [judgeRetry] at h
  split at h
  · cases h
  · rename_i v hv
    split at h
    · cases h
    · rename_i hle
      exact ⟨v, hv, by simpa using hle⟩

theorem judgeRetry_replace (hp : p.Shaped) (hfeas : o.feasibility = .finite tolerance)
    (hlimit : o.boxLimit = .finite limit) {r : Report Extended} (hr : p.Reads r)
    (h : p.judgeRetry o (p.boxed limit) r = .replace) :
    r.success = true ∧ ∃ z, r.point = some (finites z) ∧ p.Meets o (some (finites z)) ∧
      p.KeepsFromBox limit z := by
  obtain ⟨hsuccess, hpresses⟩ := of_replace h
  obtain ⟨z, hz, hlength, hmeets⟩ := (hr.finites_iff hfeas).mp (meets_of_replace h)
  rw [hlimit, hz] at hpresses
  exact ⟨hsuccess, z, hz, hmeets, hp.keepsFromBox hlength hpresses⟩

theorem justifies_pair (hp : p.Sound) (hfeas : o.feasibility = .finite tolerance)
    (hlimit : o.boxLimit = .finite limit) {solver : Solver Extended}
    {first second : Report Extended} {call : SmoothCall Extended} (hsecond : p.Reads second)
    (hfailed : first.success = false)
    (hretried : p.Retried o solver (p.boxed limit) call second) (calls : List (Call Extended)) :
    p.Justifies o limit [first, second]
      (p.solveBoxed o solver first first.begun calls).outcome := by
  have hcounts : first.count + second.count = ([first, second].map Report.count).sum := by
    simp
  have hjudged := judgeRetry_unbounded_iff hp.toShaped hfeas hlimit hsecond
  have hunbounded {status : Status} (h : status ≠ .unbounded)
      (hjudge : p.judgeRetry o (p.boxed limit) second ≠ .unbounded) :
      status = .unbounded ↔ ∃ first' second' z, [first, second] = [first', second'] ∧
        second'.point = some (finites z) ∧ p.Meets o (some (finites z)) ∧
          p.ReachesBox limit z := by
    refine iff_of_false h ?_
    rintro ⟨_, _, z, ⟨⟩, hz⟩
    exact hjudge (hjudged.mpr ⟨z, hz⟩)
  simp only [solveBoxed, hretried.inBox, hretried.made, hretried.answer, bind, Except.bind, pure,
    Except.pure]
  cases hjudge : p.judgeRetry o (p.boxed limit) second with
  | failed e => exact absurd hjudge (judgeRetry_ne_failed hp hsecond _ e)
  | unbounded =>
    obtain ⟨z, hz⟩ := hjudged.mp hjudge
    constructor
    · exact hcounts
    · rintro x ⟨⟩
    · exact iff_of_true rfl ⟨first, second, z, rfl, hz⟩
    · rintro _ ⟨⟩
  | keep =>
    constructor
    · exact conclude_iterations.trans hcounts
    · intro x hx
      -- The first report stands, and it was no success.
      rw [(report_of_conclude (by rfl) hx).1] at hfailed
      cases hfailed
    · exact hunbounded conclude_ne_unbounded (by rw [hjudge]; rintro ⟨⟩)
    · intro hcode hoptimal
      refine absurd hoptimal (conclude_ne_optimal hfailed fun hzero => ?_)
      rw [hcode first List.mem_cons_self hzero] at hfailed
      cases hfailed
  | replace =>
    obtain ⟨hsuccess, z, hz, hmeets, hkeeps⟩ :=
      judgeRetry_replace hp.toShaped hfeas hlimit hsecond hjudge
    constructor
    · exact conclude_iterations.trans hcounts
    · intro x hx
      rw [conclude_point hsuccess, hz] at hx
      obtain rfl := Option.some.inj hx
      exact ⟨conclude_status hsuccess, second, rfl, hsuccess, hz, fun _ => ⟨z, rfl, hmeets, hkeeps⟩⟩
    · exact hunbounded conclude_ne_unbounded (by rw [hjudge]; rintro ⟨⟩)
    · intro _ _
      exact ⟨finites z, by rw [conclude_point hsuccess, hz]⟩

theorem Retried.error_eq_none (hp : p.Sound) {solver : Solver Extended} {box : Bounds Extended}
    {first second : Report Extended} {call : SmoothCall Extended} (hfirst : p.Reads first)
    (hsecond : p.Reads second) (hretried : p.Retried o solver box call second)
    (base : Outcome Extended) (calls : List (Call Extended)) :
    (p.solveBoxed o solver first base calls).error = none := by
  simp only [solveBoxed, hretried.inBox, hretried.made, hretried.answer, bind, Except.bind, pure,
    Except.pure]
  cases hjudge : p.judgeRetry o box second with
  | failed e => exact absurd hjudge (judgeRetry_ne_failed hp hsecond box e)
  | unbounded => rfl
  | keep => exact conclude_error hp hfirst
  | replace => exact conclude_error hp hsecond

theorem exists_reads {solver : Solver Extended} (hsolver : solver.Responds p.cost.length)
    {columns : Bounds Extended} {call : SmoothCall Extended}
    (hcall : p.smoothCall o columns = .ok call) (i : ℕ) :
    ∃ r, solver i (.smooth call) = .returned r ∧ p.Reads r := by
  obtain ⟨r, x, hr, hx, hlength⟩ := hsolver i call (numVar_smoothCall hcall)
  exact ⟨r, hr, x, hx, hlength⟩

theorem exists_runs {solver : Solver Extended} (hp : p.Sound)
    (hcontinuous : ∀ t ∈ p.types, t = .continuous) (hfeas : o.feasibility = .finite tolerance)
    (hlimit : o.boxLimit = .finite limit) (hsolver : solver.Responds p.cost.length) :
    ∃ runs, p.RunsAs o limit solver (p.solveSmooth o solver).calls runs ∧
      p.Justifies o limit runs (p.solveSmooth o solver).outcome ∧
      (p.solveSmooth o solver).error = none := by
  obtain ⟨call, hcall⟩ := smoothCall_ok hp.toShaped o p.columns
  obtain ⟨first, hfirst, hreads⟩ := exists_reads hsolver hcall 0
  by_cases hagain : first.success = false ∧ first.code ≠ incompatible
  · obtain ⟨boxed, hboxed⟩ := smoothCall_ok hp.toShaped o (p.boxed limit)
    obtain ⟨second, hsecond, hreads'⟩ := exists_reads hsolver hboxed 1
    have hretried : p.Retried o solver (p.boxed limit) boxed second :=
      ⟨by rw [hlimit, hp.box_eq], hboxed, hsecond⟩
    rw [solveSmooth_of_gaveUp hcontinuous hcall hfirst hagain.1 hagain.2]
    refine ⟨[first, second], ?_, ?_, hretried.error_eq_none hp hreads hreads' _ _⟩
    · rw [hretried.calls_eq]
      refine ⟨?_, ?_, first, [second], rfl, le_rfl, iff_of_true rfl hagain⟩
      · rintro (_ | _ | i)
        · exact congrArg some hfirst
        · exact congrArg some hsecond
        · rfl
      · rintro (_ | _ | i) c ⟨⟩
        · exact ⟨call, rfl, hcall⟩
        · exact ⟨boxed, rfl, hboxed⟩
    · exact justifies_pair hp hfeas hlimit hreads' hagain.1 hretried _
  · rw [solveSmooth_of_settled hcontinuous hcall hfirst hagain]
    refine ⟨[first], ⟨?_, ?_, first, [], rfl, zero_le_one, iff_of_false zero_ne_one hagain⟩, ?_,
      conclude_error hp hreads⟩
    · rintro (_ | i)
      · exact congrArg some hfirst
      · rfl
    · rintro (_ | i) c ⟨⟩
      exact ⟨call, rfl, hcall⟩
    · apply justifies_single hreads
      cases hsuccess : first.success with
      | true => exact .inl rfl
      | false => exact .inr (not_not.mp fun hcode => hagain ⟨hsuccess, hcode⟩)

end Program

namespace Model

/-- After any session, an attempt to solve a program with quadratic rows and continuous variables
makes the runs that it should, and every outcome is borne out by their reports. -/
theorem run_verdicts_justified (o : Options Extended) (ops : List (Operation Extended))
    {p : Program Extended} {limit tolerance : ℚ} {solver : Solver Extended}
    (hp : (run o ops).program = some p) (hquadratics : p.quadratics ≠ [])
    (hcontinuous : ∀ t ∈ p.types, t = .continuous) (hfeas : o.feasibility = .finite tolerance)
    (hlimit : o.boxLimit = .finite limit) (hsolver : solver.Responds p.cost.length) :
    ∃ u calls runs, (run o ops).optimize o solver = (.ok (), ⟨some p, u⟩, calls) ∧
      p.RunsAs o limit solver calls runs ∧ p.Justifies o limit runs u ∧
      ∀ counts : List ℤ, (runs.map Report.iterations = counts.map fun k : ℤ => some (k : ℚ)) →
        u.iterations = counts.sum := by
  obtain ⟨runs, hruns, hjustified, herror⟩ :=
    Program.exists_runs (run_sound o ops p hp) hcontinuous hfeas hlimit hsolver
  refine ⟨_, _, runs, ?_, hruns, hjustified, ?_⟩
  · rw [optimize, hp]
    simp only [Program.solve_of_quadratics hquadratics, herror]
  · intro counts hcounts
    rw [hjustified.iterations, Report.sum_count_of_whole hcounts]

def gaveUpAt (x : ℚ) (count : ℤ) : Report Extended where
  success := false
  code := 8
  note := .text "stuck"
  point := some [.finite x]
  iterations := some count
  lowerMarginals := none
  upperMarginals := none

def doneAt (x : ℚ) (count : ℤ) : Report Extended where
  success := true
  code := 0
  note := .text "done"
  point := some [.finite x]
  iterations := some count
  lowerMarginals := none
  upperMarginals := none

def stuckThenDone (x y : ℚ) : Solver Extended := fun i _ =>
  .returned (if i = 0 then gaveUpAt x 3 else doneAt y 2)

theorem stuckThenDone_responds (x y : ℚ) : (stuckThenDone x y).Responds 1 := by
  intro i call _
  by_cases hi : i = 0
  · exact ⟨gaveUpAt x 3, [.finite x], by rw [stuckThenDone, if_pos hi], rfl, rfl⟩
  · exact ⟨doneAt y 2, [.finite y], by rw [stuckThenDone, if_neg hi], rfl, rfl⟩

theorem run_verdicts_justified_interval :
    ∃ u calls runs, (run (Options.default Extended) intervalSession).optimize
        (Options.default Extended) (stuckThenDone 5 0) =
          (.ok (), ⟨some intervalProgram, u⟩, calls) ∧
      intervalProgram.RunsAs (Options.default Extended) 10000 (stuckThenDone 5 0) calls runs ∧
      intervalProgram.Justifies (Options.default Extended) 10000 runs u ∧
      u.status = .optimal ∧ u.point = some [.finite 0] ∧ u.iterations = 5 := by
  have hprogram : (run (Options.default Extended) intervalSession).program =
      some intervalProgram := by decide +kernel
  have hfeas : (Options.default Extended).feasibility = .finite (1 / 1000000) := by
    decide +kernel
  have hlimit : (Options.default Extended).boxLimit = .finite 10000 := by decide +kernel
  obtain ⟨u, calls, runs, hoptimize, hruns, hjustified, _⟩ :=
    run_verdicts_justified (Options.default Extended) intervalSession hprogram
      (by simp [intervalProgram]) (by simp [intervalProgram]) hfeas hlimit
      (stuckThenDone_responds 5 0)
  have hmodel : ((run (Options.default Extended) intervalSession).optimize
      (Options.default Extended) (stuckThenDone 5 0)).2.1.outcome = u := by rw [hoptimize]
  refine ⟨u, calls, runs, hoptimize, hruns, hjustified, ?_, ?_, ?_⟩
  · rw [← hmodel]
    decide +kernel
  · rw [← hmodel]
    decide +kernel
  · rw [← hmodel]
    decide +kernel

def NearsSide (b c : Extended × Extended) (margin v : ℚ) : Prop :=
  (Scalar.isFinite b.2 = false ∧ ∃ s, c.2 = .finite s ∧ |v - s| ≤ margin) ∨
    (Scalar.isFinite b.1 = false ∧ ∃ s, c.1 = .finite s ∧ |v - s| ≤ margin)

def looseSession : List (Operation Extended) :=
  [.load
      { matrix := .compressed ⟨1, []⟩
        lower := .ofList [.negInfinity]
        upper := .ofList [.infinity]
        cost := .ofList [.finite 1]
        rowLower := .ofList []
        rowUpper := .ofList [] } "min",
    .addQuadratic ⟨[], [], [0], [0], [.ok (.finite (-1))], .ok 0⟩ "<="]

def looseProgram : Program Extended where
  matrix := ⟨1, []⟩
  columns := ⟨[.negInfinity], [.infinity]⟩
  cost := finites [1]
  rows := ⟨[], []⟩
  sense := .minimize
  quadratics := [⟨[], [], [0], [0], [.finite (-1)], 0⟩]
  types := [.continuous]

theorem unbounded_beyond_box :
    (run (Options.default Extended) looseSession).program = some looseProgram ∧
      ((run (Options.default Extended) looseSession).optimize (Options.default Extended)
        (stuckThenDone 1 20000)).2.1.status = .unbounded ∧
      ¬∃ j < looseProgram.cost.length, NearsSide (looseProgram.columns.pair j)
        ((looseProgram.boxed 10000).pair j) (10000 / 100) (coord [20000] j) := by
  refine ⟨by decide +kernel, by decide +kernel, ?_⟩
  rintro ⟨j, hj, hnear⟩
  obtain rfl : j = 0 := Nat.lt_one_iff.mp hj
  have hbox : boxPair 10000 (looseProgram.columns.pair 0) =
      (.finite (0 - 10000), .finite (0 + 10000)) := boxPair_free 10000
  rw [Program.pair_boxed hj, hbox] at hnear
  rcases hnear with ⟨_, s, hs, hle⟩ | ⟨_, s, hs, hle⟩
  · obtain rfl := Extended.finite.inj hs
    norm_num [coord] at hle
  · obtain rfl := Extended.finite.inj hs
    norm_num [coord] at hle

end Model

end ConeLift
