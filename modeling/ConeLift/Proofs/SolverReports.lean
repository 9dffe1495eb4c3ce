import Mathlib.Tactic
import ConeLift.Proofs.Outcomes
import ConeLift.Solver.Basic

namespace ConeLift

theorem forall₂_of_mapM_some {β γ : Type} {f : β → Option γ} {xs : List β} {ys : List γ}
    (h : xs.mapM f = some ys) : List.Forall₂ (fun x y => f x = some y) xs ys := by
  induction xs generalizing ys with
  | nil =>
    obtain rfl : [] = ys := Option.some.inj h
    exact .nil
  | cons x xs ih =>
    rw [List.mapM_cons] at h
    obtain ⟨y, hy, h⟩ := Option.bind_eq_some_iff.mp h
    obtain ⟨zs, hzs, h⟩ := Option.bind_eq_some_iff.mp h
    obtain rfl : y :: zs = ys := Option.some.inj h
    exact .cons hy (ih hzs)

namespace BoundedProgram

variable {p : BoundedProgram}

structure Sized (p : BoundedProgram) : Prop where
  bounds : p.bounds.length = p.cost.length
  coefs : ∀ r ∈ p.rows ++ p.equations, r.1.length = p.cost.length

def Verdict.Fits (n : ℕ) : Verdict → Prop
  | .optimal x costs => x.length = n ∧ costs.length = n
  | _ => True

theorem length_gather (splits : List Split) (xs : List ℚ) :
    (gather splits xs).length = splits.length := by
  induction splits generalizing xs with
  | nil => rfl
  | cons s splits ih => simp [gather, ih]

theorem Sized.length_reducedCosts (h : p.Sized) (prices : List ℚ) :
    (p.reducedCosts prices).length = p.cost.length := by
  refine List.foldlRecOn _ _ (motive := fun c : List ℚ => c.length = p.cost.length) rfl ?_
  intro c hc a ha
  obtain ⟨r, hr, y, rfl⟩ : ∃ r ∈ p.rows ++ p.equations, ∃ y : ℚ, a = r.1.map (y * ·) := by
    obtain ⟨i, hi, rfl⟩ := List.getElem_of_mem ha
    rw [List.getElem_zipWith]
    exact ⟨_, List.getElem_mem _, _, rfl⟩
  simp [hc, h.coefs r hr]

theorem Sized.solve_fits (h : p.Sized) : p.solve.Fits p.cost.length := by
  rw [solve]
  split
  · trivial
  · simp only
    split
    · trivial
    · trivial
    · trivial
    · refine ⟨?_, h.length_reducedCosts _⟩
      rw [length_gather, List.length_map, h.bounds]

theorem length_of_mem_cut {bounds part : List (Option ℚ × Option ℚ)} {j : ℕ} {x : ℚ}
    (h : part ∈ cut bounds j x) : part.length = bounds.length := by
  simp only [cut, List.mem_cons, List.not_mem_nil, or_false] at h
  rcases h with rfl | rfl
  · exact List.length_set
  · exact List.length_set

theorem search_nil_fits {n : ℕ} (whole : List Bool) (fuel : ℕ) (best : Option (List ℚ))
    (hbest : ∀ x, best = some x → x.length = n) : (p.search whole fuel [] best).Fits n := by
  cases best with
  | none =>
    rw [search]
    trivial
  | some x =>
    rw [search]
    exact ⟨hbest x rfl, (List.length_map _).trans (hbest x rfl)⟩

theorem Sized.search_fits (h : p.Sized) (whole : List Bool) (fuel : ℕ)
    (left : List (List (Option ℚ × Option ℚ))) (best : Option (List ℚ))
    (hleft : ∀ bounds ∈ left, bounds.length = p.cost.length)
    (hbest : ∀ x, best = some x → x.length = p.cost.length) :
    (p.search whole fuel left best).Fits p.cost.length := by
  induction fuel generalizing left best with
  | zero =>
    cases left with
    | nil => exact search_nil_fits whole 0 best hbest
    | cons bounds rest =>
      rw [search]
      trivial
  | succ fuel ih =>
    cases left with
    | nil => exact search_nil_fits whole (fuel + 1) best hbest
    | cons bounds rest =>
      obtain ⟨hbounds, hrest⟩ := List.forall_mem_cons.mp hleft
      have hfits := Sized.solve_fits (p := { p with bounds }) ⟨hbounds, h.coefs⟩
      rw [search]
      split
      · exact ih rest best hrest hbest
      · trivial
      · trivial
      · rename_i x costs hx
        rw [hx] at hfits
        extract_lets isWorse
        split
        · exact ih rest best hrest hbest
        · split
          · apply ih rest (some x) hrest
            rintro _ ⟨⟩
            exact hfits.1
          · apply ih _ best _ hbest
            intro part hpart
            rcases List.mem_append.mp hpart with hcut | hmem
            · exact (length_of_mem_cut hcut).trans hbounds
            · exact hrest part hmem

theorem Sized.solveWhole_fits (h : p.Sized) (whole : Option (List Bool)) :
    (p.solveWhole whole).Fits p.cost.length := by
  cases whole with
  | none => exact h.solve_fits
  | some whole =>
    refine h.search_fits whole nodeLimit [p.bounds] none ?_ nofun
    simpa using h.bounds

end BoundedProgram

theorem Report.wellFormed_of_failed {α : Type} {r : Report α} {n : ℕ} (hfailed : r.success = false)
    (hcode : r.code ≠ 0) : r.WellFormed n := by
  have hsuccess : r.success ≠ true := by simp [hfailed]
  exact ⟨by simp [hfailed, hcode], (absurd · hsuccess), (absurd · hsuccess), (absurd · hsuccess)⟩

namespace LinearCall

variable {c : LinearCall Float}

theorem length_of_exactRow {n : ℕ} {row : List (ℕ × Float)} {b : Float} {r : List ℚ × ℚ}
    (h : exactRow n row b = some r) : r.1.length = n := by
  obtain ⟨_, _, h⟩ := Option.bind_eq_some_iff.mp h
  obtain ⟨_, _, h⟩ := Option.bind_eq_some_iff.mp h
  cases h
  simp

theorem length_of_mem_exactRows {A : Option (RowMatrix Float)} {b : Option (List Float)} {n : ℕ}
    {rows : List (List ℚ × ℚ)} (h : exactRows A b = some rows)
    (hfits : ∀ B, A = some B → B.numCols = n) : ∀ r ∈ rows, r.1.length = n := by
  cases A with
  | none =>
    obtain rfl : [] = rows := Option.some.inj h
    simp
  | some B =>
    have hrows := forall₂_of_mapM_some h
    simp only [Option.getD_some, hfits B rfl] at hrows
    intro r hr
    obtain ⟨i, hi, rfl⟩ := List.getElem_of_mem hr
    exact length_of_exactRow (hrows.get (hrows.length_eq ▸ hi) hi)

theorem sized_inFractions {p : BoundedProgram} (h : c.inFractions? = some p) :
    p.Sized ∧ p.cost.length = c.cost.length := by
  rw [inFractions?] at h
  split at h
  · cases h
  · rename_i hsized
    simp only [Bool.or_eq_true, not_or, Bool.not_eq_true', Bool.not_eq_false, isSized,
      Bool.and_eq_true, decide_eq_true_eq, Option.all_eq_true] at hsized
    obtain ⟨_, ⟨hbounds, hmatrix⟩, hequations⟩ := hsized
    obtain ⟨cost, hcost, h⟩ := Option.bind_eq_some_iff.mp h
    obtain ⟨rows, hrows, h⟩ := Option.bind_eq_some_iff.mp h
    obtain ⟨equations, hequal, h⟩ := Option.bind_eq_some_iff.mp h
    cases h
    have hlength : cost.length = c.cost.length := (forall₂_of_mapM_some hcost).length_eq.symm
    refine ⟨⟨?_, ?_⟩, hlength⟩
    · simp only [List.length_map, hlength, hbounds]
    · simp only [List.forall_mem_append, hlength]
      exact ⟨length_of_mem_exactRows hrows hmatrix, length_of_mem_exactRows hequal hequations⟩

theorem solve_wellFormed {r : Report Float} (h : c.solve = .returned r) :
    r.WellFormed c.cost.length := by
  rw [solve] at h
  split at h
  · cases h
  · rename_i p hp
    obtain ⟨hp, hlength⟩ := sized_inFractions hp
    have hfits := hp.solveWhole_fits c.whole
    rw [hlength] at hfits
    split at h
    · rename_i x costs hoptimal
      rw [hoptimal] at hfits
      obtain ⟨hx, hcosts⟩ := hfits
      cases h
      refine ⟨by simp [report], fun _ => ⟨_, rfl, ?_⟩, ?_, ?_⟩
      · rw [List.length_map, hx]
      · rintro - _ ⟨⟩
        rw [List.length_map, hcosts]
      · rintro - _ ⟨⟩
        rw [List.length_map, List.length_map, hcosts]
    all_goals
      cases h
      exact Report.wellFormed_of_failed rfl (by decide)

end LinearCall

namespace FormProgram

def Verdict.Fits (n : ℕ) : Verdict → Prop
  | .optimal x => x.length = n
  | _ => True

theorem solve_fits (p : FormProgram) : p.solve.Fits p.numVars := by
  rw [solve]
  split
  · trivial
  · split
    · simp [Verdict.Fits, Elimination.complete]
    · rename_i v hv
      cases hverdict : solveFree p.numVars _ _ with
      | optimal x => exact absurd hverdict (hv x)
      | infeasible => trivial
      | unbounded => trivial
      | undecided => trivial

end FormProgram

namespace SmoothCall

open FormProgram (Verdict)

variable {c : SmoothCall Float}

theorem noPointCode_ne_zero : noPointCode ≠ 0 := by decide

theorem gaveUpCode_ne_zero : gaveUpCode ≠ 0 := by decide

theorem better_fits {n : ℕ} {cost : Form} {v w : Verdict} (hv : v.Fits n) (hw : w.Fits n) :
    (better cost v w).Fits n := by
  cases v <;> cases w <;> simp only [better] <;> try assumption
  split
  · exact hw
  · exact hv

theorem numVars_of_mem_programs {ps : List FormProgram} (h : c.programs? = some ps) :
    ∀ p ∈ ps, p.numVars = c.cost.length := by
  obtain ⟨regions, _, h⟩ := Option.bind_eq_some_iff.mp h
  obtain ⟨cost, _, h⟩ := Option.bind_eq_some_iff.mp h
  obtain ⟨equations, _, h⟩ := Option.bind_eq_some_iff.mp h
  obtain ⟨rows, _, h⟩ := Option.bind_eq_some_iff.mp h
  cases h
  intro p hp
  obtain ⟨blocks, _, rfl⟩ := List.mem_map.mp hp
  rfl

theorem verdict_fits (c : SmoothCall Float) : c.verdict.Fits c.cost.length := by
  rw [verdict]
  split
  · trivial
  · rename_i ps hps
    refine List.foldlRecOn ps _ (motive := fun v : Verdict => v.Fits c.cost.length) trivial ?_
    intro v hv p hp
    have hsize := numVars_of_mem_programs hps p hp
    exact better_fits hv (hsize ▸ p.solve_fits)

theorem solve_wellFormed {r : Report Float} (h : c.solve = .returned r) :
    r.WellFormed c.cost.length := by
  have hfits := c.verdict_fits
  rw [solve] at h
  split at h
  · cases h
  · split at h
    · rename_i x hx
      rw [hx] at hfits
      cases h
      refine ⟨by simp [report, foundCode], fun _ => ⟨_, rfl, ?_⟩, nofun, nofun⟩
      exact (List.length_map _).trans hfits
    · cases h
      exact Report.wellFormed_of_failed rfl noPointCode_ne_zero
    · cases h
      exact Report.wellFormed_of_failed rfl gaveUpCode_ne_zero
    · cases h
      exact Report.wellFormed_of_failed rfl gaveUpCode_ne_zero

end SmoothCall

theorem solve_wellFormed : Solver.WellFormed solve := by
  intro i call r h
  cases call with
  | linear c => exact c.solve_wellFormed h
  | smooth c => exact c.solve_wellFormed h

/-- The program never announces an optimum that it does not have. -/
theorem Program.solve_settled_builtIn (p : Program Float) (o : Options Float) :
    (p.solve o ConeLift.solve).outcome.Settled p.cost.length :=
  p.solve_settled solve_wellFormed o

end ConeLift
