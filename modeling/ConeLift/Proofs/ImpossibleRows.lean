import ConeLift.Proofs.AttemptErrors
import ConeLift.Proofs.LinearSoundness
import ConeLift.Proofs.RowProducts
import ConeLift.Proofs.Session
import ConeLift.Proofs.SmoothAttempts
import ConeLift.Proofs.SmoothCalls
import ConeLift.Proofs.Violation

/-!
Rows with a bound that is infinite in the wrong direction. No finite value meets such a bound, but
only finite bounds are handed to the solver, so a row without one vanishes.
-/

namespace ConeLift

def LinearCall.RowsHold (c : LinearCall Extended) (x : List ℚ) : Prop :=
  (∀ A ∈ c.matrix, ∀ b ∈ c.bound,
      List.Forall₂ (fun v w => Scalar.le v w = true) (A.mulVec (finites x)) b) ∧
    ∀ A ∈ c.equations, ∀ b ∈ c.values,
      List.Forall₂ (fun v w => Scalar.eq v w = true) (A.mulVec (finites x)) b

def SmoothCall.RowsHold (c : SmoothCall Extended) (x : List ℚ) : Prop :=
  (c.equationBlock (finites x)).Hold ∧ (c.inequalityBlock (finites x)).Hold

def Call.RowsHold : Call Extended → List ℚ → Prop
  | .linear c, x => c.RowsHold x
  | .smooth c, x => c.RowsHold x

namespace Program

variable {p : Program Extended} {o : Options Extended} {x : List ℚ}

def rowAt (p : Program Extended) (x : List ℚ) (i : ℕ) : Extended :=
  RowMatrix.rowDot (p.matrix.rows.getD i []) (finites x)

/-- The point meets every finite row bound, but for some row that says nothing. -/
structure Overlooks (p : Program Extended) (x : List ℚ) : Prop where
  meets : ∀ i < p.matrix.numRows, MeetsFinite (p.rows.pair i) (p.rowAt x i)
  missed : ∃ i < p.matrix.numRows, OutOfReach (p.rows.pair i) (p.rowAt x i)

theorem mulVec_eq (p : Program Extended) (x : List ℚ) :
    p.matrix.mulVec (finites x) = (List.range p.matrix.numRows).map (p.rowAt x) := by
  have hrows := eq_map_range p.matrix.rows []
  rw [RowMatrix.mulVec]
  conv_lhs => rw [hrows, List.map_map]
  rfl

theorem rows_hold_iff (hp : p.Shaped) :
    p.rows.Hold (p.matrix.mulVec (finites x)) ↔
      ∀ i < p.matrix.numRows, Within (p.rows.pair i) (p.rowAt x i) := by
  have hhold := Bounds.hold_map (List.range p.matrix.numRows) p.rows.pair (p.rowAt x)
  rw [← mulVec_eq] at hhold
  simp only [List.mem_range] at hhold
  rw [← hhold]
  exact iff_of_eq (congrArg (Bounds.Hold · _) (rows_eq_tabulate hp))

theorem rowsHold_linearCall (hp : p.Shaped) {c : LinearCall Extended}
    (hc : p.linearCall o = .ok c) :
    c.RowsHold x ↔ ∀ i < p.matrix.numRows, MeetsFinite (p.rows.pair i) (p.rowAt x i) := by
  have hsplit := SplitRows.sparse_tabulate p.matrix p.rows.pair
  rw [← rows_eq_tabulate hp] at hsplit
  simp only [linearCall, hsplit, bind, Except.bind, pure, Except.pure] at hc
  cases hc
  rw [LinearCall.RowsHold, present_block_iff _ _ _ (by simp [RowMatrix.numRows]),
    present_block_iff _ _ _ (by simp [RowMatrix.numRows]), ← classes_hold_iff]
  exact split_rows_hold_iff_classes p.matrix p.rows.pair (finites x) _

theorem rowsHold_smoothCall (hp : p.Shaped)
    (hentries : p.matrix.EntriesFit)
    (hx : x.length = p.cost.length) {columns : Bounds Extended} {c : SmoothCall Extended}
    (hc : p.smoothCall o columns = .ok c) :
    c.RowsHold x ↔ ∀ i < p.matrix.numRows, MeetsFinite (p.rows.pair i) (p.rowAt x i) := by
  have hdense : p.matrix.toDense = (List.range p.matrix.numRows).map
      fun i => RowMatrix.denseRow p.matrix.numCols (p.matrix.rows.getD i []) := by
    have hrows := eq_map_range p.matrix.rows []
    conv_lhs => rw [RowMatrix.toDense, hrows, List.map_map]
    rfl
  have hsplit := SplitRows.dense_tabulate p.matrix.numRows
    (fun i => RowMatrix.denseRow p.matrix.numCols (p.matrix.rows.getD i [])) p.rows.pair
  rw [← hdense, ← rows_eq_tabulate hp] at hsplit
  simp only [smoothCall, hsplit, bind, Except.bind, pure, Except.pure] at hc
  cases hc
  have hdot : ∀ i < p.matrix.numRows,
      Vec.dot (RowMatrix.denseRow p.matrix.numCols (p.matrix.rows.getD i [])) (finites x) =
        p.rowAt x i := by
    intro i hi
    have hwidth : x.length = p.matrix.numCols := hx.trans hp.cols.symm
    have hrow := hentries.getD i
    rw [← hwidth] at hrow ⊢
    exact RowMatrix.dot_denseRow hrow
  rw [SmoothCall.RowsHold, SmoothCall.equationBlock_hold_iff rfl hdot,
    SmoothCall.inequalityBlock_hold_iff rfl hdot, classes_hold_iff]

theorem calls_eq_nil_iff (hp : p.Shaped) (solver : Solver Extended) :
    (p.solve o solver).calls = [] ↔ p.quadratics ≠ [] ∧ ∃ t ∈ p.types, t ≠ .continuous := by
  by_cases hquadratics : p.quadratics = []
  · obtain ⟨call, hcall⟩ := linearCall_ok hp o
    have hcalls := (solveLinear_of_call solver hcall).1
    rw [solve_of_linear hquadratics, hcalls]
    simp [hquadratics]
  · rw [solve_of_quadratics hquadratics]
    by_cases htypes : ∃ t ∈ p.types, t ≠ .continuous
    · have hany : p.types.any (· ≠ .continuous) = true := by simpa using htypes
      rw [solveSmooth, if_pos hany]
      exact iff_of_true rfl ⟨hquadratics, htypes⟩
    · obtain ⟨call, hcall⟩ := smoothCall_ok hp o p.columns
      push Not at htypes
      obtain ⟨more, hcalls⟩ := solveSmooth_first_call solver htypes hcall
      rw [hcalls]
      simpa [hquadratics] using htypes

theorem rowsHold_of_mem_calls (hp : p.Shaped)
    (hentries : p.matrix.EntriesFit)
    (hx : x.length = p.cost.length) {solver : Solver Extended} {c : Call Extended}
    (hc : c ∈ (p.solve o solver).calls) :
    c.RowsHold x ↔ ∀ i < p.matrix.numRows, MeetsFinite (p.rows.pair i) (p.rowAt x i) := by
  by_cases hquadratics : p.quadratics = []
  · obtain ⟨call, hcall⟩ := linearCall_ok hp o
    rw [solve_of_linear hquadratics, (solveLinear_of_call solver hcall).1,
      List.mem_singleton] at hc
    rw [hc]
    exact rowsHold_linearCall hp hcall
  · rw [solve_of_quadratics hquadratics] at hc
    obtain ⟨columns, call, hcall, rfl⟩ := made_of_mem_solveSmooth hc
    exact rowsHold_smoothCall hp hentries hx hcall

theorem overlooks_iff (hp : p.Shaped) (hrows : p.rows.Defined)
    (hvalues : ∀ v ∈ p.matrix.mulVec (finites x), v ≠ .undefined) :
    p.Overlooks x ↔ (∀ i < p.matrix.numRows, MeetsFinite (p.rows.pair i) (p.rowAt x i)) ∧
      ¬p.rows.Hold (p.matrix.mulVec (finites x)) := by
  have hwithin : ∀ i < p.matrix.numRows, (Within (p.rows.pair i) (p.rowAt x i) ↔
      MeetsFinite (p.rows.pair i) (p.rowAt x i) ∧
        ¬OutOfReach (p.rows.pair i) (p.rowAt x i)) := by
    intro i hi
    refine within_iff_meetsFinite ?_ ?_ (hvalues _ ?_)
    · exact getD_of_forall _ _ i hrows.lower (Extended.finite_ne_undefined 0)
    · exact getD_of_forall _ _ i hrows.upper (Extended.finite_ne_undefined 0)
    · rw [mulVec_eq]
      exact List.mem_map_of_mem (List.mem_range.mpr hi)
  rw [rows_hold_iff hp]
  constructor
  · rintro ⟨hmeets, i, hi, hmissed⟩
    exact ⟨hmeets, fun h => ((hwithin i hi).mp (h i hi)).2 hmissed⟩
  · rintro ⟨hmeets, h⟩
    push Not at h
    obtain ⟨i, hi, h⟩ := h
    rw [hwithin i hi, not_and_not_right] at h
    exact ⟨hmeets, i, hi, h (hmeets i hi)⟩

end Program

namespace Model

/-- A point that breaks a row of the program breaks every call that is made as well, unless it is
overlooked. -/
theorem run_rows_kept_iff (o : Options Extended) (ops : List (Operation Extended))
    (solver : Solver Extended) {p : Program Extended} {x : List ℚ}
    (hp : (run o ops).program = some p)
    (hentries : p.matrix.EntriesFit)
    (hrows : p.rows.Defined) (hx : x.length = p.cost.length)
    (hvalues : ∀ v ∈ p.matrix.mulVec (finites x), v ≠ .undefined) :
    (((run o ops).optimize o solver).2.2 = [] ↔
        p.quadratics ≠ [] ∧ ∃ t ∈ p.types, t ≠ .continuous) ∧
      ∀ c ∈ ((run o ops).optimize o solver).2.2,
        ((¬p.rows.Hold (p.matrix.mulVec (finites x)) → ¬c.RowsHold x) ↔ ¬p.Overlooks x) := by
  have hshaped := (run_sound o ops p hp).toShaped
  rw [optimize_of_some hp]
  refine ⟨Program.calls_eq_nil_iff hshaped solver, ?_⟩
  intro c hc
  rw [Program.rowsHold_of_mem_calls hshaped hentries hx hc,
    Program.overlooks_iff hshaped hrows hvalues, not_and_not_right, not_imp_not]

def impossibleSession : List (Operation Extended) :=
  [.load
      { matrix := .compressed ⟨1, [[(0, .finite 1)], [(0, .finite 1)]]⟩
        lower := .ofList [.finite 0]
        upper := .ofList [.infinity]
        cost := .ofList [.finite 1]
        rowLower := .ofList [.infinity, .negInfinity]
        rowUpper := .ofList [.infinity, .finite 5] } "min"]

def impossibleProgram : Program Extended where
  matrix := RowMatrix.finite ⟨1, [[(0, 1)], [(0, 1)]]⟩
  columns := ⟨[.finite 0], [.infinity]⟩
  cost := finites [1]
  rows := ⟨[.infinity, .negInfinity], [.infinity, .finite 5]⟩
  sense := .minimize
  quadratics := []
  types := [.continuous]

theorem impossibleSession_program :
    (run (Options.default Extended) impossibleSession).program = some impossibleProgram := by
  decide +kernel

theorem mulVec_impossibleProgram (q : ℚ) :
    impossibleProgram.matrix.mulVec (finites [q]) = finites [q, q] := by
  have hmatrix : impossibleProgram.matrix = RowMatrix.finite ⟨1, [[(0, 1)], [(0, 1)]]⟩ := rfl
  rw [hmatrix, mulVec_finite]
  simp [RowMatrix.apply]

theorem overlooks_impossibleProgram (q : ℚ) : impossibleProgram.Overlooks [q] ↔ q ≤ 5 := by
  have hvalue : RowMatrix.rowDot (finiteRow [(0, 1)]) (finites [q]) = .finite q := by
    rw [rowDot_finite]
    simp [rowValue]
  have hfirst : impossibleProgram.rowAt [q] 0 = .finite q := hvalue
  have hsecond : impossibleProgram.rowAt [q] 1 = .finite q := hvalue
  constructor
  · rintro ⟨hmeets, _⟩
    have hle := (hmeets 1 (by decide)).upper 5 rfl
    rwa [hsecond, Extended.le_finite_iff] at hle
  · intro hle
    refine ⟨?_, 0, by decide, .inl ⟨rfl, ?_⟩⟩
    · intro i hi
      obtain rfl | rfl : i = 0 ∨ i = 1 := by
        have hcount : impossibleProgram.matrix.numRows = 2 := rfl
        omega
      · simp [meetsFinite_iff, impossibleProgram, Bounds.pair]
      · have hpair : impossibleProgram.rows.pair 1 = (.negInfinity, .finite 5) := rfl
        rw [hpair, hsecond]
        simp [meetsFinite_iff, hle]
    · rw [hfirst]
      exact Extended.noConfusion

theorem impossibleProgram_rows (q : ℚ) :
    ¬impossibleProgram.rows.Hold (impossibleProgram.matrix.mulVec (finites [q])) := by
  rw [mulVec_impossibleProgram]
  rintro ⟨hlower, _⟩
  exact Bool.noConfusion (List.forall₂_cons.mp hlower).1

theorem run_rows_kept_iff_impossible :
    ∃ c ∈ ((run (Options.default Extended) impossibleSession).optimize
        (Options.default Extended) originSolver).2.2,
      ¬c.RowsHold [6] ∧ ¬(¬impossibleProgram.rows.Hold (impossibleProgram.matrix.mulVec
        (finites [3])) → ¬c.RowsHold [3]) := by
  have hentries : impossibleProgram.matrix.EntriesFit := by decide
  have hrows : impossibleProgram.rows.Defined := ⟨by decide, by decide⟩
  have hvalues (q : ℚ) : ∀ v ∈ impossibleProgram.matrix.mulVec (finites [q]),
      v ≠ .undefined := by
    rw [mulVec_impossibleProgram, finites, List.forall_mem_map]
    exact fun r _ => Extended.finite_ne_undefined r
  obtain ⟨hcalls, hcaught⟩ := run_rows_kept_iff (Options.default Extended) impossibleSession
    originSolver (x := [6]) impossibleSession_program hentries hrows rfl (hvalues 6)
  obtain ⟨_, hlost⟩ := run_rows_kept_iff (Options.default Extended) impossibleSession
    originSolver (x := [3]) impossibleSession_program hentries hrows rfl (hvalues 3)
  obtain ⟨c, hc⟩ := List.exists_mem_of_ne_nil _ fun h => (hcalls.mp h).1 rfl
  refine ⟨c, hc, ?_, ?_⟩
  · refine (hcaught c hc).mpr ?_ (impossibleProgram_rows 6)
    rw [overlooks_impossibleProgram]
    norm_num
  · rw [hlost c hc, not_not, overlooks_impossibleProgram]
    norm_num

theorem run_rows_lost_impossible :
    (∀ q : ℚ, ¬impossibleProgram.rows.Hold
        (impossibleProgram.matrix.mulVec (finites [q]))) ∧
      (∃ c, ((run (Options.default Extended) impossibleSession).optimize
          (Options.default Extended) originSolver).2.2 = [c] ∧ c.RowsHold [0]) ∧
      (run (Options.default Extended) impossibleSession).violation (some (finites [0])) =
        .ok .infinity := by
  have hsound := run_sound (Options.default Extended) impossibleSession _
    impossibleSession_program
  obtain ⟨call, hcall⟩ := Program.linearCall_ok hsound.toShaped (Options.default Extended)
  refine ⟨impossibleProgram_rows, ⟨.linear call, ?_, ?_⟩, by decide +kernel⟩
  · rw [optimize_of_some impossibleSession_program, Program.solve_of_linear rfl]
    exact (Program.solveLinear_of_call originSolver hcall).1
  · refine (Program.rowsHold_linearCall hsound.toShaped hcall).mpr ?_
    exact ((overlooks_impossibleProgram 0).mpr (by norm_num)).meets

end Model

end ConeLift
