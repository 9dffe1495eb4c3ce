import ConeLift.Proofs.Expansion
import ConeLift.Proofs.LiftedProgram
import ConeLift.Proofs.Session
import ConeLift.Proofs.SmoothAttempts
import ConeLift.Proofs.SmoothCalls

namespace ConeLift

def RowMatrix.Numeric (A : RowMatrix Extended) : Prop :=
  ∀ row ∈ A.rows, ∀ e ∈ row, Scalar.isFinite e.2 = true

theorem RowMatrix.Numeric.exists_finite {A : RowMatrix Extended} (h : A.Numeric) :
    ∃ A' : RowMatrix ℚ, A = A'.finite := by
  apply A.exists_finite
  intro row hrow
  have hvalues : ∀ v ∈ row.map Prod.snd, Scalar.isFinite v = true :=
    List.forall_mem_map.mpr (h row hrow)
  obtain ⟨vs, hvs⟩ := exists_eq_finites hvalues
  have hlength : (row.map Prod.fst).length = vs.length := by
    rw [← length_finites, ← hvs, List.length_map, List.length_map]
  refine ⟨(row.map Prod.fst).zip vs, ?_⟩
  calc row = (row.map Prod.fst).zip (row.map Prod.snd) := (List.zip_of_prod rfl rfl)
    _ = (row.map Prod.fst).zip (finites vs) := by rw [hvs]
    _ = finiteRow ((row.map Prod.fst).zip vs) := List.zip_map_right

namespace QuadraticRow

structure Numeric (q : QuadraticRow Extended) : Prop where
  linear : ∀ a ∈ q.linearCoef, Scalar.isFinite a = true
  square : ∀ a ∈ q.coef, Scalar.isFinite a = true

def second (q : QuadraticRow Extended) (d : List ℚ) : Extended :=
  Vec.sum (List.zipWith (fun a e => a * .finite (coord d e.1.toNat * coord d e.2.toNat)) q.coef
    (q.rowIndex.zip q.colIndex))

def Expands (q : QuadraticRow Extended) (x d : List ℚ) : Prop :=
  ∃ v g s, q.value (finites x) = .ok (.finite v) ∧ q.gradient (finites x) = .ok (finites g) ∧
    g.length = x.length ∧ q.second d = .finite s ∧
      q.value (finites (shift x d)) = .ok (.finite (v + dot g d + s))

theorem second_of_coef {q : QuadraticRow Extended} {q' : QuadraticRow ℚ}
    (hcoef : q.coef = finites q'.coef) (hrow : q.rowIndex = q'.rowIndex)
    (hcol : q.colIndex = q'.colIndex) (d : List ℚ) : q.second d = .finite (q'.bend d) := by
  have hterms (coef : List ℚ) (is js : List ℤ) :
      List.zipWith (fun a e => a * Extended.finite (coord d e.1.toNat * coord d e.2.toNat))
          (finites coef) (is.zip js) =
        finites (List.zipWith (· * ·) (List.zipWith (· * ·) coef (entries d is))
          (entries d js)) := by
    induction coef generalizing is js with
    | nil => simp [finites]
    | cons a coef ih =>
      cases is with
      | nil => simp [finites, entries]
      | cons i is =>
        cases js with
        | nil => simp [finites, entries]
        | cons j js =>
          have htail := ih is js
          simp only [finites, entries, List.map_cons, List.zip_cons_cons, List.zipWith_cons_cons,
            Extended.finite_mul, mul_assoc] at htail ⊢
          rw [htail]
  rw [second, hcoef, hrow, hcol, hterms, sum_finites, bend]

theorem Numeric.expands {q : QuadraticRow Extended} {x d : List ℚ} (hq : q.Numeric)
    (hfits : q.Fits x.length) (hd : x.length = d.length) : q.Expands x d := by
  obtain ⟨linearCoef, hlinear⟩ := exists_eq_finites hq.linear
  obtain ⟨coef, hcoef⟩ := exists_eq_finites hq.square
  let q' : QuadraticRow ℚ := ⟨q.linearIndex, linearCoef, q.rowIndex, q.colIndex, coef, 0⟩
  -- Values and derivatives do not look at the right-hand side.
  have hvalue (y : List Extended) : q.value y = q'.finite.value y := by
    simp only [value, q', finite, ← hlinear, ← hcoef]
  have hgradient (y : List Extended) : q.gradient y = q'.finite.gradient y := by
    simp only [gradient, q', finite, ← hlinear, ← hcoef]
  have hfits' : q'.Fits x.length :=
    ⟨by rw [hfits.linear, hlinear, length_finites], hfits.square,
      by rw [hfits.coef, hcoef, length_finites], hfits.inside⟩
  have hshift : q'.Fits (shift x d).length := by rwa [length_shift hd]
  refine ⟨q'.eval x, q'.slope x, q'.bend d, ?_, ?_, q'.length_slope x, ?_, ?_⟩
  · rw [hvalue, value_finite hfits']
  · rw [hgradient, gradient_finite hfits']
  · exact second_of_coef hcoef rfl rfl d
  · rw [hvalue, value_finite hshift, eval_shift hfits' hd]

end QuadraticRow

/-- Along the step `d`, from `b` to `b'`, every function of a block grows by its row of the
derivative and loses its entry of `rest`. -/
structure ConstraintBlock.MovesTo (b b' : ConstraintBlock Extended) (d : List ℚ)
    (rest : List Extended) : Prop where
  kind : b'.isEquation = b.isEquation
  gradients : b.jacobian.length = b.value.length
  columns : ∀ g ∈ b.jacobian, g.length = d.length
  rests : rest.length = b.value.length
  value : b'.value = List.zipWith (· - ·)
    (List.zipWith (· + ·) b.value (b.jacobian.map (Vec.dot · (finites d)))) rest

theorem ConstraintBlock.movesTo_of_map {β : Type} {l : List β} {f f' rest : β → Extended}
    {g g' : β → List Extended} {d : List ℚ} (isEquation : Bool)
    (hcolumns : ∀ i ∈ l, (g i).length = d.length)
    (h : ∀ i ∈ l, f' i = f i + Vec.dot (g i) (finites d) - rest i) :
    MovesTo ⟨isEquation, l.map f, l.map g⟩ ⟨isEquation, l.map f', l.map g'⟩ d (l.map rest) := by
  refine ⟨rfl, by simp, by simpa using hcolumns, by simp, ?_⟩
  simp only [List.map_map, List.zipWith_map, List.zipWith_self]
  exact List.map_congr_left h

theorem ConstraintBlock.movesTo_of_rows {rows : List (List Extended)} {bounds : List Extended}
    {f f' : List Extended → Extended → Extended} {g : List Extended → List Extended} {d : List ℚ}
    (isEquation : Bool) (hlength : rows.length = bounds.length)
    (hcolumns : ∀ row ∈ rows, (g row).length = d.length)
    (h : ∀ row ∈ rows, ∀ b, f' row b = f row b + Vec.dot (g row) (finites d) - 0) :
    MovesTo ⟨isEquation, List.zipWith f rows bounds, rows.map g⟩
      ⟨isEquation, List.zipWith f' rows bounds, rows.map g⟩ d (List.replicate rows.length 0) := by
  have hrows : rows = (rows.zip bounds).map Prod.fst := (List.map_fst_zip hlength.le).symm
  have hjacobian : rows.map g = (rows.zip bounds).map fun r => g r.1 := by
    conv_lhs => rw [hrows, List.map_map]
    rfl
  have hrest : List.replicate rows.length (0 : Extended) = (rows.zip bounds).map fun _ => 0 := by
    rw [List.map_const', List.length_zip, ← hlength, min_self]
  rw [hjacobian, hrest, ← List.map_uncurry_zip_eq_zipWith, ← List.map_uncurry_zip_eq_zipWith]
  apply movesTo_of_map
  · exact fun r hr => hcolumns r.1 (List.of_mem_zip hr).1
  · exact fun r hr => h r.1 (List.of_mem_zip hr).1 r.2

namespace Extended

theorem finite_add_sub (v w : ℚ) (b : Extended) :
    finite (v + w) - b = finite v - b + finite w - 0 := by
  cases b with
  | finite b =>
    simp only [zero_eq, finite_sub, finite_add]
    ring_nf
  | _ => rfl

theorem sub_finite_add (b : Extended) (v w s : ℚ) :
    b - finite (v + w + s) = b - finite v + finite (-w) - finite s := by
  cases b with
  | finite b =>
    simp only [finite_sub, finite_add]
    ring_nf
  | _ => rfl

end Extended

structure SplitRows.Numeric (s : SplitRows (List (List Extended)) Extended) (n : ℕ) : Prop where
  values : s.equations.length = s.values.length
  bound : s.matrix.length = s.bound.length
  entries : ∀ row ∈ s.equations ++ s.matrix, ∃ r : List ℚ, row = finites r ∧ r.length = n

theorem SplitRows.numeric_ofClasses (k : RowClasses) {row : ℕ → List Extended} {n : ℕ}
    (b : ℕ → Extended × Extended) (h : ∀ i, ∃ r : List ℚ, row i = finites r ∧ r.length = n) :
    (ofClasses k row b).Numeric n := by
  refine ⟨by simp [ofClasses], by simp [ofClasses], ?_⟩
  simp only [ofClasses, List.forall_mem_append, List.forall_mem_map]
  refine ⟨fun i _ => h i, fun i _ => h i, ?_⟩
  intro i _
  obtain ⟨r, hr, hlength⟩ := h i
  exact ⟨r.map fun y => -y, by rw [hr, map_neg_finites], by rw [List.length_map, hlength]⟩

namespace SmoothCall

variable {c : SmoothCall Extended} {n : ℕ} {x d : List ℚ}

theorem equationBlock_movesTo (hc : c.rows.Numeric n) (hx : x.length = n) (hd : d.length = n) :
    (c.equationBlock (finites x)).MovesTo (c.equationBlock (finites (shift x d))) d
      (List.replicate c.rows.equations.length 0) := by
  have hblock (y : List Extended) : c.equationBlock y =
      ⟨true, List.zipWith (fun row b => Vec.dot row y - b) c.rows.equations c.rows.values,
        c.rows.equations.map id⟩ := by
    rw [List.map_id, equationBlock]
  rw [hblock, hblock]
  apply ConstraintBlock.movesTo_of_rows true hc.values
  · intro row hrow
    obtain ⟨a, rfl, hlength⟩ := hc.entries row (List.mem_append_left _ hrow)
    rw [id, length_finites, hlength, hd]
  · intro row hrow b
    obtain ⟨a, rfl, _⟩ := hc.entries row (List.mem_append_left _ hrow)
    rw [id, dot_finites, dot_finites, dot_finites, dot_shift a (hx.trans hd.symm)]
    exact Extended.finite_add_sub _ _ _

theorem inequalityBlock_movesTo (hc : c.rows.Numeric n) (hx : x.length = n) (hd : d.length = n) :
    (c.inequalityBlock (finites x)).MovesTo (c.inequalityBlock (finites (shift x d))) d
      (List.replicate c.rows.matrix.length 0) := by
  apply ConstraintBlock.movesTo_of_rows false hc.bound
  · intro row hrow
    obtain ⟨a, rfl, hlength⟩ := hc.entries row (List.mem_append_right _ hrow)
    rw [List.length_map, length_finites, hlength, hd]
  · intro row hrow b
    obtain ⟨a, rfl, _⟩ := hc.entries row (List.mem_append_right _ hrow)
    have hstep := Extended.sub_finite_add b (dot a x) (dot a d) 0
    rw [add_zero] at hstep
    rw [map_neg_finites, dot_finites, dot_finites, dot_finites, dot_shift a (hx.trans hd.symm),
      dot_neg]
    exact hstep

theorem quadraticBlock_movesTo (hc : ∀ q ∈ c.quadratics, q.Fits n ∧ q.Numeric)
    (hx : x.length = n) (hd : d.length = n) :
    ∃ b b', c.quadraticBlock (finites x) = .ok b ∧
      c.quadraticBlock (finites (shift x d)) = .ok b' ∧ b.isEquation = false ∧
        b.MovesTo b' d (c.quadratics.map (·.second d)) := by
  have hstep : x.length = d.length := hx.trans hd.symm
  have hfits : ∀ q ∈ c.quadratics, q.Fits (finites (shift x d)).length := by
    intro q hq
    rw [length_finites, length_shift hstep, hx]
    exact (hc q hq).1
  choose! v g s hv hg hlength hs hshift using fun q hq =>
    (hc q hq).2.expands (x := x) (hx.symm ▸ (hc q hq).1) hstep
  choose! g' hg' _ using fun q hq => QuadraticRow.gradient_ok (hfits q hq)
  refine ⟨_, _, quadraticBlock_eq hv hg, quadraticBlock_eq hshift hg', rfl, ?_⟩
  apply ConstraintBlock.movesTo_of_map
  · intro q hq
    rw [List.length_map, length_finites, hlength q hq, hstep]
  · intro q hq
    rw [hs q hq, map_neg_finites, dot_finites, dot_neg]
    exact Extended.sub_finite_add _ _ _ _

/-- What holds of the functions that are handed over together with their derivatives: linear blocks
have no rest, and the last block has one entry for every quadratic row. -/
structure Differentiable (c : SmoothCall Extended) (x d : List ℚ) : Prop where
  objective : ∀ cost : List ℚ, c.cost = finites cost →
    c.objective (finites (shift x d)) = c.objective (finites x) + Vec.dot c.cost (finites d)
  blocks : ∃ linear linear' last last', c.blocks (finites x) = .ok (linear ++ [last]) ∧
    c.blocks (finites (shift x d)) = .ok (linear' ++ [last']) ∧
    List.Forall₂ (fun b b' => b.MovesTo b' d (List.replicate b.value.length 0)) linear linear' ∧
    last.isEquation = false ∧ last.MovesTo last' d (c.quadratics.map (·.second d))

theorem differentiable (hcost : c.cost.length = n) (hrows : c.rows.Numeric n)
    (hc : ∀ q ∈ c.quadratics, q.Fits n ∧ q.Numeric) (hx : x.length = n) (hd : d.length = n) :
    c.Differentiable x d := by
  have hstep : x.length = d.length := hx.trans hd.symm
  constructor
  · intro cost h
    rw [objective, objective, h, dot_finites, dot_finites, dot_finites, dot_shift cost hstep,
      Extended.finite_add]
  · obtain ⟨b, b', hb, hb', hkind, hmoves⟩ := quadraticBlock_movesTo hc hx hd
    have hlength : (finites x).length = c.cost.length := by rw [length_finites, hx, hcost]
    have hlength' : (finites (shift x d)).length = c.cost.length := by
      rw [length_finites, length_shift hstep, hx, hcost]
    refine ⟨_, _, b, b', blocks_eq hlength hb, blocks_eq hlength' hb', ?_, hkind, hmoves⟩
    have hequation : (c.equationBlock (finites x)).value.length = c.rows.equations.length := by
      simp [equationBlock, hrows.values]
    have hinequality : (c.inequalityBlock (finites x)).value.length = c.rows.matrix.length := by
      simp [inequalityBlock, hrows.bound]
    apply List.rel_append
    · split
      · exact .nil
      · refine .cons ?_ .nil
        rw [hequation]
        exact equationBlock_movesTo hrows hx hd
    · split
      · exact .nil
      · refine .cons ?_ .nil
        rw [hinequality]
        exact inequalityBlock_movesTo hrows hx hd

end SmoothCall

namespace Model

/-- After any session, every derivative that an attempt to solve a program with quadratic rows hands
to the solver is that of its function. -/
theorem run_jacobians_exact (o : Options Extended) (ops : List (Operation Extended))
    {p : Program Extended} (hp : (run o ops).program = some p) (hquadratics : p.quadratics ≠ [])
    (hmatrix : p.matrix.Numeric) (hnumeric : ∀ q ∈ p.quadratics, q.Numeric) {x d : List ℚ}
    (hx : x.length = p.cost.length) (hd : d.length = p.cost.length) :
    (∀ q ∈ p.quadratics, q.Expands x d) ∧
      ∀ solver, (∀ c ∈ ((run o ops).optimize o solver).2.2, ∃ call, c = .smooth call ∧
          call.quadratics = p.quadratics ∧ call.cost = p.signedCost ∧ call.Differentiable x d) ∧
        ((∀ t ∈ p.types, t = .continuous) → ((run o ops).optimize o solver).2.2 ≠ []) := by
  have hsound := run_sound o ops p hp
  obtain ⟨A, hA⟩ := hmatrix.exists_finite
  have hfits : ∀ q ∈ p.quadratics, q.Fits x.length := by
    rw [hx]
    exact hsound.quadratics
  refine ⟨fun q hq => (hnumeric q hq).expands (hfits q hq) (hx.trans hd.symm), ?_⟩
  intro solver
  have hcalls : ((run o ops).optimize o solver).2.2 = (p.solveSmooth o solver).calls := by
    rw [optimize_of_some hp, Program.solve_of_quadratics hquadratics]
  rw [hcalls]
  constructor
  · intro c hc
    obtain ⟨columns, call, hcall, rfl⟩ := Program.made_of_mem_solveSmooth hc
    rw [Program.smoothCall_of_finite o columns hsound.toShaped hA] at hcall
    obtain rfl := Except.ok.inj hcall
    refine ⟨_, rfl, rfl, rfl, ?_⟩
    have hcols : A.numCols = x.length := by
      rw [hx, ← hsound.cols, hA, numCols_finite]
    apply SmoothCall.differentiable (n := x.length)
    · rw [Program.length_signedCost, hx]
    · apply SplitRows.numeric_ofClasses
      intro i
      refine ⟨(List.range A.numCols).map (entryAt (A.rows.getD i [])), ?_, by simp [hcols]⟩
      rw [getD_rows_finite, denseRow_finite]
    · exact fun q hq => ⟨hfits q hq, hnumeric q hq⟩
    · rfl
    · rw [hd, hx]
  · intro hcontinuous
    obtain ⟨more, hmore⟩ := Program.solveSmooth_first_call (o := o) solver hcontinuous
      (Program.smoothCall_of_finite o p.columns hsound.toShaped hA)
    rw [hmore]
    exact List.cons_ne_nil _ _

def bentRow : QuadraticRow Extended where
  linearIndex := [0, 1, 0]
  linearCoef := finites [1, 2, 3]
  rowIndex := [0, 0, 1, 1]
  colIndex := [1, 1, 1, 0]
  coef := finites [1, 1, 1 / 2, 5]
  bound := .finite 7

def bentSession : List (Operation Extended) :=
  [.load
      { matrix := .compressed ⟨2, [[(0, .finite 1), (1, .finite 1)],
          [(0, .finite 1), (0, .finite 1), (1, .finite 2)]]⟩
        lower := .ofList [.finite 0, .negInfinity]
        upper := .ofList [.infinity, .infinity]
        cost := .ofList [.finite 1, .finite 0]
        rowLower := .ofList [.finite 3, .finite 1]
        rowUpper := .ofList [.finite 3, .finite 4] } "max",
    .addQuadratic bentRow.ready "<=",
    .addQuadratic (QuadraticRow.ofColumns [1, 0]).ready "<="]

def bentProgram : Program Extended where
  matrix := RowMatrix.finite ⟨2, [[(0, 1), (1, 1)], [(0, 1), (0, 1), (1, 2)]]⟩
  columns := ⟨[.finite 0, .negInfinity], [.infinity, .infinity]⟩
  cost := finites [1, 0]
  rows := ⟨[.finite 3, .finite 1], [.finite 3, .finite 4]⟩
  sense := .maximize
  quadratics := [bentRow, .ofColumns [1, 0]]
  types := [.continuous, .continuous]

theorem run_jacobians_exact_bent :
    (run (Options.default Extended) bentSession).program = some bentProgram ∧
      bentRow.Expands [1, 2] [3, -1] ∧ bentRow.second [3, -1] = .finite (-41 / 2) ∧
      ∃ call, .smooth call ∈ ((run (Options.default Extended) bentSession).optimize
          (Options.default Extended) originSolver).2.2 ∧
        call.quadratics = [bentRow, .ofColumns [1, 0]] ∧ call.Differentiable [1, 2] [3, -1] := by
  have hprogram : (run (Options.default Extended) bentSession).program = some bentProgram := by
    decide +kernel
  have hmatrix : bentProgram.matrix.Numeric := by
    unfold RowMatrix.Numeric
    decide +kernel
  have hnumeric : ∀ q ∈ bentProgram.quadratics, q.Numeric := by
    simp only [bentProgram, List.forall_mem_cons]
    exact ⟨⟨by decide +kernel, by decide +kernel⟩, ⟨by decide +kernel, by decide +kernel⟩,
      List.forall_mem_nil _⟩
  obtain ⟨hexpands, hcalls⟩ := run_jacobians_exact (Options.default Extended) bentSession
    (x := [1, 2]) (d := [3, -1]) hprogram (by simp [bentProgram]) hmatrix hnumeric rfl rfl
  obtain ⟨hsmooth, hmade⟩ := hcalls originSolver
  obtain ⟨c, hc⟩ := List.exists_mem_of_ne_nil _ (hmade (by simp [bentProgram]))
  obtain ⟨call, rfl, hquadratics, _, hdifferentiable⟩ := hsmooth c hc
  exact ⟨hprogram, hexpands bentRow List.mem_cons_self, by decide +kernel, call, hc, hquadratics,
    hdifferentiable⟩

end Model

end ConeLift
