import ConeLift.Model.Basic
import ConeLift.Proofs.Calls
import ConeLift.Proofs.Loading
import ConeLift.Proofs.Outcomes

namespace ConeLift

variable {α : Type} [Scalar α]

structure Program.Sound (p : Program α) : Prop extends p.Shaped where
  uncrossed : ∀ b ∈ p.columns.lower.zip p.columns.upper, Scalar.lt b.2 b.1 = false
  quadratics : ∀ q ∈ p.quadratics, q.Fits p.cost.length

theorem LinearModel.check_eq_ok_iff (m : LinearModel α) :
    m.check = .ok () ↔
      (m.matrix.numCols = m.cost.length ∧ m.columns.lower.length = m.cost.length ∧
        m.columns.upper.length = m.cost.length) ∧
      (m.rows.lower.length = m.matrix.numRows ∧ m.rows.upper.length = m.matrix.numRows) ∧
      ∀ b ∈ m.columns.lower.zip m.columns.upper, Scalar.lt b.2 b.1 = false := by
  have hcrossed : (List.zipWith (fun l u => Scalar.lt u l) m.columns.lower m.columns.upper).any id =
      false ↔ ∀ b ∈ m.columns.lower.zip m.columns.upper, Scalar.lt b.2 b.1 = false := by
    rw [← List.map_uncurry_zip_eq_zipWith]
    simp [List.any_eq_false]
  rw [← hcrossed, check]
  split_ifs with hcolumns hrows hbounds
  · refine iff_of_false (by simp) ?_
    rintro ⟨_, _, huncrossed⟩
    rw [huncrossed] at hbounds
    cases hbounds
  · exact iff_of_true rfl ⟨hcolumns, hrows, Bool.eq_false_of_not_eq_true hbounds⟩
  · exact iff_of_false (by simp) fun h => hrows h.2.1
  · exact iff_of_false (by simp) fun h => hcolumns h.1

namespace Program

variable {p p' : Program α}

theorem sound_of_ofLinear {m : LinearModel α} {sense : Sense} (h : ofLinear m sense = .ok p) :
    p.Sound := by
  obtain ⟨⟨⟩, hcheck, h⟩ := (bind_eq_ok_iff _ _ _).mp h
  cases h
  obtain ⟨⟨hcols, hlower, hupper⟩, ⟨hrowLower, hrowUpper⟩, huncrossed⟩ :=
    m.check_eq_ok_iff.mp hcheck
  exact ⟨⟨hcols, hlower, hupper, hrowLower, hrowUpper, List.length_replicate⟩, huncrossed, by simp⟩

theorem sound_of_ofData {d : LinearData α} {sense : String} (h : ofData d sense = .ok p) :
    p.Sound := by
  rw [ofData] at h
  split at h
  · cases h
  · obtain ⟨m, _, h⟩ := (bind_eq_ok_iff _ _ _).mp h
    exact sound_of_ofLinear h

theorem sound_of_addQuadratic {d : QuadraticData α} {relation : String} (hp : p.Sound)
    (h : p.addQuadratic d relation = .ok p') : p'.Sound := by
  obtain ⟨⟨⟩, hcheck, h⟩ := (bind_eq_ok_iff _ _ _).mp h
  obtain ⟨q, hread, h⟩ := (bind_eq_ok_iff _ _ _).mp h
  cases h
  obtain ⟨_, hd⟩ := (checkQuadratic_eq_ok_iff _ _ _).mp hcheck
  have hfits := QuadraticRow.fits_of_ofData hd hread
  refine ⟨{ hp.toShaped with }, hp.uncrossed, ?_⟩
  rw [List.forall_mem_append, List.forall_mem_singleton]
  exact ⟨hp.quadratics, hfits⟩

theorem length_of_readTypes {n : ℕ} {texts : List String} {types : List VarType}
    (h : readTypes n texts = .ok types) : types.length = n := by
  rw [readTypes] at h
  split_ifs at h with hcount
  rw [← not_not.mp hcount]
  exact ((mapM_eq_ok_iff _ _ _).mp h).length_eq.symm

theorem sound_of_readTypes {texts : List String} {types : List VarType} (hp : p.Sound)
    (h : readTypes p.types.length texts = .ok types) : ({ p with types } : Program α).Sound :=
  ⟨{ hp.toShaped with types := (length_of_readTypes h).trans hp.types }, hp.uncrossed,
    hp.quadratics⟩

end Program

namespace Model

inductive Getter (α : Type) where
  | status
  | solution
  | objective
  | reducedCosts
  | types
  | numVar
  | numConstr
  | numQuadratic
  | violation (x : Option (List α))

def Getter.read (m : Model α) : Getter α → Except Error Unit
  | solution => m.solution.map fun _ => ()
  | objective => m.objective.map fun _ => ()
  | reducedCosts => m.reducedCosts.map fun _ => ()
  | violation x => (m.violation x).map fun _ => ()
  | status | types | numVar | numConstr | numQuadratic => .ok ()

inductive Operation (α : Type) where
  | load (d : LinearData α) (sense : String)
  | addQuadratic (d : QuadraticData α) (relation : String)
  | setTypes (texts : List String)
  | optimize (solver : Solver α)
  | read (g : Getter α)

namespace Operation

def isChange : Operation α → Bool
  | load .. | addQuadratic .. | setTypes _ => true
  | optimize _ | read _ => false

def perform (o : Options α) (m : Model α) : Operation α → Except Error Unit × Model α
  | load d sense => m.load d sense
  | addQuadratic d relation => m.addQuadratic d relation
  | setTypes texts => m.setTypes texts
  | optimize solver => ((m.optimize o solver).1, (m.optimize o solver).2.1)
  | read g => (g.read m, m)

end Operation

def run (o : Options α) (ops : List (Operation α)) : Model α :=
  ops.foldl (fun m op => (op.perform o m).2) empty

variable {m : Model α} {o : Options α} {op : Operation α} {solver : Solver α}

theorem change_cases (m : Model α) (r : Except Error (Program α))
    (hr : ∀ p, r = .ok p → (∀ q ∈ m.program, q.Sound) → p.Sound) :
    (∃ e, m.change r = (.error e, m)) ∨
      ∃ program, m.change r = (.ok (), ⟨program, .fresh⟩) ∧
        ((∀ p ∈ m.program, p.Sound) → ∀ p ∈ program, p.Sound) := by
  cases r with
  | error e => exact .inl ⟨e, rfl⟩
  | ok p =>
    refine .inr ⟨some p, rfl, ?_⟩
    rintro hsound _ ⟨⟩
    exact hr p rfl hsound

theorem perform_change (o : Options α) (m : Model α) (h : op.isChange = true) :
    (∃ e, op.perform o m = (.error e, m)) ∨
      ∃ program, op.perform o m = (.ok (), ⟨program, .fresh⟩) ∧
        ((∀ p ∈ m.program, p.Sound) → ∀ p ∈ program, p.Sound) := by
  cases op with
  | load d sense => exact m.change_cases _ fun p hp _ => Program.sound_of_ofData hp
  | addQuadratic d relation =>
    refine m.change_cases _ ?_
    intro p' hp' hsound
    split at hp'
    · cases hp'
    · rename_i p hm
      exact Program.sound_of_addQuadratic (hsound p hm) hp'
  | setTypes texts =>
    rw [Operation.perform, setTypes]
    split
    · rename_i p hm
      refine m.change_cases _ ?_
      intro p' hp' hsound
      obtain ⟨types, htypes, rfl⟩ := map_eq_ok_iff.mp hp'
      exact Program.sound_of_readTypes (hsound p hm) htypes
    · rename_i hm
      split
      · refine .inr ⟨none, ?_, ?_⟩
        · rw [hm]
        · rintro _ _ ⟨⟩
      · exact .inl ⟨_, rfl⟩
  | optimize solver => cases h
  | read g => cases h

theorem optimize_of_none (h : m.program = none) :
    m.optimize o solver = (.error .nothingLoaded, m, []) := by rw [optimize, h]

theorem optimize_of_some {p : Program α} (h : m.program = some p) :
    (m.optimize o solver).2 =
      (⟨some p, (p.solve o solver).outcome⟩, (p.solve o solver).calls) := by
  rw [optimize, h]

theorem perform_cases (o : Options α) (m : Model α) (op : Operation α) :
    (op.perform o m).2 = m ∨
      (∃ program, (op.perform o m).2 = ⟨program, .fresh⟩ ∧
        ((∀ p ∈ m.program, p.Sound) → ∀ p ∈ program, p.Sound)) ∨
      ∃ solver p, op = .optimize solver ∧ m.program = some p ∧
        (op.perform o m).2 = ⟨some p, (p.solve o solver).outcome⟩ := by
  by_cases hop : op.isChange = true
  · rcases perform_change o m hop with ⟨e, hrefused⟩ | ⟨program, hmade, hsound⟩
    · exact .inl (by rw [hrefused])
    · exact .inr (.inl ⟨program, by rw [hmade], hsound⟩)
  · cases op with
    | load d sense => exact absurd rfl hop
    | addQuadratic d relation => exact absurd rfl hop
    | setTypes texts => exact absurd rfl hop
    | optimize solver =>
      rw [Operation.perform]
      cases hm : m.program with
      | none => exact .inl (by rw [optimize_of_none hm])
      | some p => exact .inr (.inr ⟨solver, p, rfl, rfl, by rw [optimize_of_some hm]⟩)
    | read g => exact .inl rfl

/-- The program is sound, and an optimum is announced exactly when there is one to read. -/
structure Coherent (m : Model α) : Prop where
  program : ∀ p ∈ m.program, p.Sound
  complete : m.status = .optimal ↔ m.outcome.Complete m.numVar
  solution : m.status = .optimal ↔ ∃ x, m.solution = .ok x
  objective : m.status = .optimal ↔ ∃ v, m.objective = .ok v
  reducedCosts : m.status = .optimal ↔ ∃ costs, m.reducedCosts = .ok costs

theorem coherent_of_settled (hprogram : ∀ p ∈ m.program, p.Sound)
    (h : m.outcome.Settled m.numVar) : m.Coherent := by
  rcases h with ⟨hstatus, hcomplete⟩ | hblank
  · have hoptimal : m.status = .optimal := hstatus
    obtain ⟨x, hx, _⟩ := hcomplete.point
    obtain ⟨costs, hcosts, _⟩ := hcomplete.reducedCosts
    refine ⟨hprogram, ?_, ?_, ?_, ?_⟩
    · exact iff_of_true hoptimal hcomplete
    · exact iff_of_true hoptimal ⟨x, by simp only [solution, hx]⟩
    · exact iff_of_true hoptimal ⟨_, by rw [objective, hx]⟩
    · exact iff_of_true hoptimal ⟨costs, by simp only [reducedCosts, hx, hcosts]⟩
  · have hstatus : m.status ≠ .optimal := hblank.status
    refine ⟨hprogram, ?_, ?_, ?_, ?_⟩
    · refine iff_of_false hstatus ?_
      rintro ⟨⟨x, hx, _⟩, _, _⟩
      rw [hblank.point] at hx
      cases hx
    · exact iff_of_false hstatus (by simp [solution, hblank.point])
    · exact iff_of_false hstatus (by simp [objective, hblank.point])
    · exact iff_of_false hstatus (by simp [reducedCosts, hblank.point])

theorem empty_coherent : (empty : Model α).Coherent :=
  coherent_of_settled (by simp [empty]) (.inr Outcome.fresh_blank)

theorem perform_sound (o : Options α) (op : Operation α) (h : ∀ p ∈ m.program, p.Sound) :
    ∀ p ∈ (op.perform o m).2.program, p.Sound := by
  rcases perform_cases o m op with
    hsame | ⟨program, hchanged, hsound⟩ | ⟨solver, p, _, hm, hsolved⟩
  · rw [hsame]
    exact h
  · rw [hchanged]
    exact hsound h
  · rw [hsolved]
    rintro _ ⟨⟩
    exact h p hm

theorem run_sound (o : Options α) (ops : List (Operation α)) :
    ∀ p ∈ (run o ops).program, p.Sound :=
  List.foldlRecOn ops _ (motive := fun m : Model α => ∀ p ∈ m.program, p.Sound) (by simp [empty])
    fun _ hm op _ => perform_sound o op hm

theorem perform_coherent (h : m.Coherent)
    (hop : ∀ solver, op = .optimize solver → solver.WellFormed) :
    (op.perform o m).2.Coherent := by
  have hprogram := perform_sound o op h.program
  rcases perform_cases o m op with
    hsame | ⟨program, hchanged, _⟩ | ⟨solver, p, hsolver, _, hsolved⟩
  · rw [hsame]
    exact h
  · rw [hchanged] at hprogram ⊢
    exact coherent_of_settled hprogram (.inr Outcome.fresh_blank)
  · rw [hsolved] at hprogram ⊢
    exact coherent_of_settled hprogram (p.solve_settled (hop solver hsolver) o)

theorem perform_unloaded (hm : m.program = none → m = empty)
    (h : (op.perform o m).2.program = none) : (op.perform o m).2 = empty := by
  rcases perform_cases o m op with
    hsame | ⟨program, hchanged, _⟩ | ⟨solver, p, _, _, hsolved⟩
  · rw [hsame] at h ⊢
    exact hm h
  · rw [hchanged] at h ⊢
    obtain rfl : program = none := h
    rfl
  · rw [hsolved] at h
    cases h

theorem run_unloaded (o : Options α) (ops : List (Operation α)) :
    (run o ops).program = none → run o ops = empty :=
  List.foldlRecOn ops _ (motive := fun m : Model α => m.program = none → m = empty) (fun _ => rfl)
    fun _ hm _ _ => perform_unloaded hm

theorem program_perform_of_none (hm : m.program = none) (hop : ∀ d sense, op ≠ .load d sense) :
    (op.perform o m).2.program = none := by
  cases op with
  | load d sense => exact absurd rfl (hop d sense)
  | addQuadratic d relation => simp only [Operation.perform, addQuadratic, hm, change]
  | setTypes texts =>
    simp only [Operation.perform, setTypes, hm]
    split
    · rfl
    · exact hm
  | optimize solver =>
    rw [Operation.perform, optimize_of_none hm]
    exact hm
  | read g => exact hm

/-- Whatever is done with a model, and whenever it fails, its state stays coherent; without a
program, and so until the first load, it stays empty. -/
theorem run_coherent (o : Options α) (ops : List (Operation α))
    (h : ∀ solver, .optimize solver ∈ ops → solver.WellFormed) :
    (run o ops).Coherent ∧ ((run o ops).program = none → run o ops = empty) ∧
      ((∀ d sense, .load d sense ∉ ops) → (run o ops).program = none) := by
  refine ⟨?_, run_unloaded o ops, ?_⟩
  · apply List.foldlRecOn ops _ empty_coherent
    intro m hm op hop
    apply perform_coherent hm
    rintro solver rfl
    exact h solver hop
  · intro hload
    refine List.foldlRecOn ops _ (motive := fun m : Model α => m.program = none) rfl ?_
    intro m hm op hop
    apply program_perform_of_none hm
    rintro d sense rfl
    exact hload d sense hop

def originSolver : Solver Extended := fun _ c => .returned
  { success := true
    code := 0
    note := .none
    point := some (List.replicate c.numVar 0)
    iterations := none
    lowerMarginals := none
    upperMarginals := none }

def coneSession : List (Operation Extended) :=
  [.load
      { matrix := .compressed ⟨2, [[(0, .finite 1), (1, .finite 1)]]⟩
        lower := .ofList [.finite 0, .negInfinity]
        upper := .ofList [.infinity, .infinity]
        cost := .ofList [.finite 1, .finite 0]
        rowLower := .ofList [.negInfinity]
        rowUpper := .ofList [.finite 3] } "min",
    .addQuadratic (QuadraticRow.ofColumns [0, 2]).ready "<=",
    .addQuadratic ⟨[0], [.error .unfit], [], [], [], .ok 1⟩ "<=",
    .addQuadratic (QuadraticRow.ofColumns [0, 1]).ready "<=",
    .optimize fun _ _ => .raised .unfit,
    .read .solution,
    .optimize originSolver]

theorem run_coherent_cone :
    (run (Options.default Extended) coneSession).status = .optimal ∧
      (run (Options.default Extended) coneSession).numQuadratic = 1 ∧
      ∃ x, (run (Options.default Extended) coneSession).solution = .ok x := by
  have hwell : ∀ solver, .optimize solver ∈ coneSession → solver.WellFormed := by
    intro solver hsolver
    simp only [coneSession, List.mem_cons, List.not_mem_nil, or_false, reduceCtorEq, false_or,
      Operation.optimize.injEq] at hsolver
    rcases hsolver with rfl | rfl
    · intro i c r hr
      cases hr
    · intro i c r hr
      cases hr
      exact ⟨by simp, fun _ => ⟨_, rfl, List.length_replicate⟩, nofun, nofun⟩
  have hstatus : (run (Options.default Extended) coneSession).status = .optimal := by
    decide +kernel
  obtain ⟨hcoherent, _⟩ := run_coherent (Options.default Extended) coneSession hwell
  exact ⟨hstatus, by decide +kernel, hcoherent.solution.mp hstatus⟩

end Model

end ConeLift
