import ConeLift.Proofs.Session
import ConeLift.Proofs.Solving

/-!
Sessions with a conic model over a solver model. The solver model always holds the program of the
last problem that was accepted, and nothing from before that load remains.
-/

namespace ConeLift

theorem Lifted.length_cost_of_build {d : ConicData Extended} {p : Lifted Extended}
    (h : build d = .ok p) : p.cost.length = p.numVar := by
  obtain ⟨_, n, _, _, rfl⟩ := (build_eq_ok_iff d p).mp h
  simp [Numbers.lift, numVar]

theorem Lifted.cost_of_readNumbers {d : ConicData Extended} {n : Numbers Extended}
    (h : readNumbers d = .ok n) : d.cost.toVector = .ok n.cost := by
  obtain ⟨c, hc, hrest⟩ := (bind_eq_ok_iff _ _ _).mp h
  obtain ⟨_, _, hrest⟩ := (bind_eq_ok_iff _ _ _).mp hrest
  obtain ⟨_, _, hnumbers⟩ := (bind_eq_ok_iff _ _ _).mp hrest
  cases hnumbers
  exact hc

def ConicData.InRange (d : ConicData Extended) : Prop :=
  ∀ c, d.cost.toVector = .ok c → ∀ k ∈ d.variableCones, ∀ i ∈ k.indices, i < c.length

theorem ConicData.inRange_of_ofList {d : ConicData Extended} {xs : List Extended}
    (hcost : d.cost = .ofList xs) (h : ∀ k ∈ d.variableCones, ∀ i ∈ k.indices, i < xs.length) :
    d.InRange := by
  intro c hc
  rw [hcost, ArrayLike.toVector_ofList] at hc
  cases hc
  exact h

theorem Problem.exists_toData {P : Problem Extended} (h : P.Valid)
    (hin : ∀ k ∈ P.variableCones, ∀ i ∈ k.indices, i < P.cost.length) :
    ∃ d, P.toData = .ok d ∧ d.InRange :=
  ⟨_, toData_of_valid h, ConicData.inRange_of_ofList rfl hin⟩

namespace Bridge

inductive Getter where
  | numVar
  | numConstr
  | status
  | types
  | solution
  | objective
  | reducedCosts

def Getter.read {σ : Type} (B : Backend Extended σ) (s : Bridge Extended σ) :
    Getter → Except Error Unit
  | numVar => s.numVar.map fun _ => ()
  | numConstr => s.numConstr.map fun _ => ()
  | solution => (B.solution s.inner).map fun _ => ()
  | objective => (B.objective s.inner).map fun _ => ()
  | reducedCosts => (B.reducedCosts s.inner).map fun _ => ()
  | status | types => .ok ()

inductive Operation where
  | load (d : ConicData Extended)
  | loadProblem (P : Problem Extended)
  | setTypes (texts : List String)
  | optimize
  | read (g : Getter)

namespace Operation

def perform {σ : Type} (B : Backend Extended σ) (s : Bridge Extended σ) :
    Operation → Except Error Unit × Bridge Extended σ
  | load d => s.load B d
  | loadProblem P => s.loadProblem B P
  | setTypes texts => s.onInner (B.setTypes texts)
  | optimize => s.onInner B.optimize
  | read g => (g.read B s, s)

def isLoad : Operation → Bool
  | load _ | loadProblem _ => true
  | setTypes _ | optimize | read _ => false

def InRange : Operation → Prop
  | load d => d.InRange
  | loadProblem P => P.Valid ∧ ∀ k ∈ P.variableCones, ∀ i ∈ k.indices, i < P.cost.length
  | setTypes _ | optimize | read _ => True

def data? : Operation → Option (ConicData Extended)
  | load d => some d
  | loadProblem P => P.toData.toOption
  | setTypes _ | optimize | read _ => none

def built? (op : Operation) : Option (Lifted Extended) :=
  op.data?.bind fun d => (Lifted.build d).toOption

def kept? (op : Operation) : Option (Kept Extended) :=
  op.data?.bind fun d => (Kept.ofData d).toOption

def types? (n : ℕ) : Operation → Option (List VarType)
  | setTypes texts => (Program.readTypes n texts).toOption
  | load _ | loadProblem _ | optimize | read _ => none

def onModel (o : Options Extended) (solver : Solver Extended) (m : Model Extended) :
    Operation → Model Extended
  | setTypes texts => (m.setTypes texts).2
  | optimize => (m.optimize o solver).2.1
  | load _ | loadProblem _ | read _ => m

end Operation

structure Step where
  solver : Solver Extended
  operation : Operation

def Step.perform (o : Options Extended) (step : Step)
    (s : Bridge Extended (Model Extended × List (Call Extended))) :
    Except Error Unit × Bridge Extended (Model Extended × List (Call Extended)) :=
  step.operation.perform (Model.backend o step.solver) s

def run (o : Options Extended) (steps : List Step) :
    Bridge Extended (Model Extended × List (Call Extended)) :=
  steps.foldl (fun s step => (step.perform o s).2) ⟨none, (Model.empty, [])⟩

def lastLoad : List Step → Option (Lifted Extended × List Step)
  | [] => none
  | step :: steps => lastLoad steps <|> step.operation.built?.map (·, steps)

def retyped (types : List VarType) (steps : List Step) : List VarType :=
  steps.foldl (fun types step => (step.operation.types? types.length).getD types) types

variable {o : Options Extended} {op : Operation} {step : Step} {steps : List Step}

theorem load_of_inRange {d : ConicData Extended} (hin : d.InRange) (o : Options Extended)
    (solver : Solver Extended) (s : Bridge Extended (Model Extended × List (Call Extended))) :
    (∃ e, Kept.ofData d = .error e ∧ load (Model.backend o solver) s d = (.error e, s)) ∨
      ∃ kept, Kept.ofData d = .ok kept ∧ load (Model.backend o solver) s d =
        (.ok (), ⟨some kept, (⟨some kept.lifted.program, .fresh⟩, s.inner.2)⟩) := by
  cases hkept : Kept.ofData d with
  | error e => exact .inl ⟨e, rfl, by rw [load, hkept]⟩
  | ok kept =>
    obtain ⟨_, n, hread, hn, hlifted⟩ :=
      (Lifted.build_eq_ok_iff d kept.lifted).mp (Kept.ofData_eq_ok hkept)
    have hcost := Lifted.cost_of_readNumbers hread
    -- The lift has at least as many columns as the cost has entries.
    have hloaded := Backend.loadLifted_of_ok o solver hn s.inner (by
      rw [Backend.loadLifted_eq_ok_iff o solver hn]
      intro k hk _ i hi
      exact Nat.lt_add_right _ (hin n.cost hcost k hk i hi))
    rw [← hlifted] at hloaded
    refine .inr ⟨kept, rfl, ?_⟩
    simp only [load, hkept, hloaded]

theorem load_of_built {d : ConicData Extended} {p : Lifted Extended} (hin : d.InRange)
    (hbuild : Lifted.build d = .ok p) (o : Options Extended) (solver : Solver Extended)
    (s : Bridge Extended (Model Extended × List (Call Extended))) :
    ∃ kept : Kept Extended, kept.lifted = p ∧ load (Model.backend o solver) s d =
      (.ok (), ⟨some kept, (⟨some p.program, .fresh⟩, s.inner.2)⟩) := by
  obtain ⟨kept, hkept, rfl⟩ := Kept.exists_of_build hbuild
  refine ⟨kept, rfl, ?_⟩
  rcases load_of_inRange hin o solver s with ⟨e, herror, _⟩ | ⟨kept', hkept', hload⟩
  · rw [hkept] at herror
    cases herror
  · obtain rfl : kept = kept' := Except.ok.inj (hkept.symm.trans hkept')
    exact hload

namespace Operation

theorem kept?_map_lifted (op : Operation) : op.kept?.map Kept.lifted = op.built? := by
  rw [kept?, built?, Option.map_bind]
  congr 1
  funext d
  rw [Function.comp_apply, ← Kept.map_ofData]
  cases Kept.ofData d <;> rfl

theorem exists_data {σ : Type} (B : Backend Extended σ) (hload : op.isLoad = true)
    (h : op.InRange) : ∃ d, op.data? = some d ∧ d.InRange ∧
      ∀ s : Bridge Extended σ, op.perform B s = s.load B d := by
  cases op with
  | load d => exact ⟨d, rfl, h, fun _ => rfl⟩
  | loadProblem P =>
    obtain ⟨d, hd, hin⟩ := Problem.exists_toData h.1 h.2
    refine ⟨d, ?_, hin, ?_⟩
    · rw [data?, hd]
      rfl
    · intro s
      rw [perform, Bridge.loadProblem, hd]
  | setTypes texts => cases hload
  | optimize => cases hload
  | read g => cases hload

theorem perform_load_eq_error_iff (hload : op.isLoad = true) (h : op.InRange)
    (o : Options Extended) (solver : Solver Extended)
    (s : Bridge Extended (Model Extended × List (Call Extended))) (e : Error) :
    (op.perform (Model.backend o solver) s).1 = .error e ↔
      ∃ d, op.data? = some d ∧ Lifted.build d = .error e := by
  obtain ⟨d, hd, hin, hperform⟩ := exists_data (Model.backend o solver) hload h
  simp only [hperform, hd, Option.some.injEq, exists_eq_left', ← Kept.map_ofData]
  rcases load_of_inRange hin o solver s with ⟨e', hkept, hrefused⟩ | ⟨kept, hkept, hdone⟩
  · rw [hrefused, hkept]
    simp [Except.map]
  · rw [hdone, hkept]
    simp [Except.map]

end Operation

def shown (s : Bridge Extended (Model Extended × List (Call Extended))) :
    Option (Kept Extended) × Model Extended := (s.kept, s.inner.1)

/-- A step as it should be: a lift that can be built replaces everything. -/
def Step.next (o : Options Extended) (v : Option (Kept Extended) × Model Extended) (step : Step) :
    Option (Kept Extended) × Model Extended :=
  match step.operation.kept? with
  | some kept => (some kept, ⟨some kept.lifted.program, .fresh⟩)
  | none => (v.1, step.operation.onModel o step.solver v.2)

theorem Step.shown_perform (h : step.operation.InRange) (o : Options Extended)
    (s : Bridge Extended (Model Extended × List (Call Extended))) :
    shown (step.perform o s).2 = step.next o (shown s) := by
  obtain ⟨solver, op⟩ := step
  by_cases hload : op.isLoad = true
  · obtain ⟨d, hd, hin, hperform⟩ := op.exists_data (Model.backend o solver) hload h
    have honModel : op.onModel o solver s.inner.1 = s.inner.1 := by
      cases op <;> first | rfl | cases hload
    rw [perform, hperform, next, Operation.kept?, hd, Option.bind_some]
    rcases load_of_inRange hin o solver s with ⟨e, hkept, hrefused⟩ | ⟨kept, hkept, hdone⟩
    · rw [hrefused, hkept]
      simp only [Except.toOption, shown, honModel]
    · rw [hdone, hkept]
      rfl
  · cases op with
    | load d => exact absurd rfl hload
    | loadProblem P => exact absurd rfl hload
    | setTypes texts => rfl
    | optimize => rfl
    | read g => rfl

theorem shown_run (o : Options Extended) (h : ∀ step ∈ steps, step.operation.InRange) :
    shown (run o steps) = steps.foldl (Step.next o) (none, .empty) := by
  -- From the end of the session: what a step shows depends only on what was shown before it.
  induction steps using List.reverseRecOn with
  | nil => rfl
  | append_singleton steps step ih =>
    have hsteps : ∀ step ∈ steps, step.operation.InRange := fun step hstep =>
      h step (List.mem_append_left _ hstep)
    rw [List.foldl_concat, ← ih hsteps, run, List.foldl_concat]
    exact Step.shown_perform (h step (by simp)) o _

theorem lastLoad_cons_eq_none_iff :
    lastLoad (step :: steps) = none ↔ step.operation.built? = none ∧ lastLoad steps = none := by
  cases hlast : lastLoad steps <;> simp [lastLoad, hlast]

theorem exists_of_lastLoad {p : Lifted Extended} {since : List Step}
    (h : lastLoad steps = some (p, since)) : ∃ before step,
      steps = before ++ step :: since ∧ step.operation.built? = some p ∧ lastLoad since = none := by
  induction steps with
  | nil => cases h
  | cons step steps ih =>
    rw [lastLoad] at h
    cases hlast : lastLoad steps with
    | some later =>
      rw [hlast] at h
      cases h
      obtain ⟨before, last, rfl, hbuilt, hsince⟩ := ih hlast
      exact ⟨step :: before, last, rfl, hbuilt, hsince⟩
    | none =>
      rw [hlast] at h
      obtain ⟨p', hbuilt, hpair⟩ := Option.map_eq_some_iff.mp h
      cases hpair
      exact ⟨[], step, rfl, hbuilt, hlast⟩

theorem Operation.exists_kept {p : Lifted Extended} (h : op.built? = some p) :
    ∃ kept, op.kept? = some kept ∧ kept.lifted = p := by
  rw [← kept?_map_lifted] at h
  exact Option.map_eq_some_iff.mp h

theorem Operation.length_cost_of_built {p : Lifted Extended} (h : op.built? = some p) :
    p.cost.length = p.numVar := by
  obtain ⟨d, _, hd⟩ := Option.bind_eq_some_iff.mp h
  cases hbuild : Lifted.build d with
  | error e =>
    rw [hbuild] at hd
    cases hd
  | ok p' =>
    rw [hbuild] at hd
    cases hd
    exact Lifted.length_cost_of_build hbuild

theorem foldl_next_reload {kept : Kept Extended} (h : step.operation.kept? = some kept)
    (o : Options Extended) (before after : List Step)
    (v : Option (Kept Extended) × Model Extended) :
    (before ++ step :: after).foldl (Step.next o) v =
      after.foldl (Step.next o) (some kept, ⟨some kept.lifted.program, .fresh⟩) := by
  simp only [List.foldl_append, List.foldl_cons, Step.next, h]

theorem Step.next_of_not_built (h : step.operation.built? = none) (o : Options Extended)
    (v : Option (Kept Extended) × Model Extended) :
    step.next o v = (v.1, step.operation.onModel o step.solver v.2) := by
  rw [← Operation.kept?_map_lifted, Option.map_eq_none_iff] at h
  rw [next, h]

theorem Operation.onModel_empty (op : Operation) (o : Options Extended)
    (solver : Solver Extended) : op.onModel o solver .empty = .empty := by
  cases op with
  | setTypes texts =>
    cases htypes : Program.readTypes 0 texts with
    | error e => simp only [onModel, Model.setTypes, Model.empty, htypes]
    | ok types => simp only [onModel, Model.setTypes, Model.empty, htypes]
  | load d => rfl
  | loadProblem P => rfl
  | optimize => rfl
  | read g => rfl

theorem Operation.program_onModel {p : Program Extended} {types : List VarType}
    {m : Model Extended} (hm : m.program = some { p with types }) (op : Operation)
    (o : Options Extended) (solver : Solver Extended) :
    (op.onModel o solver m).program =
      some { p with types := (op.types? types.length).getD types } := by
  cases op with
  | setTypes texts =>
    cases htypes : Program.readTypes types.length texts with
    | error e =>
      simp only [onModel, Model.setTypes, hm, types?, htypes, Except.map, Model.change,
        Except.toOption, Option.getD_none]
    | ok types' =>
      simp only [onModel, Model.setTypes, hm, types?, htypes, Except.map, Model.change,
        Except.toOption, Option.getD_some]
  | load d => exact hm
  | loadProblem P => exact hm
  | optimize =>
    rw [onModel, Model.optimize_of_some hm]
    rfl
  | read g => exact hm

theorem foldl_next_empty (h : lastLoad steps = none) (o : Options Extended) :
    steps.foldl (Step.next o) (none, .empty) = (none, .empty) := by
  induction steps with
  | nil => rfl
  | cons step steps ih =>
    obtain ⟨hstep, hsteps⟩ := lastLoad_cons_eq_none_iff.mp h
    rw [List.foldl_cons, Step.next_of_not_built hstep, Operation.onModel_empty]
    exact ih hsteps

theorem foldl_next_retyped {p : Program Extended} {types : List VarType}
    {v : Option (Kept Extended) × Model Extended} (h : lastLoad steps = none)
    (hv : v.2.program = some { p with types }) (o : Options Extended) :
    (steps.foldl (Step.next o) v).1 = v.1 ∧
      (steps.foldl (Step.next o) v).2.program = some { p with types := retyped types steps } := by
  -- For all types at once, since the first steps change the types the rest starts from.
  induction steps generalizing v types with
  | nil => exact ⟨rfl, hv⟩
  | cons step steps ih =>
    obtain ⟨hstep, hsteps⟩ := lastLoad_cons_eq_none_iff.mp h
    rw [List.foldl_cons, Step.next_of_not_built hstep, retyped, List.foldl_cons]
    exact ih hsteps (step.operation.program_onModel hv o step.solver)

/-- After any session whose loads name no variables that are missing: a load fails only because
there is no lift; the problem that is kept and the program of the model are those of the last lift
that was built, under the types set since; and a load makes the session before it as if it had
never been. -/
theorem run_mirrors_last_load (o : Options Extended) (steps : List Step)
    (h : ∀ step ∈ steps, step.operation.InRange) :
    (∀ step : Step, step.operation.isLoad = true → step.operation.InRange →
      ∀ e, (step.perform o (run o steps)).1 = .error e ↔
        ∃ d, step.operation.data? = some d ∧ Lifted.build d = .error e) ∧
      (lastLoad steps = none →
        (run o steps).kept = none ∧ (run o steps).inner.1 = Model.empty) ∧
      (∀ p since, lastLoad steps = some (p, since) →
        (run o steps).kept.map Kept.lifted = some p ∧
          (run o steps).inner.1.program = some { p.program with
            types := retyped (List.replicate p.numVar .continuous) since }) ∧
      ∀ before step after, steps = before ++ step :: after →
        step.operation.built?.isSome = true →
          (run o steps).kept = (run o (step :: after)).kept ∧
            (run o steps).inner.1 = (run o (step :: after)).inner.1 := by
  have hshown := shown_run o h
  refine ⟨?_, ?_, ?_, ?_⟩
  · intro step hload hin e
    exact Operation.perform_load_eq_error_iff hload hin o step.solver (run o steps) e
  · intro hlast
    rw [foldl_next_empty hlast] at hshown
    exact Prod.mk.inj hshown
  · intro p since hlast
    obtain ⟨before, step, rfl, hbuilt, hsince⟩ := exists_of_lastLoad hlast
    obtain ⟨kept, hkept, rfl⟩ := Operation.exists_kept hbuilt
    rw [foldl_next_reload hkept] at hshown
    obtain ⟨hfirst, hsecond⟩ := Prod.mk.inj hshown
    obtain ⟨hsame, hprogram⟩ := foldl_next_retyped (p := kept.lifted.program)
      (v := (some kept, ⟨some kept.lifted.program, .fresh⟩)) hsince rfl o
    rw [hfirst, hsecond, hsame, hprogram, ← Operation.length_cost_of_built hbuilt]
    exact ⟨rfl, rfl⟩
  · rintro before step after rfl hbuilt
    obtain ⟨p, hp⟩ := Option.isSome_iff_exists.mp hbuilt
    obtain ⟨kept, hkept, _⟩ := Operation.exists_kept hp
    have hafter := shown_run o fun step' hstep' => h step' (List.mem_append_right before hstep')
    rw [foldl_next_reload hkept] at hshown
    rw [← List.nil_append (step :: after), foldl_next_reload hkept, ← hshown] at hafter
    exact Prod.mk.inj hafter.symm

def halfLine : ConicData Extended where
  cost := .ofList [.finite 1]
  matrix := .nested (.list [.ofList [.finite 1]])
  rightHand := .ofList [.finite 2]
  constraintCones := [⟨.nonneg, [0]⟩]
  variableCones := [⟨.nonneg, [0]⟩]

def disc : ConicData Extended where
  cost := .ofList [.finite 1, .finite 0]
  matrix := .nested (.list [.ofList [.finite 0, .finite 1]])
  rightHand := .ofList [.finite 3]
  constraintCones := [⟨.secondOrder, [0]⟩]
  variableCones := [⟨.secondOrder, [0, 1]⟩]

def reloadSession : List Step :=
  [.load halfLine, .setTypes ["binary"], .load disc,
    .setTypes ["continuous", "integer", "continuous"], .setTypes ["binary"],
    .load { disc with variableCones := [⟨.exponential, [0, 1]⟩] }, .optimize].map
      (⟨fun _ _ => .raised .unfit, ·⟩)

theorem run_mirrors_last_load_disc :
    (run (Options.default Extended) reloadSession).inner.1.types =
        [.continuous, .integer, .continuous] ∧
      (run (Options.default Extended) reloadSession).inner.1.numQuadratic = 2 := by
  have hin : ∀ step ∈ reloadSession, step.operation.InRange := by
    simp only [reloadSession, List.forall_mem_map, List.forall_mem_cons, Operation.InRange,
      List.not_mem_nil, IsEmpty.forall_iff, implies_true, and_true, true_and]
    refine ⟨?_, ?_, ?_⟩ <;> exact ConicData.inRange_of_ofList rfl (by decide)
  obtain ⟨p, since, hlast, htypes, hquadratics⟩ : ∃ p since,
      lastLoad reloadSession = some (p, since) ∧
        retyped (List.replicate p.numVar .continuous) since =
          [.continuous, .integer, .continuous] ∧ p.quadratics.length = 2 :=
    ⟨_, _, rfl, rfl, rfl⟩
  obtain ⟨_, _, hmirrors, _⟩ := run_mirrors_last_load (Options.default Extended) reloadSession hin
  obtain ⟨_, hprogram⟩ := hmirrors p since hlast
  rw [Model.types, Model.numQuadratic, hprogram, htypes]
  exact ⟨rfl, hquadratics⟩

end Bridge

end ConeLift
