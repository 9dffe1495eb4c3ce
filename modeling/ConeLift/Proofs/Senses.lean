import ConeLift.Proofs.Negation
import ConeLift.Proofs.Session

namespace ConeLift

namespace ArrayLike

variable {α β : Type}

mutual

def map (f : α → β) : ArrayLike α → ArrayLike β
  | .entry x => .entry (f x)
  | .bad e => .bad e
  | .list xs => .list (mapAll f xs)

def mapAll (f : α → β) : List (ArrayLike α) → List (ArrayLike β)
  | [] => []
  | x :: xs => map f x :: mapAll f xs

end

theorem length_mapAll (f : α → β) (xs : List (ArrayLike α)) :
    (mapAll f xs).length = xs.length := by
  induction xs with
  | nil => rfl
  | cons x xs ih => rw [mapAll, List.length_cons, List.length_cons, ih]

mutual

theorem shape?_map (f : α → β) : (a : ArrayLike α) → (a.map f).shape? = a.shape?
  | .entry _ => rfl
  | .bad _ => rfl
  | .list xs => by
    rw [map, shape?, shape?, shapes?_mapAll f xs, length_mapAll]

theorem shapes?_mapAll (f : α → β) : (xs : List (ArrayLike α)) → shapes? (mapAll f xs) = shapes? xs
  | [] => rfl
  | x :: xs => by rw [mapAll, shapes?, shapes?, shape?_map f x, shapes?_mapAll f xs]

end

mutual

theorem flatten_map (f : α → β) : (a : ArrayLike α) →
    (a.map f).flatten = a.flatten.map (Except.map f)
  | .entry _ => rfl
  | .bad _ => rfl
  | .list xs => flattenAll_mapAll f xs

theorem flattenAll_mapAll (f : α → β) : (xs : List (ArrayLike α)) →
    flattenAll (mapAll f xs) = (flattenAll xs).map (Except.map f)
  | [] => rfl
  | x :: xs => by
    rw [mapAll, flattenAll, flattenAll, flatten_map f x, flattenAll_mapAll f xs, List.map_append]

end

theorem allOk_map (f : α → β) (xs : List (Except Error α)) :
    Vec.allOk (xs.map (Except.map f)) = (Vec.allOk xs).map (List.map f) := by
  induction xs with
  | nil => rfl
  | cons x xs ih =>
    simp only [Vec.allOk, List.map_cons, List.mapM_cons, id] at ih ⊢
    rw [ih]
    cases x with
    | error e => rfl
    | ok v =>
      cases List.mapM id xs with
      | error e => rfl
      | ok vs => rfl

theorem toVector_map (f : α → β) (a : ArrayLike α) :
    (a.map f).toVector = a.toVector.map (List.map f) := by
  rw [toVector, toVector, shape?_map, flatten_map, allOk_map]
  split <;> rfl

end ArrayLike

namespace Sense

def opposite : Sense → Sense
  | minimize => maximize
  | maximize => minimize

theorem opposite_signed (s : Sense) (a : Extended) : s.opposite.signed a = -s.signed a := by
  cases s with
  | minimize => rfl
  | maximize => exact (Extended.neg_neg a).symm

theorem opposite_signed_neg (s : Sense) (a : Extended) : s.opposite.signed (-a) = s.signed a := by
  cases s with
  | minimize => exact Extended.neg_neg a
  | maximize => rfl

def opposed (s : String) : String :=
  match ofText? s with
  | some sense => sense.opposite.text
  | none => s

theorem opposed_max : opposed "max" = "min" := by decide

theorem ofText?_opposed (s : String) : ofText? (opposed s) = (ofText? s).map opposite := by
  rw [opposed]
  split
  · rename_i sense hs
    rw [hs]
    cases sense <;> rfl
  · rename_i hs
    rw [hs]
    rfl

end Sense

def LinearData.negated (d : LinearData Extended) : LinearData Extended :=
  { d with cost := d.cost.map (-·) }

def LinearModel.negated (m : LinearModel Extended) : LinearModel Extended :=
  { m with cost := m.cost.map (-·) }

namespace LinearModel

theorem check_negated (m : LinearModel Extended) : m.negated.check = m.check := by
  have hlength : m.negated.cost.length = m.cost.length := List.length_map _
  rw [check, check, hlength]
  rfl

theorem ofData_negated (d : LinearData Extended) :
    ofData d.negated = (ofData d).map negated := by
  simp only [ofData, LinearData.negated, ArrayLike.toVector_map, map_bind_eq, bind_of_map]
  rfl

end LinearModel

def Outcome.mirrored (u : Outcome Extended) : Outcome Extended :=
  { u with
    objective := u.objective.map (-·)
    reducedCosts := u.reducedCosts.map (List.map (-·)) }

def Attempt.mirrored (a : Attempt Extended) : Attempt Extended :=
  { a with outcome := a.outcome.mirrored }

def Program.mirrored (p : Program Extended) : Program Extended :=
  { p with cost := p.cost.map (-·), sense := p.sense.opposite }

namespace Program

variable (p : Program Extended) (o : Options Extended) (solver : Solver Extended)

theorem ofLinear_negated (m : LinearModel Extended) (s : Sense) :
    ofLinear m.negated s.opposite = (ofLinear m s).map mirrored := by
  rw [ofLinear, ofLinear, m.check_negated]
  cases m.check with
  | error e => rfl
  | ok _ =>
    simp only [bind, Except.bind, pure, Except.pure, Except.map, mirrored, LinearModel.negated,
      List.length_map]

theorem ofData_negated (d : LinearData Extended) (s : String) :
    ofData d.negated (Sense.opposed s) = (ofData d s).map mirrored := by
  rw [ofData, ofData, Sense.ofText?_opposed, LinearModel.ofData_negated]
  cases hs : Sense.ofText? s with
  | none =>
    rw [Sense.opposed, hs]
    rfl
  | some sense =>
    cases LinearModel.ofData d with
    | error e => rfl
    | ok m => exact ofLinear_negated m sense

theorem addQuadratic_mirrored (d : QuadraticData Extended) (relation : String) :
    p.mirrored.addQuadratic d relation = (p.addQuadratic d relation).map mirrored := by
  simp only [addQuadratic, mirrored, List.length_map]
  cases checkQuadratic p.cost.length d relation with
  | error e => rfl
  | ok _ =>
    cases QuadraticRow.ofData d with
    | error e => rfl
    | ok q => rfl

theorem retyped_mirrored (texts : List String) :
    ((readTypes p.mirrored.types.length texts).map fun types => { p.mirrored with types }) =
      ((readTypes p.types.length texts).map fun types => { p with types }).map mirrored := by
  have htypes : p.mirrored.types = p.types := rfl
  rw [htypes]
  cases readTypes p.types.length texts with
  | error e => rfl
  | ok types => rfl

theorem signedCost_mirrored : p.mirrored.signedCost = p.signedCost := by
  simp only [signedCost, mirrored, List.map_map]
  exact List.map_congr_left fun a _ => p.sense.opposite_signed_neg a

theorem linearCall_mirrored : p.mirrored.linearCall o = p.linearCall o := by
  simp only [linearCall, signedCost_mirrored]
  rfl

theorem smoothCall_mirrored (columns : Bounds Extended) :
    p.mirrored.smoothCall o columns = p.smoothCall o columns := by
  simp only [smoothCall, signedCost_mirrored]
  rfl

theorem objective_mirrored (x : Option (List Extended)) :
    p.mirrored.objective x = (p.objective x).map (-·) := by
  cases x with
  | none => rfl
  | some x =>
    simp only [objective, mirrored, List.length_map, Extended.dot_map_neg]
    split <;> rfl

theorem unknownCosts_mirrored : p.mirrored.unknownCosts = p.unknownCosts.map (-·) := by
  simp only [unknownCosts, mirrored, List.map_map]
  rfl

theorem reducedCosts_mirrored (r : Report Extended) :
    p.mirrored.reducedCosts r = (p.reducedCosts r).map (List.map (-·)) := by
  rw [reducedCosts, reducedCosts]
  split
  · rename_i lo hi _ _
    cases Vec.zip (· + ·) lo hi with
    | error e => rfl
    | ok costs =>
      simp only [Except.map, mirrored, List.map_map]
      congr 1
      exact List.map_congr_left fun a _ => p.sense.opposite_signed a
  · rw [unknownCosts_mirrored]
    rfl

theorem accept_mirrored (r : Report Extended) (base : Outcome Extended)
    (reduced : Except Error (List Extended)) :
    p.mirrored.accept r base.mirrored (reduced.map (List.map (-·))) =
      ((p.accept r base reduced).1.mirrored, (p.accept r base reduced).2) := by
  rw [accept, accept, objective_mirrored]
  cases p.objective r.point with
  | error e => rfl
  | ok value =>
    cases reduced with
    | error e => rfl
    | ok costs => rfl

theorem conclude_mirrored (r : Report Extended) (base : Outcome Extended) :
    p.mirrored.conclude o r base.mirrored =
      ((p.conclude o r base).1.mirrored, (p.conclude o r base).2) := by
  have hviolation : p.mirrored.violation r.point = p.violation r.point := rfl
  rw [conclude, conclude, hviolation, unknownCosts_mirrored]
  split
  · exact p.accept_mirrored r base (.ok p.unknownCosts)
  · split
    · split
      · rfl
      · split <;> rfl
    · rfl

theorem solveLinear_mirrored :
    p.mirrored.solveLinear o solver = (p.solveLinear o solver).mirrored := by
  rw [solveLinear, solveLinear, linearCall_mirrored]
  cases p.linearCall o with
  | error e => rfl
  | ok call =>
    simp only
    cases solver 0 (.linear call) with
    | raised e => rfl
    | returned r =>
      simp only
      split
      · have haccept := p.accept_mirrored r
          { Outcome.fresh with message := .note r.note.orSilent, iterations := r.count }
          (p.reducedCosts r)
        rw [← reducedCosts_mirrored] at haccept
        exact congrArg (fun a => (⟨a.1, a.2, [.linear call]⟩ : Attempt Extended)) haccept
      · rfl

theorem solveBoxed_mirrored (first : Report Extended) (base : Outcome Extended)
    (calls : List (Call Extended)) :
    p.mirrored.solveBoxed o solver first base.mirrored calls =
      (p.solveBoxed o solver first base calls).mirrored := by
  have hcolumns : p.mirrored.columns = p.columns := rfl
  rw [solveBoxed, solveBoxed, hcolumns]
  simp only [smoothCall_mirrored]
  split
  · rfl
  · rename_i box call _
    cases solver 1 (.smooth call) with
    | raised e => rfl
    | returned boxed =>
      have hjudge : p.mirrored.judgeRetry o box boxed = p.judgeRetry o box boxed := rfl
      simp only [hjudge]
      cases p.judgeRetry o box boxed with
      | failed e => rfl
      | unbounded => rfl
      | keep =>
        have hconclude := p.conclude_mirrored o first
          { base with iterations := base.iterations + boxed.count }
        exact congrArg
          (fun a => (⟨a.1, a.2, calls ++ [.smooth call]⟩ : Attempt Extended)) hconclude
      | replace =>
        have hconclude := p.conclude_mirrored o boxed
          { base with
            iterations := base.iterations + boxed.count
            message := .spelled boxed.note }
        exact congrArg
          (fun a => (⟨a.1, a.2, calls ++ [.smooth call]⟩ : Attempt Extended)) hconclude

theorem solveSmooth_mirrored :
    p.mirrored.solveSmooth o solver = (p.solveSmooth o solver).mirrored := by
  have htypes : p.mirrored.types = p.types := rfl
  have hcolumns : p.mirrored.columns = p.columns := rfl
  rw [solveSmooth, solveSmooth, htypes, hcolumns, smoothCall_mirrored]
  split
  · rfl
  · cases p.smoothCall o p.columns with
    | error e => rfl
    | ok call =>
      simp only
      cases solver 0 (.smooth call) with
      | raised e => rfl
      | returned r =>
        simp only
        split
        · exact p.solveBoxed_mirrored o solver r
            { Outcome.fresh with message := .spelled r.note, iterations := r.count } [.smooth call]
        · have hconclude := p.conclude_mirrored o r
            { Outcome.fresh with message := .spelled r.note, iterations := r.count }
          exact congrArg
            (fun a => (⟨a.1, a.2, [.smooth call]⟩ : Attempt Extended)) hconclude

theorem solve_mirrored : p.mirrored.solve o solver = (p.solve o solver).mirrored := by
  rw [solve, solve, solveLinear_mirrored, solveSmooth_mirrored]
  have hquadratics : p.mirrored.quadratics = p.quadratics := rfl
  rw [hquadratics]
  split <;> rfl

end Program

namespace Model

def mirrored (m : Model Extended) : Model Extended :=
  ⟨m.program.map Program.mirrored, m.outcome.mirrored⟩

def Operation.mirrored : Operation Extended → Operation Extended
  | .load d sense => .load d.negated (Sense.opposed sense)
  | .addQuadratic d relation => .addQuadratic d relation
  | .setTypes texts => .setTypes texts
  | .optimize solver => .optimize solver
  | .read g => .read g

variable (m : Model Extended) (o : Options Extended)

theorem solution_mirrored : m.mirrored.solution = m.solution := rfl

theorem objective_mirrored :
    m.mirrored.objective = m.objective.map (Option.map (-·)) := by
  obtain ⟨program, status, _ | x, objective, costs, message, iterations⟩ := m
  · rfl
  · rfl

theorem reducedCosts_mirrored :
    m.mirrored.reducedCosts = m.reducedCosts.map (List.map (-·)) := by
  obtain ⟨program, status, _ | x, objective, _ | costs, message, iterations⟩ := m
  · rfl
  · rfl
  · rfl
  · rfl

theorem read_mirrored (g : Getter Extended) : g.read m.mirrored = g.read m := by
  have hmap {β γ : Type} (f : β → γ) (a : Except Error β) :
      (a.map f).map (fun _ => ()) = a.map fun _ => () := by cases a <;> rfl
  cases g with
  | objective => rw [Getter.read, objective_mirrored, hmap, Getter.read]
  | reducedCosts => rw [Getter.read, reducedCosts_mirrored, hmap, Getter.read]
  | violation x =>
    obtain ⟨_ | p, outcome⟩ := m
    · rfl
    · rfl
  | _ => rfl

theorem change_mirrored (r : Except Error (Program Extended)) :
    m.mirrored.change (r.map Program.mirrored) = ((m.change r).1, (m.change r).2.mirrored) := by
  cases r with
  | error e => rfl
  | ok p => rfl

theorem optimize_mirrored (solver : Solver Extended) :
    m.mirrored.optimize o solver =
      ((m.optimize o solver).1, (m.optimize o solver).2.1.mirrored,
        (m.optimize o solver).2.2) := by
  obtain ⟨_ | p, outcome⟩ := m
  · rfl
  · have hprogram : (mirrored ⟨some p, outcome⟩).program = some p.mirrored := rfl
    rw [optimize, hprogram]
    simp only [Program.solve_mirrored]
    rfl

theorem perform_mirrored (op : Operation Extended) :
    op.mirrored.perform o m.mirrored = ((op.perform o m).1, (op.perform o m).2.mirrored) := by
  cases op with
  | load d sense =>
    simp only [Operation.mirrored, Operation.perform, load, Program.ofData_negated,
      change_mirrored]
  | addQuadratic d relation =>
    obtain ⟨_ | p, outcome⟩ := m
    · rfl
    · have h := change_mirrored ⟨some p, outcome⟩ (p.addQuadratic d relation)
      rw [← p.addQuadratic_mirrored] at h
      exact h
  | setTypes texts =>
    obtain ⟨_ | p, outcome⟩ := m
    · simp only [Operation.mirrored, Operation.perform, setTypes, mirrored, Option.map_none]
      split <;> rfl
    · have h := change_mirrored ⟨some p, outcome⟩
        ((Program.readTypes p.types.length texts).map fun types => { p with types })
      rw [← p.retyped_mirrored] at h
      exact h
  | optimize solver => simp only [Operation.mirrored, Operation.perform, optimize_mirrored]
  | read g => simp only [Operation.mirrored, Operation.perform, read_mirrored]

theorem run_mirrored (ops : List (Operation Extended)) :
    run o (ops.map Operation.mirrored) = (run o ops).mirrored := by
  induction ops using List.reverseRecOn with
  | nil => rfl
  | append_singleton ops op ih =>
    have hlast := perform_mirrored (run o ops) o op
    rw [← ih] at hlast
    simp only [run, List.map_append, List.map_cons, List.map_nil, List.foldl_append,
      List.foldl_cons, List.foldl_nil] at hlast ⊢
    exact congrArg Prod.snd hlast

/-- A session that maximises a cost and one that minimises its negation: every operation gives the
same result, every attempt to solve makes the same calls, and only the objective value and the
reduced costs that can be read afterwards have opposite signs. -/
theorem run_max_eq_min_negated (past ops : List (Operation Extended)) (d : LinearData Extended) :
    let maximized := run o (past ++ .load d "max" :: ops)
    let minimized :=
      run o (past.map Operation.mirrored ++ .load d.negated "min" :: ops.map Operation.mirrored)
    (∀ op : Operation Extended,
        (op.mirrored.perform o minimized).1 = (op.perform o maximized).1) ∧
      ∀ solver, ∃ r m m' calls, maximized.optimize o solver = (r, m, calls) ∧
        minimized.optimize o solver = (r, m', calls) ∧ m'.status = m.status ∧
        m'.outcome.message = m.outcome.message ∧
        m'.outcome.iterations = m.outcome.iterations ∧ m'.solution = m.solution ∧
        m'.objective = m.objective.map (Option.map (-·)) ∧
        m'.reducedCosts = m.reducedCosts.map (List.map (-·)) := by
  intro maximized minimized
  have hload : Operation.mirrored (.load d "max") = .load d.negated "min" :=
    congrArg (Operation.load d.negated) Sense.opposed_max
  have hminimized : minimized = maximized.mirrored := by
    have hrun := run_mirrored o (past ++ .load d "max" :: ops)
    rw [List.map_append, List.map_cons, hload] at hrun
    exact hrun
  rw [hminimized]
  constructor
  · intro op
    rw [perform_mirrored]
  · intro solver
    have hoptimize := optimize_mirrored maximized o solver
    rcases hmaximized : maximized.optimize o solver with ⟨r, m, calls⟩
    rw [hmaximized] at hoptimize
    exact ⟨r, m, m.mirrored, calls, rfl, hoptimize, rfl, rfl, rfl, m.solution_mirrored,
      m.objective_mirrored, m.reducedCosts_mirrored⟩

end Model

end ConeLift
