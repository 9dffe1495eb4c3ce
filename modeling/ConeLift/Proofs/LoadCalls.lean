import ConeLift.Recorder
import ConeLift.Proofs.LoadFailure

namespace ConeLift

variable {α σ : Type}

def Backend.logged (B : Backend α σ) : Backend α (σ × List (Recorded α × Except Error Unit)) where
  load m sense s :=
    let (r, t) := B.load m sense s.1
    (r, t, s.2 ++ [(.load m sense, r)])
  addQuadratic q relation s :=
    let (r, t) := B.addQuadratic q relation s.1
    (r, t, s.2 ++ [(.quadratic q relation, r)])
  setTypes texts s :=
    let (r, t) := B.setTypes texts s.1
    (r, t, s.2 ++ [(.types texts, r)])
  optimize s :=
    let (r, t) := B.optimize s.1
    (r, t, s.2 ++ [(.optimize, r)])
  status s := B.status s.1
  types s := B.types s.1
  solution s := B.solution s.1
  objective s := B.objective s.1
  reducedCosts s := B.reducedCosts s.1

/-- The calls of a plan are made in order, all of them or up to the first one that fails. -/
inductive Follows : List (Recorded α) → List (Recorded α × Except Error Unit) →
    Except Error Unit → Prop
  | finished (plan : List (Recorded α)) : Follows plan (plan.map fun c => (c, .ok ())) (.ok ())
  | stopped (before after : List (Recorded α)) (c : Recorded α) (e : Error) :
    Follows (before ++ c :: after) ((before.map fun c => (c, .ok ())) ++ [(c, .error e)]) (.error e)

theorem Follows.cons {plan : List (Recorded α)} {log : List (Recorded α × Except Error Unit)}
    {r : Except Error Unit} (c : Recorded α) (h : Follows plan log r) :
    Follows (c :: plan) ((c, .ok ()) :: log) r := by
  cases h with
  | finished => exact .finished (c :: plan)
  | stopped before after d e => exact .stopped (c :: before) after d e

namespace Backend

theorem addQuadratics_logged (B : Backend α σ) (qs : List (QuadraticRow α)) (t : σ)
    (past : List (Recorded α × Except Error Unit)) :
    ∃ log, B.logged.addQuadratics qs (t, past) =
        ((B.addQuadratics qs t).1, ((B.addQuadratics qs t).2, past ++ log)) ∧
      Follows (qs.map (.quadratic · QuadraticRow.relation)) log (B.addQuadratics qs t).1 := by
  induction qs generalizing t past with
  | nil => exact ⟨[], by simp [addQuadratics], .finished []⟩
  | cons q qs ih =>
    rcases hq : B.addQuadratic q QuadraticRow.relation t with ⟨_ | ⟨⟩, t'⟩
    · rename_i e
      refine ⟨[(.quadratic q QuadraticRow.relation, .error e)], ?_, ?_⟩
      · simp only [addQuadratics, logged, hq]
      · simp only [addQuadratics, hq]
        exact .stopped [] (qs.map (.quadratic · QuadraticRow.relation)) _ e
    · obtain ⟨log, hlog, hfollows⟩ :=
        ih t' (past ++ [(.quadratic q QuadraticRow.relation, .ok ())])
      refine ⟨(.quadratic q QuadraticRow.relation, .ok ()) :: log, ?_, ?_⟩
      · rw [List.append_assoc] at hlog
        simp only [addQuadratics, logged, hq] at hlog ⊢
        exact hlog
      · simp only [addQuadratics, hq]
        exact hfollows.cons _

theorem loadLifted_logged (B : Backend α σ) (p : Lifted α) (t : σ)
    (past : List (Recorded α × Except Error Unit)) :
    ∃ log, B.logged.loadLifted p (t, past) =
        ((B.loadLifted p t).1, ((B.loadLifted p t).2, past ++ log)) ∧
      Follows (.load p.toLinear Sense.minimize.text ::
        p.quadratics.map (.quadratic · QuadraticRow.relation)) log (B.loadLifted p t).1 := by
  rcases hload : B.load p.toLinear Sense.minimize.text t with ⟨_ | ⟨⟩, t'⟩
  · rename_i e
    refine ⟨[(.load p.toLinear Sense.minimize.text, .error e)], ?_, ?_⟩
    · simp only [loadLifted, logged, hload]
    · simp only [loadLifted, hload]
      exact .stopped [] (p.quadratics.map (.quadratic · QuadraticRow.relation)) _ e
  · obtain ⟨log, hlog, hfollows⟩ := B.addQuadratics_logged p.quadratics t'
      (past ++ [(.load p.toLinear Sense.minimize.text, .ok ())])
    refine ⟨(.load p.toLinear Sense.minimize.text, .ok ()) :: log, ?_, ?_⟩
    · rw [List.append_assoc] at hlog
      simp only [loadLifted, logged, hload] at hlog ⊢
      exact hlog
    · simp only [loadLifted, hload]
      exact hfollows.cons _

end Backend

section

variable [Scalar α]

def coneCall (columns : List ℕ) : Recorded α :=
  .quadratic (.ofColumns columns) QuadraticRow.relation

def Lifted.plan (p : Lifted α) (constraintCones variableCones : List Cone) : List (Recorded α) :=
  .load p.toLinear Sense.minimize.text ::
    ((quadraticCones variableCones).map fun k => coneCall k.indices) ++
      (auxiliaryBlocks p.numOrig constraintCones).map coneCall

theorem Lifted.plan_of_build {d : ConicData α} {p : Lifted α} (h : build d = .ok p) :
    p.plan d.constraintCones d.variableCones =
      .load p.toLinear Sense.minimize.text ::
        p.quadratics.map (.quadratic · QuadraticRow.relation) := by
  obtain ⟨_, n, _, _, rfl⟩ := (build_eq_ok_iff d p).mp h
  simp only [plan, Numbers.lift, secondOrderBlocks, List.map_append, List.map_map,
    List.cons_append]
  rfl

theorem Kept.ofData_of_build {d : ConicData α} {p : Lifted α} (h : Lifted.build d = .ok p) :
    ∃ n, Lifted.readNumbers d = .ok n ∧
      ofData d = .ok ⟨n, d.constraintCones, d.variableCones, p⟩ := by
  obtain ⟨⟨⟩, hkinds, h⟩ := (bind_eq_ok_iff _ _ _).mp h
  obtain ⟨n, hn, hp⟩ := (bind_eq_ok_iff _ _ _).mp h
  refine ⟨n, hn, ?_⟩
  simp only [ofData, hkinds, hn, hp, bind, Except.bind, pure, Except.pure]

theorem Kept.ofData_of_build_error {d : ConicData α} {e : Error} (h : Lifted.build d = .error e) :
    ofData d = .error e := by
  rw [← map_ofData] at h
  cases hkept : ofData d with
  | error e' =>
    rw [hkept] at h
    cases h
    rfl
  | ok kept =>
    rw [hkept] at h
    cases h

namespace Bridge

/-- Without a lift a load makes no call. Otherwise it follows the plan for its cones until a call
fails; the problem that is kept changes only if none does. -/
theorem load_follows_plan (B : Backend α σ) (d : ConicData α)
    (s : Bridge α (σ × List (Recorded α × Except Error Unit))) :
    (load B.logged s d).1 = (load B ⟨s.kept, s.inner.1⟩ d).1 ∧
      (load B.logged s d).2.inner.1 = (load B ⟨s.kept, s.inner.1⟩ d).2.inner ∧
      (load B.logged s d).2.kept = (load B ⟨s.kept, s.inner.1⟩ d).2.kept ∧
      match Lifted.build d with
      | .error e => load B.logged s d = (.error e, s)
      | .ok p =>
        (∃ log, (load B.logged s d).2.inner.2 = s.inner.2 ++ log ∧
          Follows (p.plan d.constraintCones d.variableCones) log (load B.logged s d).1) ∧
        List.Forall₂ (fun k block => block.length = k.size) (quadraticCones d.constraintCones)
          (auxiliaryBlocks p.numOrig d.constraintCones) ∧
        (auxiliaryBlocks p.numOrig d.constraintCones).flatten = List.range' p.numOrig p.numAux ∧
        match (load B.logged s d).1 with
        | .error _ => (load B.logged s d).2.kept = s.kept
        | .ok () => ∃ n, Lifted.readNumbers d = .ok n ∧
          (load B.logged s d).2.kept = some ⟨n, d.constraintCones, d.variableCones, p⟩ := by
  obtain ⟨kept, t, past⟩ := s
  cases hbuild : Lifted.build d with
  | error e =>
    have hkept := Kept.ofData_of_build_error hbuild
    simp only [load, hkept, and_self]
  | ok p =>
    obtain ⟨n, hn, hkept⟩ := Kept.ofData_of_build hbuild
    obtain ⟨log, hlog, hfollows⟩ := B.loadLifted_logged p t past
    obtain ⟨hsizes, hflatten⟩ := auxiliaryBlocks_spec p.numOrig d.constraintCones
    have hnumAux : (Partition.ofCones d.constraintCones).numAux = p.numAux := by
      obtain ⟨_, n', _, _, rfl⟩ := (Lifted.build_eq_ok_iff d p).mp hbuild
      rfl
    rw [hnumAux] at hflatten
    rw [← Lifted.plan_of_build hbuild] at hfollows
    rcases hloaded : B.loadLifted p t with ⟨_ | ⟨⟩, t'⟩
    · rw [hloaded] at hlog hfollows
      simp only [load, hkept, hlog, hloaded, true_and, and_true]
      exact ⟨⟨log, rfl, hfollows⟩, hsizes, hflatten⟩
    · rw [hloaded] at hlog hfollows
      simp only [load, hkept, hlog, hloaded, true_and]
      exact ⟨⟨log, rfl, hfollows⟩, hsizes, hflatten, n, hn, rfl⟩

end Bridge

end

end ConeLift
