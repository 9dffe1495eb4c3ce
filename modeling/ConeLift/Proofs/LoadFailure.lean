import ConeLift.Proofs.Loading

/-!
Failed loads. A load that fails before the backend is touched changes nothing; once the lift is
built, only a stray column of a second-order variable cone can make it fail, and then the old
program is gone.
-/

namespace ConeLift

section

variable {α : Type} [Scalar α]

theorem Kept.map_ofData (d : ConicData α) :
    (Kept.ofData d).map Kept.lifted = Lifted.build d := by
  rw [ofData, Lifted.build]
  cases Lifted.checkKinds d.constraintCones d.variableCones with
  | error e => rfl
  | ok u =>
    cases hn : Lifted.readNumbers d with
    | error e => rfl
    | ok n =>
      cases hp : Lifted.ofNumbers n d.constraintCones d.variableCones with
      | error e => simp only [hp, bind, Except.bind, Except.map]
      | ok p => simp only [hp, bind, Except.bind, Except.map, pure, Except.pure]

theorem Kept.ofData_eq_ok {d : ConicData α} {kept : Kept α}
    (h : Kept.ofData d = .ok kept) : Lifted.build d = .ok kept.lifted := by
  rw [← map_ofData, h, Except.map]

theorem Kept.exists_of_build {d : ConicData α} {p : Lifted α}
    (h : Lifted.build d = .ok p) : ∃ kept, Kept.ofData d = .ok kept ∧ kept.lifted = p := by
  rw [← map_ofData] at h
  exact map_eq_ok_iff.mp h

end

namespace Backend

variable (o : Options Extended) (solver : Solver Extended)

theorem addQuadratics_eq_ok_iff (blocks : List (List ℕ)) (hne : ∀ block ∈ blocks, block ≠ [])
    (p : Program Extended) (outcome : Outcome Extended) (calls : List (Call Extended)) :
    ((Model.backend o solver).addQuadratics (blocks.map .ofColumns) (⟨some p, outcome⟩, calls)).1 =
        .ok () ↔ ∀ block ∈ blocks, ∀ j ∈ block, j < p.cost.length := by
  induction blocks generalizing p outcome with
  | nil => simp [addQuadratics]
  | cons block blocks ih =>
    have hhead : Program.checkQuadratic p.cost.length
        (QuadraticRow.ofColumns (α := Extended) block) QuadraticRow.relation = .ok () ↔
          ∀ j ∈ block, j < p.cost.length := by
      rw [checkQuadratic_eq_ok_iff, fits_ofColumns _ _ (hne block List.mem_cons_self)]
      exact and_iff_right rfl
    cases hcheck : Program.checkQuadratic p.cost.length
        (QuadraticRow.ofColumns (α := Extended) block) QuadraticRow.relation with
    | error e =>
      have hfail : ((Model.backend o solver).addQuadratics
          ((block :: blocks).map .ofColumns) (⟨some p, outcome⟩, calls)).1 = .error e := by
        simp only [List.map_cons, addQuadratics, Model.backend, Model.addQuadratic,
          Program.addQuadratic_ready, hcheck, Except.map, Model.change]
      rw [hcheck] at hhead
      rw [hfail, List.forall_mem_cons, ← hhead]
      simp
    | ok u =>
      rw [hcheck] at hhead
      have hstep : (Model.backend o solver).addQuadratics
          ((block :: blocks).map .ofColumns) (⟨some p, outcome⟩, calls) =
            (Model.backend o solver).addQuadratics (blocks.map .ofColumns)
              (⟨some { p with quadratics := p.quadratics ++ [.ofColumns block] }, .fresh⟩,
                calls) := by
        simp only [List.map_cons, addQuadratics, Model.backend, Model.addQuadratic,
          Program.addQuadratic_ready, hcheck, Except.map, Model.change]
      have htail := ih (fun block hblock => hne block (List.mem_cons_of_mem _ hblock))
        { p with quadratics := p.quadratics ++ [.ofColumns block] } .fresh
      rw [hstep, htail, List.forall_mem_cons, ← hhead]
      simp

theorem addQuadratics_keeps_program (qs : List (QuadraticRow Extended)) (m : Model Extended)
    (calls : List (Call Extended)) (h : m.program.isSome = true) :
    ((Model.backend o solver).addQuadratics qs (m, calls)).2.1.program.isSome = true := by
  induction qs generalizing m with
  | nil => exact h
  | cons q qs ih =>
    obtain ⟨p, hp⟩ := Option.isSome_iff_exists.mp h
    cases hadd : p.addQuadratic q.ready QuadraticRow.relation with
    | error e =>
      simp only [addQuadratics, Model.backend, Model.addQuadratic, hp, hadd, Model.change,
        Option.isSome_some]
    | ok p' =>
      simp only [addQuadratics, Model.backend, Model.addQuadratic, hp, hadd, Model.change]
      exact ih ⟨some p', .fresh⟩ rfl

variable {n : Numbers Extended} {constraintCones variableCones : List Cone}

theorem load_lift (h : n.Liftable constraintCones variableCones)
    (s : Model Extended × List (Call Extended)) :
    (Model.backend o solver).load (n.lift constraintCones variableCones).toLinear
        Sense.minimize.text s =
      (.ok (), (⟨some { (n.lift constraintCones variableCones).program with quadratics := [] },
        .fresh⟩, s.2)) := by
  have hsense : Sense.ofText? Sense.minimize.text = some .minimize := by decide
  simp only [Model.backend, Model.loadLinear, hsense, Program.ofLinear, check_lift h, bind,
    Except.bind, pure, Except.pure, Model.change]
  rfl

theorem loadLifted_eq_ok_iff (h : n.Liftable constraintCones variableCones)
    (s : Model Extended × List (Call Extended)) :
    ((Model.backend o solver).loadLifted (n.lift constraintCones variableCones) s).1 = .ok () ↔
      ∀ k ∈ variableCones, k.isSecondOrder = true → ∀ i ∈ k.indices,
        i < (n.lift constraintCones variableCones).numVar := by
  have hlength : (n.lift constraintCones variableCones).program.cost.length =
      (n.lift constraintCones variableCones).numVar := by
    simp [Lifted.program, Lifted.toLinear, Numbers.lift, Lifted.numVar]
  have hne : ∀ block ∈ secondOrderBlocks variableCones constraintCones n.cost.length,
      block ≠ [] := by
    rw [forall_secondOrderBlocks_iff]
    exact ⟨fun k _ _ hk => hk,
      fun block hblock => (bounds_of_mem_auxiliaryBlocks _ _ block hblock).1⟩
  have hquadratics := addQuadratics_eq_ok_iff o solver _ hne
    { (n.lift constraintCones variableCones).program with quadratics := [] } .fresh s.2
  have hloaded : ((Model.backend o solver).loadLifted (n.lift constraintCones variableCones) s) =
      (Model.backend o solver).addQuadratics
        ((secondOrderBlocks variableCones constraintCones n.cost.length).map .ofColumns)
        (⟨some { (n.lift constraintCones variableCones).program with quadratics := [] },
          .fresh⟩, s.2) := by
    rw [loadLifted, load_lift o solver h s]
    rfl
  rw [hloaded, hquadratics, forall_secondOrderBlocks_iff, hlength]
  constructor
  · rintro ⟨hvariable, _⟩ k hk hs i hi
    exact hvariable k hk hs (List.ne_nil_of_mem hi) i hi
  · intro hvariable
    refine ⟨fun k hk hs _ => hvariable k hk hs, ?_⟩
    intro block hblock j hj
    exact ((bounds_of_mem_auxiliaryBlocks _ _ block hblock).2 j hj).2

theorem loadLifted_program (h : n.Liftable constraintCones variableCones)
    (s : Model Extended × List (Call Extended)) :
    ((Model.backend o solver).loadLifted
      (n.lift constraintCones variableCones) s).2.1.program.isSome = true := by
  rw [loadLifted, load_lift o solver h s]
  exact addQuadratics_keeps_program o solver _ _ _ rfl

end Backend

namespace Bridge

/-- The bridges over a solver model that operations on either of them lead to. -/
inductive Reached : Bridge Extended (Model Extended × List (Call Extended)) → Prop
  | fresh : Reached ⟨none, Model.empty, []⟩
  | load {s} (o : Options Extended) (solver : Solver Extended) (d : ConicData Extended) :
      Reached s → Reached (load (Model.backend o solver) s d).2
  | program {s} (d : LinearData Extended) (sense : String) :
      Reached s → Reached { s with inner := ((s.inner.1.load d sense).2, s.inner.2) }
  | quadratic {s} (d : QuadraticData Extended) (relation : String) :
      Reached s → Reached { s with inner := ((s.inner.1.addQuadratic d relation).2, s.inner.2) }
  | types {s} (texts : List String) :
      Reached s → Reached { s with inner := ((s.inner.1.setTypes texts).2, s.inner.2) }
  | optimize {s} (o : Options Extended) (solver : Solver Extended) :
      Reached s → Reached (onInner (Model.backend o solver).optimize s).2

variable (o : Options Extended) (solver : Solver Extended)

theorem load_of_build_error {d : ConicData Extended}
    (s : Bridge Extended (Model Extended × List (Call Extended)))
    (h : ∀ p, Lifted.build d ≠ .ok p) : (load (Model.backend o solver) s d).2 = s := by
  cases hkept : Kept.ofData d with
  | error e => simp only [load, hkept]
  | ok kept => exact absurd (Kept.ofData_eq_ok hkept) (h kept.lifted)

theorem load_of_build {d : ConicData Extended} {p : Lifted Extended}
    (s : Bridge Extended (Model Extended × List (Call Extended))) (h : Lifted.build d = .ok p) :
    (load (Model.backend o solver) s d).1 = ((Model.backend o solver).loadLifted p s.inner).1 ∧
      (load (Model.backend o solver) s d).2.inner =
        ((Model.backend o solver).loadLifted p s.inner).2 := by
  obtain ⟨kept, hkept, rfl⟩ := Kept.exists_of_build h
  rw [load, hkept]
  rcases hload : (Model.backend o solver).loadLifted kept.lifted s.inner with ⟨_ | ⟨⟩, inner⟩ <;>
    simp only [hload, and_self]

/-- A failed load leaves everything as it was exactly for those problems whose second-order
variable cones have no column that is missing. -/
theorem load_keeps_state_iff (d : ConicData Extended) :
    (∀ s, Reached s → ∀ e, (load (Model.backend o solver) s d).1 = .error e →
        (load (Model.backend o solver) s d).2 = s) ↔
      ∀ p, Lifted.build d = .ok p → ∀ k ∈ d.variableCones, k.isSecondOrder = true →
        ∀ i ∈ k.indices, i < p.numVar := by
  constructor
  · intro hkeeps p hp
    obtain ⟨hresult, hinner⟩ := load_of_build o solver ⟨none, Model.empty, []⟩ hp
    obtain ⟨_, n, _, hn, rfl⟩ := (Lifted.build_eq_ok_iff d p).mp hp
    rw [← Backend.loadLifted_eq_ok_iff o solver hn (Model.empty, []), ← hresult]
    cases hload : (load (Model.backend o solver) ⟨none, Model.empty, []⟩ d).1 with
    | ok u => rfl
    | error e =>
      -- A load that got this far has put a program in the place of the missing one.
      have hsome := Backend.loadLifted_program o solver hn (Model.empty, [])
      rw [← hinner, hkeeps _ .fresh e hload] at hsome
      cases hsome
  · intro hcolumns s _ e he
    by_cases hbuild : ∃ p, Lifted.build d = .ok p
    · obtain ⟨p, hp⟩ := hbuild
      have hresult := (load_of_build o solver s hp).1
      have hin := hcolumns p hp
      obtain ⟨_, n, _, hn, rfl⟩ := (Lifted.build_eq_ok_iff d p).mp hp
      rw [(Backend.loadLifted_eq_ok_iff o solver hn s.inner).mpr hin, he] at hresult
      cases hresult
    · exact load_of_build_error o solver s fun p hp => hbuild ⟨p, hp⟩

def strayColumn : ConicData Extended where
  cost := .ofList [.finite 1]
  matrix := .nested (.list [.ofList [.finite 1]])
  rightHand := .ofList [.finite 1]
  constraintCones := []
  variableCones := [⟨.secondOrder, [0, 5]⟩]

theorem load_of_stray_column :
    (load (Model.backend (Options.default Extended) fun _ _ => .raised .unfit)
        ⟨none, Model.empty, []⟩ strayColumn).1 = .error (.noSuchVariable 5 1) ∧
      (load (Model.backend (Options.default Extended) fun _ _ => .raised .unfit)
        ⟨none, Model.empty, []⟩ strayColumn).2 ≠ ⟨none, Model.empty, []⟩ := by
  constructor
  · rfl
  · intro h
    have hsome := congrArg (fun s => s.inner.1.program.isSome) h
    have hloaded : (load (Model.backend (Options.default Extended) fun _ _ => .raised .unfit)
        ⟨none, Model.empty, []⟩ strayColumn).2.inner.1.program.isSome = true := rfl
    rw [hloaded] at hsome
    cases hsome

end Bridge

end ConeLift
