import ConeLift.Proofs.Loading

/-!
Which columns the parts of a lifted problem talk about. An index of a variable cone is looked up
only where its cone sets a bound, and then among all columns, so an index that names no variable
may get through: as an auxiliary column, or unseen behind the lead of a second-order cone.
-/

namespace ConeLift

variable {α : Type} [Scalar α]

def variableBlocks (variableCones : List Cone) : List (List ℕ) :=
  (variableCones.filter fun k => k.isSecondOrder && !k.indices.isEmpty).map Cone.indices

/-- Variable cones and their rows talk about variables, all rows about columns that exist, and an
auxiliary column has the bounds that its own cone gives it. -/
structure Lifted.Apart (p : Lifted α) (constraintCones variableCones : List Cone) : Prop where
  cones : ∀ k ∈ variableCones, ∀ i ∈ k.indices, i < p.numOrig
  variableRows : ∀ q ∈ p.quadratics.take (variableBlocks variableCones).length, q.Fits p.numOrig
  rows : ∀ q ∈ p.quadratics, q.Fits p.numVar
  auxiliary : ∀ j, p.numOrig ≤ j → j < p.numVar →
    p.columns.lower[j]? =
        some (if j ∈ leadColumns p.numOrig constraintCones then 0 else -Scalar.infinity) ∧
      p.columns.upper[j]? = some Scalar.infinity

theorem forall_variableBlocks_iff (variableCones : List Cone) (n : ℕ) :
    (∀ block ∈ variableBlocks variableCones, ∀ j ∈ block, j < n) ↔
      ∀ k ∈ variableCones, k.isSecondOrder = true → ∀ i ∈ k.indices, i < n := by
  simp only [variableBlocks, List.forall_mem_map, List.mem_filter, Bool.and_eq_true,
    Bool.not_eq_true', List.isEmpty_eq_false_iff, and_imp]
  constructor
  · intro h k hk hs i hi
    exact h k hk hs (List.ne_nil_of_mem hi) i hi
  · intro h k hk hs _
    exact h k hk hs

theorem forall_rows_fit_iff (blocks : List (List ℕ)) (hne : ∀ block ∈ blocks, block ≠ []) (n : ℕ) :
    (∀ q ∈ blocks.map (QuadraticRow.ofColumns (α := α)), q.Fits n) ↔
      ∀ block ∈ blocks, ∀ j ∈ block, j < n := by
  rw [List.forall_mem_map]
  apply forall₂_congr
  intro block hblock
  exact fits_ofColumns n block (hne block hblock)

section

variable (n : Numbers α) (constraintCones variableCones : List Cone)

theorem variableRows_fit_iff (m : ℕ) :
    (∀ q ∈ (n.lift constraintCones variableCones).quadratics.take
        (variableBlocks variableCones).length, q.Fits m) ↔
      ∀ k ∈ variableCones, k.isSecondOrder = true → ∀ i ∈ k.indices, i < m := by
  have hrows : (n.lift constraintCones variableCones).quadratics.take
      (variableBlocks variableCones).length =
        (variableBlocks variableCones).map QuadraticRow.ofColumns := by
    have hsplit : (n.lift constraintCones variableCones).quadratics =
        (variableBlocks variableCones).map QuadraticRow.ofColumns ++
          (auxiliaryBlocks n.cost.length constraintCones).map QuadraticRow.ofColumns :=
      List.map_append
    rw [hsplit]
    exact List.take_left' (List.length_map _)
  have hne : ∀ block ∈ variableBlocks variableCones, block ≠ [] := by
    simp only [variableBlocks, List.forall_mem_map, List.mem_filter, Bool.and_eq_true,
      Bool.not_eq_true', List.isEmpty_eq_false_iff]
    exact fun k hk => hk.2.2
  rw [hrows, forall_rows_fit_iff _ hne, forall_variableBlocks_iff]

theorem rows_fit_iff :
    (∀ q ∈ (n.lift constraintCones variableCones).quadratics,
        q.Fits (n.lift constraintCones variableCones).numVar) ↔
      ∀ k ∈ variableCones, k.isSecondOrder = true → ∀ i ∈ k.indices,
        i < (n.lift constraintCones variableCones).numVar := by
  have hauxiliary := bounds_of_mem_auxiliaryBlocks n.cost.length constraintCones
  have hne : ∀ block ∈ secondOrderBlocks variableCones constraintCones n.cost.length,
      block ≠ [] := by
    rw [forall_secondOrderBlocks_iff]
    exact ⟨fun k _ _ hk => hk, fun block hblock => (hauxiliary block hblock).1⟩
  have hrows : (n.lift constraintCones variableCones).quadratics =
      (secondOrderBlocks variableCones constraintCones n.cost.length).map
        QuadraticRow.ofColumns := rfl
  rw [hrows, forall_rows_fit_iff _ hne, ← forall_variableBlocks_iff, secondOrderBlocks,
    List.forall_mem_append]
  constructor
  · exact fun h => h.1
  · exact fun h => ⟨h, fun block hblock j hj => ((hauxiliary block hblock).2 j hj).2⟩

variable {n constraintCones variableCones}

theorem auxiliary_bounds {j : ℕ} (hj : j < (n.lift constraintCones variableCones).numVar)
    (hfree : ∀ k ∈ variableCones, j ∉ k.bounded) :
    (n.lift constraintCones variableCones).columns.lower[j]? =
        some (if j ∈ leadColumns n.cost.length constraintCones then 0 else -Scalar.infinity) ∧
      (n.lift constraintCones variableCones).columns.upper[j]? = some Scalar.infinity := by
  have hcolumns : (n.lift constraintCones variableCones).columns =
      .tabulate (n.lift constraintCones variableCones).numVar
        (columnBounds variableCones constraintCones n.cost.length) := rfl
  simp only [hcolumns, Bounds.tabulate, List.getElem?_map, List.getElem?_range hj, Option.map_some,
    columnBounds_of_free _ _ _ _ hfree, and_self]

theorem apart_of_lt
    (h : ∀ k ∈ variableCones, ∀ i ∈ k.indices, i < (n.lift constraintCones variableCones).numOrig) :
    (n.lift constraintCones variableCones).Apart constraintCones variableCones := by
  constructor
  · exact h
  · rw [variableRows_fit_iff]
    exact fun k hk _ => h k hk
  · rw [rows_fit_iff]
    exact fun k hk _ i hi => Nat.lt_add_right _ (h k hk i hi)
  · intro j hle hj
    apply auxiliary_bounds hj
    intro k hk hjk
    exact absurd (h k hk j (mem_indices_of_mem_bounded hjk)) (not_lt.mpr hle)

end

namespace Lifted

/-- The columns of a problem are kept apart exactly if every index of a variable cone names a
variable. What a build refuses is an index beyond all columns that its cone sets a bound for. -/
theorem build_apart_iff {d : ConicData α} {p : Lifted α} (h : build d = .ok p) :
    (p.Apart d.constraintCones d.variableCones ↔
      ∀ k ∈ d.variableCones, ∀ i ∈ k.indices, i < p.numOrig) ∧
    (∀ k ∈ d.variableCones, ∀ i ∈ k.bounded, i < p.numVar) ∧
    ((∀ q ∈ p.quadratics.take (variableBlocks d.variableCones).length, q.Fits p.numOrig) ↔
      ∀ k ∈ d.variableCones, k.isSecondOrder = true → ∀ i ∈ k.indices, i < p.numOrig) ∧
    ((∀ q ∈ p.quadratics, q.Fits p.numVar) ↔
      ∀ k ∈ d.variableCones, k.isSecondOrder = true → ∀ i ∈ k.indices, i < p.numVar) := by
  obtain ⟨_, n, _, hn, rfl⟩ := (build_eq_ok_iff d p).mp h
  exact ⟨⟨Apart.cones, apart_of_lt⟩, hn.bounded, variableRows_fit_iff n _ _ _,
    rows_fit_iff n _ _⟩

def leadingVariable : ConicData Extended where
  cost := .ofList [.finite 1, .finite 1]
  matrix := .nested (.list [.ofList [.finite 1, .finite 0], .ofList [.finite 0, .finite 1]])
  rightHand := .ofList [.finite 3, .finite 4]
  constraintCones := [⟨.secondOrder, [0, 1]⟩]
  variableCones := [⟨.secondOrder, [1, 0]⟩]

theorem build_apart_leading_variable :
    ∃ p, build leadingVariable = .ok p ∧ p.numVar = 4 ∧
      p.Apart leadingVariable.constraintCones leadingVariable.variableCones := by
  have hbuild : build leadingVariable = .ok (Numbers.lift
      ⟨[.finite 1, .finite 1], ⟨2, [[(0, .finite 1)], [(1, .finite 1)]]⟩, [.finite 3, .finite 4]⟩
        leadingVariable.constraintCones leadingVariable.variableCones) := by decide
  exact ⟨_, hbuild, rfl, (build_apart_iff hbuild).1.mpr (by decide)⟩

def strayVariables : ConicData Extended where
  cost := .ofList [.finite 1]
  matrix := .nested (.list [.ofList [.finite 1]])
  rightHand := .ofList [.finite 1]
  constraintCones := [⟨.secondOrder, [0]⟩]
  variableCones := [⟨.nonpos, [1]⟩, ⟨.secondOrder, [0, 5]⟩]

theorem build_of_stray_variables :
    ∃ p, build strayVariables = .ok p ∧ p.numOrig = 1 ∧ p.numVar = 2 ∧
      ¬(∀ k ∈ strayVariables.variableCones, ∀ i ∈ k.indices, i < p.numOrig) ∧
      ¬(∀ q ∈ p.quadratics, q.Fits p.numVar) ∧
      1 ∈ leadColumns p.numOrig strayVariables.constraintCones ∧
      p.columns.upper[1]? = some (.finite 0) := by
  refine ⟨_, rfl, rfl, rfl, by decide, ?_, by decide, rfl⟩
  intro h
  have hinside := (h (.ofColumns [0, 5]) (by decide)).inside 5 (by decide)
  exact absurd hinside.2 (by decide)

end Lifted

end ConeLift
