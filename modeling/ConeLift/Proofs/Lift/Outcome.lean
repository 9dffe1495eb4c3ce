import ConeLift.Proofs.Lift.Assembly
import ConeLift.Proofs.Lift.Columns

namespace ConeLift

variable {α : Type} [Scalar α]

def rowBounds (b : List α) (r : ℕ × Kind) : α × α :=
  (if r.2.boundsBelow then b.getD r.1 0 else -Scalar.infinity,
    if r.2.boundsAbove then b.getD r.1 0 else Scalar.infinity)

def linearRows (A : RowMatrix α) (parts : Partition) : List (List (ℕ × α)) :=
  parts.linear.map fun r => A.rows.getD r.1 []

def auxiliaryRows (A : RowMatrix α) (parts : Partition) : List (List (ℕ × α)) :=
  (parts.secondOrder.zip (List.range parts.numAux)).map fun p =>
    A.rows.getD p.1 [] ++ [(A.numCols + p.2, 1)]

def secondOrderBlocks (variableCones constraintCones : List Cone) (numOrig : ℕ) :
    List (List ℕ) :=
  (variableCones.filter fun k => k.isSecondOrder && !k.indices.isEmpty).map Cone.indices ++
    auxiliaryBlocks numOrig constraintCones

theorem forall_secondOrderBlocks_iff (variableCones constraintCones : List Cone) (numOrig : ℕ)
    (p : List ℕ → Prop) :
    (∀ block ∈ secondOrderBlocks variableCones constraintCones numOrig, p block) ↔
      (∀ k ∈ variableCones, k.isSecondOrder = true → k.indices ≠ [] → p k.indices) ∧
        ∀ block ∈ auxiliaryBlocks numOrig constraintCones, p block := by
  simp only [secondOrderBlocks, List.forall_mem_append, List.forall_mem_map, List.mem_filter,
    Bool.and_eq_true, Bool.not_eq_true', List.isEmpty_eq_false_iff, and_imp, ne_eq]

theorem secondOrderBlocks_eq_nil_iff (variableCones constraintCones : List Cone) (numOrig : ℕ) :
    secondOrderBlocks variableCones constraintCones numOrig = [] ↔
      ∀ k ∈ constraintCones ++ variableCones, k.isSecondOrder = true → k.indices = [] := by
  rw [secondOrderBlocks, List.append_eq_nil_iff, auxiliaryBlocks_eq_nil_iff, List.map_eq_nil_iff,
    List.filter_eq_nil_iff, List.forall_mem_append, and_comm]
  apply and_congr_right
  intro _
  simp only [Bool.and_eq_true, Bool.not_eq_true', List.isEmpty_eq_false_iff, not_and, not_not]

def QuadraticRow.ofColumns (columns : List ℕ) : QuadraticRow α :=
  .ofCone (columns.map fun i : ℕ => (i : ℤ))

structure Numbers.Liftable (n : Numbers α) (constraintCones variableCones : List Cone) : Prop where
  rows : n.matrix.numRows = n.rightHand.length
  cols : n.matrix.numCols = n.cost.length
  constraint : ∀ k ∈ constraintCones, ∀ i ∈ k.indices, i < n.rightHand.length
  bounded : ∀ k ∈ variableCones, ∀ i ∈ k.bounded,
    i < n.cost.length + (Partition.ofCones constraintCones).numAux

def Numbers.lift (n : Numbers α) (constraintCones variableCones : List Cone) : Lifted α :=
  let parts := Partition.ofCones constraintCones
  let fixed := parts.secondOrder.map (n.rightHand.getD · 0)
  { cost := n.cost ++ List.replicate parts.numAux 0
    columns := .tabulate (n.cost.length + parts.numAux)
      (columnBounds variableCones constraintCones n.cost.length)
    matrix := ⟨n.matrix.numCols + parts.numAux,
      linearRows n.matrix parts ++ auxiliaryRows n.matrix parts⟩
    rows := ⟨(parts.linear.map fun r => (rowBounds n.rightHand r).1) ++ fixed,
      (parts.linear.map fun r => (rowBounds n.rightHand r).2) ++ fixed⟩
    numOrig := n.cost.length
    numAux := parts.numAux
    numLinear := parts.linear.length
    quadratics := (secondOrderBlocks variableCones constraintCones n.cost.length).map .ofColumns }

theorem Numbers.numRows_lift (n : Numbers α) (constraintCones variableCones : List Cone) :
    (n.lift constraintCones variableCones).matrix.numRows =
      (n.lift constraintCones variableCones).numLinear +
        (n.lift constraintCones variableCones).numAux := by
  simp [lift, RowMatrix.numRows, linearRows, auxiliaryRows, Partition.numAux]

theorem forall_linear_iff (cones : List Cone) (p : ℕ → Kind → Prop) :
    (∀ r ∈ (Partition.ofCones cones).linear, p r.1 r.2) ↔
      ∀ k ∈ cones, k.isSecondOrder = false → ∀ i ∈ k.indices, p i k.kind := by
  simp only [Partition.ofCones, List.mem_flatMap, List.mem_filter, List.mem_map]
  constructor
  · intro h k hk hs i hi
    exact h (i, k.kind) ⟨k, ⟨hk, by simp [hs]⟩, i, hi, rfl⟩
  · rintro h r ⟨k, ⟨hk, hs⟩, i, hi, rfl⟩
    exact h k hk (by simpa using hs) i hi

theorem forall_secondOrder_iff (cones : List Cone) (p : ℕ → Prop) :
    (∀ i ∈ (Partition.ofCones cones).secondOrder, p i) ↔
      ∀ k ∈ cones, k.isSecondOrder = true → ∀ i ∈ k.indices, p i := by
  simp only [Partition.ofCones, List.mem_flatMap, List.mem_filter]
  constructor
  · intro h k hk hs i hi
    exact h i ⟨k, ⟨hk, hs⟩, hi⟩
  · rintro h i ⟨k, ⟨hk, hs⟩, hi⟩
    exact h k hk hs i hi

theorem forall_parts_iff (cones : List Cone) (p : ℕ → Prop) :
    (∀ r ∈ (Partition.ofCones cones).linear, p r.1) ∧
        (∀ i ∈ (Partition.ofCones cones).secondOrder, p i) ↔
      ∀ k ∈ cones, ∀ i ∈ k.indices, p i := by
  rw [forall_linear_iff cones fun i _ => p i, forall_secondOrder_iff]
  constructor
  · rintro ⟨hl, hs⟩ k hk
    by_cases h : k.isSecondOrder
    · exact hs k hk h
    · exact hl k hk (by simpa using h)
  · intro h
    exact ⟨fun k hk _ => h k hk, fun k hk _ => h k hk⟩

theorem Bounds.ofRows_ofNat (b : List α) (linear : List (ℕ × Kind))
    (h : ∀ r ∈ linear, r.1 < b.length) :
    Bounds.ofRows (linear.map fun r => ((r.1 : ℤ), r.2)) b =
      .ok ⟨linear.map fun r => (rowBounds b r).1, linear.map fun r => (rowBounds b r).2⟩ := by
  have hpairs : (linear.map fun r => ((r.1 : ℤ), r.2)).mapM
      (fun r => Bounds.ofRow r.2 (Vec.fetch b r.1)) = .ok (linear.map (rowBounds b)) := by
    apply mapM_map_of_forall
    intro r hr
    rw [Vec.fetch_ofNat b 0 (h r hr)]
    obtain ⟨i, k⟩ := r
    cases k <;> rfl
  simp only [Bounds.ofRows, hpairs, bind, Except.bind, List.map_map, Function.comp_def]

theorem stacked_parts (A : RowMatrix α) (parts : Partition) :
    A.stacked (parts.linear.map Prod.fst) parts.secondOrder =
      ⟨A.numCols + parts.numAux, linearRows A parts ++ auxiliaryRows A parts⟩ := by
  rw [RowMatrix.stacked, List.map_map]
  rfl

theorem assemble_parts (A : RowMatrix α) (parts : Partition)
    (hl : ∀ r ∈ parts.linear, r.1 < A.numRows) (hs : ∀ i ∈ parts.secondOrder, i < A.numRows) :
    assemble A (parts.linear.map fun r => (r.1 : ℤ)) (parts.secondOrder.map fun i : ℕ => (i : ℤ))
        parts.numAux =
      .ok ⟨A.numCols + parts.numAux, linearRows A parts ++ auxiliaryRows A parts⟩ := by
  have hrows : ∀ i ∈ parts.linear.map Prod.fst, i < A.numRows := by simpa using hl
  have hblock := assemble_ofNat A hrows hs
  rw [List.map_map, stacked_parts] at hblock
  exact hblock

theorem forall_lt_of_assemble {A B : RowMatrix α} {parts : Partition}
    (h : assemble A (parts.linear.map fun r => (r.1 : ℤ))
      (parts.secondOrder.map fun i : ℕ => (i : ℤ)) parts.numAux = .ok B) :
    ∀ r ∈ parts.linear, r.1 < A.numRows := by
  obtain ⟨top, htop, _⟩ := (bind_eq_ok_iff _ _ _).mp h
  have hmap : (parts.linear.map fun r => (r.1 : ℤ)) =
      (parts.linear.map Prod.fst).map fun i : ℕ => (i : ℤ) := by
    simp only [List.map_map, Function.comp_def]
  rw [hmap] at htop
  intro r hr
  exact RowMatrix.forall_lt_of_select htop r.1 (List.mem_map_of_mem hr)

theorem columnsFrom_ofNat (first count : ℕ) :
    columnsFrom first count = (List.range' first count).map fun i : ℕ => (i : ℤ) := by
  simp only [columnsFrom, List.range'_eq_map_range, List.map_map, Function.comp_def, Nat.cast_add]

theorem auxiliaryQuadratics_ofNat (first : ℕ) (cones : List Cone) :
    auxiliaryQuadratics (α := α) first cones =
      (auxiliaryBlocks first cones).map QuadraticRow.ofColumns := by
  induction cones generalizing first with
  | nil => rfl
  | cons k ks ih =>
    have hnext : ((first : ℤ) + (k.size : ℤ)) = ((first + k.size : ℕ) : ℤ) := by push_cast; rfl
    by_cases hk : (k.isSecondOrder && !k.indices.isEmpty) = true
    · simp only [auxiliaryQuadratics, auxiliaryBlocks, hk, if_true, List.map_cons,
        columnsFrom_ofNat, hnext, ih, QuadraticRow.ofColumns]
    · simp only [auxiliaryQuadratics, auxiliaryBlocks, hk, if_false, ih, Bool.false_eq_true]

theorem coneQuadratics_ofNat (variableCones constraintCones : List Cone) (numOrig : ℕ) :
    coneQuadratics (α := α) variableCones constraintCones numOrig =
      (secondOrderBlocks variableCones constraintCones numOrig).map QuadraticRow.ofColumns := by
  simp only [coneQuadratics, secondOrderBlocks, auxiliaryQuadratics_ofNat, List.map_append,
    List.map_map]
  rfl

def firstUnsupported (cones : List Cone) : Option Kind :=
  (cones.find? fun k => !k.kind.supported).map Cone.kind

theorem firstUnsupported_append (ks ls : List Cone) :
    firstUnsupported (ks ++ ls) = (firstUnsupported ks).or (firstUnsupported ls) := by
  rw [firstUnsupported, List.find?_append, Option.map_or]
  rfl

theorem firstUnsupported_eq_none_iff (cones : List Cone) :
    firstUnsupported cones = none ↔ ∀ k ∈ cones, k.kind.supported = true := by
  simp [firstUnsupported]

theorem firstUnsupported_of_prefix {before after : List Cone} {k : Cone}
    (hbefore : ∀ k' ∈ before, k'.kind.supported = true) (hk : k.kind.supported = false) :
    firstUnsupported (before ++ k :: after) = some k.kind := by
  rw [firstUnsupported_append, (firstUnsupported_eq_none_iff before).mpr hbefore]
  simp [firstUnsupported, hk]

namespace Lifted

theorem checkKinds_eq (constraintCones variableCones : List Cone) :
    checkKinds constraintCones variableCones =
      (firstUnsupported (constraintCones ++ variableCones)).elim (.ok ())
        fun kind => .error (.unsupported kind) := by
  rw [checkKinds, firstUnsupported]
  cases (constraintCones ++ variableCones).find? fun k => !k.kind.supported with
  | none => rfl
  | some k => rfl

theorem checkKinds_eq_ok_iff (constraintCones variableCones : List Cone) :
    checkKinds constraintCones variableCones = .ok () ↔
      ∀ k ∈ constraintCones ++ variableCones, k.kind.supported = true := by
  rw [checkKinds_eq, ← firstUnsupported_eq_none_iff]
  cases firstUnsupported (constraintCones ++ variableCones) with
  | none => simp
  | some kind => simp

theorem ofNumbers_of_liftable (n : Numbers α) (constraintCones variableCones : List Cone)
    (h : n.Liftable constraintCones variableCones) :
    ofNumbers n constraintCones variableCones =
      .ok (n.lift constraintCones variableCones) := by
  obtain ⟨hl, hs⟩ := (forall_parts_iff _ _).mpr h.constraint
  have hshape : ¬¬(n.matrix.numRows = n.rightHand.length ∧ n.matrix.numCols = n.cost.length) :=
    not_not.mpr ⟨h.rows, h.cols⟩
  have hcolumns := (Bounds.ofVariables_eq_ok_iff (α := α) _ _ _ _).mpr ⟨h.bounded, rfl⟩
  have hrows := Bounds.ofRows_ofNat n.rightHand _ hl
  have hfixed := Vec.gather_ofNat n.rightHand 0 _ hs
  have hmatrix := assemble_parts n.matrix (Partition.ofCones constraintCones)
    (by rw [h.rows]; exact hl) (by rw [h.rows]; exact hs)
  simp only [ofNumbers, hshape, if_false, hcolumns, hrows, hfixed, bind, Except.bind, pure,
    Except.pure, List.map_map, Function.comp_def, hmatrix, List.length_map, coneQuadratics_ofNat]
  rfl

theorem liftable_of_ofNumbers {n : Numbers α} {constraintCones variableCones : List Cone}
    {p : Lifted α} (h : ofNumbers n constraintCones variableCones = .ok p) :
    n.Liftable constraintCones variableCones := by
  by_cases hshape : n.matrix.numRows = n.rightHand.length ∧ n.matrix.numCols = n.cost.length
  · have hguard : ¬¬(n.matrix.numRows = n.rightHand.length ∧ n.matrix.numCols = n.cost.length) :=
      not_not.mpr hshape
    simp only [ofNumbers, hguard, if_false] at h
    obtain ⟨columns, hcolumns, h⟩ := (bind_eq_ok_iff _ _ _).mp h
    obtain ⟨rows, _, h⟩ := (bind_eq_ok_iff _ _ _).mp h
    obtain ⟨fixed, hfixed, h⟩ := (bind_eq_ok_iff _ _ _).mp h
    obtain ⟨matrix, hmatrix, _⟩ := (bind_eq_ok_iff _ _ _).mp h
    simp only [List.map_map, Function.comp_def] at hmatrix
    have hs := Vec.forall_lt_of_gather hfixed
    have hl := forall_lt_of_assemble hmatrix
    rw [hshape.1] at hl
    exact ⟨hshape.1, hshape.2, (forall_parts_iff _ _).mp ⟨hl, hs⟩,
      ((Bounds.ofVariables_eq_ok_iff _ _ _ _).mp hcolumns).1⟩
  · simp only [ofNumbers, hshape, not_false_eq_true, if_true] at h
    cases h

theorem ofNumbers_eq_ok_iff (n : Numbers α) (constraintCones variableCones : List Cone)
    (p : Lifted α) :
    ofNumbers n constraintCones variableCones = .ok p ↔
      n.Liftable constraintCones variableCones ∧ p = n.lift constraintCones variableCones := by
  constructor
  · intro h
    have hl := liftable_of_ofNumbers h
    rw [ofNumbers_of_liftable n _ _ hl] at h
    cases h
    exact ⟨hl, rfl⟩
  · rintro ⟨hl, rfl⟩
    exact ofNumbers_of_liftable n _ _ hl

theorem build_eq_ok_iff (d : ConicData α) (p : Lifted α) :
    build d = .ok p ↔
      (∀ k ∈ d.constraintCones ++ d.variableCones, k.kind.supported = true) ∧
        ∃ n, readNumbers d = .ok n ∧ n.Liftable d.constraintCones d.variableCones ∧
          p = n.lift d.constraintCones d.variableCones := by
  rw [← checkKinds_eq_ok_iff]
  simp only [build, bind_eq_ok_iff, ofNumbers_eq_ok_iff]
  constructor
  · rintro ⟨⟨⟩, hkinds, h⟩
    exact ⟨hkinds, h⟩
  · rintro ⟨hkinds, h⟩
    exact ⟨(), hkinds, h⟩

end Lifted

end ConeLift
