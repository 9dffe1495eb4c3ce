import ConeLift.Proofs.Lift.Outcome
import ConeLift.Scalar.Extended

namespace ConeLift

section

variable {β γ : Type}

def FailsAs (f : ErrorFamily) (a : Except Error β) : Prop := ∀ e, a = .error e → e.family = f

namespace FailsAs

variable {f : ErrorFamily}

theorem ok (b : β) : FailsAs f (.ok b) := by rintro _ ⟨⟩

theorem error {e : Error} (h : e.family = f) : FailsAs f (.error e : Except Error β) := by
  rintro _ ⟨⟩
  exact h

theorem bind {a : Except Error β} {g : β → Except Error γ} (ha : FailsAs f a)
    (hg : ∀ b, a = .ok b → FailsAs f (g b)) : FailsAs f (a >>= g) := by
  cases a with
  | error e => exact error (ha e rfl)
  | ok b => exact hg b rfl

theorem mapM {g : β → Except Error γ} (hg : ∀ b, FailsAs f (g b)) (bs : List β) :
    FailsAs f (bs.mapM g) := by
  induction bs with
  | nil => exact ok []
  | cons b bs ih =>
    rw [List.mapM_cons]
    apply (hg b).bind
    intro c _
    apply ih.bind
    intro cs _
    exact ok (c :: cs)

end FailsAs

namespace Vec

theorem failsAs_position (size : ℕ) (i : ℤ) : FailsAs .index (position size i) := by
  rw [position]
  split_ifs
  · exact .ok _
  · exact .ok _
  · exact .error rfl
  · exact .error rfl

theorem failsAs_fetch (xs : List β) (i : ℤ) : FailsAs .index (fetch xs i) := by
  apply (failsAs_position _ i).bind
  intro k _
  split
  · exact .ok _
  · exact .error rfl

theorem failsAs_gather (xs : List β) (is : List ℤ) : FailsAs .index (gather xs is) := by
  rw [gather]
  split
  · exact .mapM (failsAs_fetch xs) is
  · exact .error rfl

theorem canIndex_of_lt {size i : ℕ} (h : i < 2 ^ 63) : canIndex size (i : ℤ) = true := by
  have hlimit : indexLimit = 2 ^ 63 := by rw [indexLimit, Int.pow_eq]
  simp only [canIndex, isIndex, hlimit, Bool.or_eq_true, Bool.and_eq_true, decide_eq_true_eq]
  omega

end Vec

theorem RowMatrix.failsAs_select (A : RowMatrix β) (is : List ℕ) (h : ∀ i ∈ is, i < 2 ^ 63) :
    FailsAs .index (A.select (is.map fun i : ℕ => (i : ℤ))) := by
  have hall : (is.map fun i : ℕ => (i : ℤ)).all (Vec.canIndex A.rows.length) = true := by
    rw [List.all_eq_true, List.forall_mem_map]
    exact fun i hi => Vec.canIndex_of_lt (h i hi)
  simp only [select, hall, Bool.not_true, Bool.false_eq_true, if_false]
  split
  · exact .ok _
  · exact .error rfl

end

theorem Partition.length_linear_add_numAux (cones : List Cone) :
    (ofCones cones).linear.length + (ofCones cones).numAux = (cones.map Cone.size).sum := by
  induction cones with
  | nil => rfl
  | cons k ks ih =>
    rw [List.map_cons, List.sum_cons, ← ih, numAux_cons]
    by_cases hk : k.isSecondOrder = true
    · simp [ofCones, hk]
      omega
    · simp [ofCones, hk, Cone.size]
      omega

variable {α : Type} [Scalar α]

theorem Bounds.error_of_ofRow {k : Kind} {b : Except Error α} {e : Error}
    (h : ofRow k b = .error e) : b = .error e := by
  cases b with
  | error e' => cases k <;> cases h <;> rfl
  | ok x => cases k <;> cases h

theorem Bounds.failsAs_ofRows (rows : List (ℤ × Kind)) (b : List α) :
    FailsAs .index (ofRows rows b) := by
  refine (FailsAs.mapM ?_ rows).bind fun _ _ => .ok _
  intro r e he
  exact Vec.failsAs_fetch b r.1 e (error_of_ofRow he)

theorem failsAs_assemble (A : RowMatrix α) (parts : Partition)
    (hl : ∀ r ∈ parts.linear, r.1 < 2 ^ 63) (hs : ∀ i ∈ parts.secondOrder, i < 2 ^ 63) :
    FailsAs .index (assemble A (parts.linear.map fun r => (r.1 : ℤ))
      (parts.secondOrder.map fun i : ℕ => (i : ℤ)) parts.numAux) := by
  have hlinear : (parts.linear.map fun r => (r.1 : ℤ)) =
      (parts.linear.map Prod.fst).map fun i : ℕ => (i : ℤ) := by
    simp only [List.map_map, Function.comp_def]
  have hneg : ¬((A.numCols : ℤ) + (parts.numAux : ℤ) < 0) := by omega
  have htop := A.failsAs_select (parts.linear.map Prod.fst) (by simpa using hl)
  rw [← hlinear] at htop
  cases hlookup : A.select (parts.linear.map fun r => (r.1 : ℤ)) with
  | error e =>
    simp only [assemble, hlookup, bind, Except.bind]
    exact .error (htop e hlookup)
  | ok top =>
    cases hbottom : A.select (parts.secondOrder.map fun i : ℕ => (i : ℤ)) with
    | error e =>
      simp only [assemble, hlookup, hbottom, hneg, bind, Except.bind, pure, Except.pure, if_false]
      split
      · exact .ok top
      · exact .error (A.failsAs_select _ hs e hbottom)
    | ok bottom =>
      rw [hlinear] at hlookup
      have hrows := RowMatrix.forall_lt_of_select hlookup
      rw [List.forall_mem_map] at hrows
      rw [assemble_parts A parts hrows (RowMatrix.forall_lt_of_select hbottom)]
      exact .ok _

namespace Lifted

variable {n : Numbers α} {constraintCones variableCones : List Cone}

theorem failsAs_ofNumbers
    (hsizes : n.matrix.numRows = n.rightHand.length ∧ n.matrix.numCols = n.cost.length)
    (hvariables : ∀ k ∈ variableCones, ∀ i ∈ k.indices, i < n.cost.length)
    (hconstraints : ∀ k ∈ constraintCones, ∀ i ∈ k.indices, i < 2 ^ 63) :
    FailsAs .index (ofNumbers n constraintCones variableCones) := by
  obtain ⟨hl, hs⟩ := (forall_parts_iff _ _).mpr hconstraints
  have hcolumns := (Bounds.ofVariables_eq_ok_iff (α := α) variableCones constraintCones
    n.cost.length _).mpr ⟨fun k hk i hi => Nat.lt_add_right _
      (hvariables k hk i (mem_indices_of_mem_bounded hi)), rfl⟩
  simp only [ofNumbers, not_not.mpr hsizes, if_false, hcolumns, List.map_map]
  apply (FailsAs.ok _).bind
  intro columns _
  apply (Bounds.failsAs_ofRows _ _).bind
  intro rows _
  apply (Vec.failsAs_gather _ _).bind
  intro fixed _
  apply (failsAs_assemble n.matrix _ hl hs).bind
  intro matrix _
  exact .ok _

structure Sized (p : Lifted α) (entries : ℕ) : Prop where
  entries : p.numLinear + p.numAux = entries
  numRows : p.matrix.numRows = p.numLinear + p.numAux
  numCols : p.matrix.numCols = p.numOrig + p.numAux
  cost : p.cost.length = p.numOrig + p.numAux
  lower : p.columns.lower.length = p.numOrig + p.numAux
  upper : p.columns.upper.length = p.numOrig + p.numAux
  rowLower : p.rows.lower.length = p.numLinear + p.numAux
  rowUpper : p.rows.upper.length = p.numLinear + p.numAux

theorem sized_lift (hcols : n.matrix.numCols = n.cost.length) :
    (n.lift constraintCones variableCones).Sized (constraintCones.map Cone.size).sum where
  entries := Partition.length_linear_add_numAux constraintCones
  numRows := n.numRows_lift constraintCones variableCones
  numCols := by rw [Numbers.lift, hcols]
  cost := by simp [Numbers.lift]
  lower := by simp [Numbers.lift]
  upper := by simp [Numbers.lift]
  rowLower := by simp [Numbers.lift, Partition.numAux]
  rowUpper := by simp [Numbers.lift, Partition.numAux]

theorem ofNumbers_of_mismatch
    (hsizes : ¬(n.matrix.numRows = n.rightHand.length ∧ n.matrix.numCols = n.cost.length)) :
    ofNumbers n constraintCones variableCones = .error
      (.shapeMismatch n.matrix.numRows n.matrix.numCols n.cost.length n.rightHand.length) := by
  simp only [ofNumbers, hsizes, not_false_eq_true, if_true]
  rfl

def Refuses (d : ConicData α) (f : ErrorFamily) : Prop := ∃ e, build d = .error e ∧ e.family = f

section

variable {d : ConicData α}

theorem refuses_iff_of_error {e : Error} (h : build d = .error e) (f : ErrorFamily) :
    Refuses d f ↔ e.family = f := by
  constructor
  · rintro ⟨e', he', hf⟩
    obtain rfl := Except.error.inj (h.symm.trans he')
    exact hf
  · exact fun hf => ⟨e, h, hf⟩

theorem build_of_firstUnsupported {kind : Kind}
    (h : firstUnsupported (d.constraintCones ++ d.variableCones) = some kind) :
    build d = .error (.unsupported kind) := by
  rw [build, checkKinds_eq, h]
  rfl

theorem refuses_unsupported {k : Cone} (hk : k ∈ d.constraintCones ++ d.variableCones)
    (hkind : k.kind.supported = false) : Refuses d .unsupportedCone := by
  cases hfirst : firstUnsupported (d.constraintCones ++ d.variableCones) with
  | none =>
    have hsupported := (firstUnsupported_eq_none_iff _).mp hfirst k hk
    rw [hkind] at hsupported
    cases hsupported
  | some kind => exact ⟨_, build_of_firstUnsupported hfirst, rfl⟩

theorem build_of_supported (hread : readNumbers d = .ok n)
    (hkinds : ∀ k ∈ d.constraintCones ++ d.variableCones, k.kind.supported = true) :
    build d = ofNumbers n d.constraintCones d.variableCones := by
  rw [build, (checkKinds_eq_ok_iff _ _).mpr hkinds, hread]
  rfl

variable (hbuild : build d = ofNumbers n d.constraintCones d.variableCones)

include hbuild

theorem refuses_iff_of_mismatch
    (hsizes : ¬(n.matrix.numRows = n.rightHand.length ∧ n.matrix.numCols = n.cost.length))
    (f : ErrorFamily) : Refuses d f ↔ f = .dimension := by
  rw [ofNumbers_of_mismatch hsizes] at hbuild
  rw [refuses_iff_of_error hbuild, eq_comm]
  rfl

variable (hsizes : n.matrix.numRows = n.rightHand.length ∧ n.matrix.numCols = n.cost.length)
  (hvariables : ∀ k ∈ d.variableCones, ∀ i ∈ k.indices, i < n.cost.length)

include hsizes hvariables

theorem build_of_rows (h : ∀ k ∈ d.constraintCones, ∀ i ∈ k.indices, i < n.rightHand.length) :
    build d = .ok (n.lift d.constraintCones d.variableCones) := by
  rw [hbuild]
  apply ofNumbers_of_liftable
  refine ⟨hsizes.1, hsizes.2, h, ?_⟩
  intro k hk i hi
  exact Nat.lt_add_right _ (hvariables k hk i (mem_indices_of_mem_bounded hi))

theorem refuses_iff_of_sizes
    (hconstraints : ∀ k ∈ d.constraintCones, ∀ i ∈ k.indices, i < 2 ^ 63) (f : ErrorFamily) :
    Refuses d f ↔
      f = .index ∧ ∃ k ∈ d.constraintCones, ∃ i ∈ k.indices, n.rightHand.length ≤ i := by
  have hfails := failsAs_ofNumbers hsizes hvariables hconstraints
  rw [← hbuild] at hfails
  cases hresult : build d with
  | error e =>
    rw [refuses_iff_of_error hresult, hfails e hresult, eq_comm]
    refine (and_iff_left ?_).symm
    by_contra hrows
    push Not at hrows
    rw [build_of_rows hbuild hsizes hvariables hrows] at hresult
    cases hresult
  | ok p =>
    refine iff_of_false ?_ ?_
    · rintro ⟨e, he, _⟩
      rw [hresult] at he
      cases he
    · rintro ⟨_, k, hk, i, hi, hle⟩
      rw [hbuild, ofNumbers_eq_ok_iff] at hresult
      exact absurd (hresult.1.constraint k hk i hi) (not_lt.mpr hle)

end

/-- The first unsupported kind is reported, constraint cones first, whatever else is wrong; then
sizes that do not agree; then a row that is not there, in a cone of any kind. Everything else is
built. -/
theorem build_refuses_iff (d : ConicData α) :
    (∀ before k after, d.constraintCones ++ d.variableCones = before ++ k :: after →
      (∀ k' ∈ before, k'.kind.supported = true) → k.kind.supported = false →
        build d = .error (.unsupported k.kind)) ∧
    ∀ n, readNumbers d = .ok n →
      (∀ k ∈ d.variableCones, ∀ i ∈ k.indices, i < n.cost.length) →
      (∀ k ∈ d.constraintCones, ∀ i ∈ k.indices, i < 2 ^ 63) →
      (Refuses d .unsupportedCone ↔
        ∃ k ∈ d.constraintCones ++ d.variableCones, k.kind.supported = false) ∧
      (¬Refuses d .unsupportedCone →
        (Refuses d .dimension ↔
          ¬(n.matrix.numRows = n.rightHand.length ∧ n.matrix.numCols = n.cost.length)) ∧
        (¬Refuses d .dimension →
          (Refuses d .index ↔
            ∃ k ∈ d.constraintCones, ∃ i ∈ k.indices, n.rightHand.length ≤ i) ∧
          (¬Refuses d .index →
            ∃ p, build d = .ok p ∧ p.Sized (d.constraintCones.map Cone.size).sum))) := by
  constructor
  · intro before k after hcones hbefore hk
    apply build_of_firstUnsupported
    rw [hcones]
    exact firstUnsupported_of_prefix hbefore hk
  · intro n hread hvariables hconstraints
    by_cases hkinds : ∃ k ∈ d.constraintCones ++ d.variableCones, k.kind.supported = false
    · obtain ⟨k, hk, hkind⟩ := hkinds
      have hrefused := refuses_unsupported hk hkind
      exact ⟨iff_of_true hrefused ⟨k, hk, hkind⟩, fun h => absurd hrefused h⟩
    · have hbuild := build_of_supported hread (by simpa using hkinds)
      by_cases hsizes : n.matrix.numRows = n.rightHand.length ∧ n.matrix.numCols = n.cost.length
      · have hrefuses := refuses_iff_of_sizes hbuild hsizes hvariables hconstraints
        refine ⟨iff_of_false (by simp [hrefuses]) hkinds, fun _ =>
          ⟨iff_of_false (by simp [hrefuses]) (not_not.mpr hsizes), fun _ =>
            ⟨by simp [hrefuses], ?_⟩⟩⟩
        intro h
        rw [hrefuses, eq_self, true_and] at h
        push Not at h
        exact ⟨_, build_of_rows hbuild hsizes hvariables h, sized_lift hsizes.2⟩
      · have hrefuses := refuses_iff_of_mismatch hbuild hsizes
        have hrefused : Refuses d .dimension := (hrefuses _).mpr rfl
        exact ⟨iff_of_false (by simp [hrefuses]) hkinds, fun _ =>
          ⟨iff_of_true hrefused hsizes, fun h => absurd hrefused h⟩⟩

def unsupportedKinds : ConicData Extended where
  cost := .ofList [.finite 1]
  matrix := .compressed ⟨1, [[(0, .finite 1)], []]⟩
  rightHand := .ofList [.finite 1]
  constraintCones := [⟨.zero, [0]⟩, ⟨.semidefinite, [7]⟩]
  variableCones := [⟨.exponential, [0]⟩]

def missingRow (i j : ℕ) : ConicData Extended where
  cost := .ofList [.finite 1]
  matrix := .compressed ⟨1, [[(0, .finite 1)], []]⟩
  rightHand := .ofList [.finite 1, .finite 2]
  constraintCones := [⟨.secondOrder, [0, i]⟩, ⟨.free, [j]⟩]
  variableCones := [⟨.nonneg, [0]⟩]

def missingRowNumbers : Numbers Extended where
  cost := [.finite 1]
  matrix := ⟨1, [[(0, .finite 1)], []]⟩
  rightHand := [.finite 1, .finite 2]

theorem build_refuses_iff_missing_row :
    build unsupportedKinds = .error (.unsupported .semidefinite) ∧
      Refuses (missingRow 2 0) .index ∧ Refuses (missingRow 1 9) .index ∧
        ∃ p, build (missingRow 1 0) = .ok p ∧ p.Sized 3 := by
  have hrows (i j : ℕ) (hi : i < 2 ^ 63) (hj : j < 2 ^ 63) :
      (Refuses (missingRow i j) .index ↔ 2 ≤ i ∨ 2 ≤ j) ∧
        (¬Refuses (missingRow i j) .index →
          ∃ p, build (missingRow i j) = .ok p ∧ p.Sized 3) := by
    obtain ⟨hkind, hrest⟩ := (build_refuses_iff (missingRow i j)).2 missingRowNumbers rfl
      (by simp [missingRow, missingRowNumbers]) (by simpa [missingRow] using ⟨hi, hj⟩)
    obtain ⟨hdimension, hrest⟩ := hrest (by rw [hkind]; simp [missingRow, Kind.supported])
    obtain ⟨hindex, hbuilt⟩ := hrest (by rw [hdimension, not_not]; exact ⟨rfl, rfl⟩)
    exact ⟨hindex.trans (by simp [missingRow, missingRowNumbers]), hbuilt⟩
  refine ⟨?_, ?_, ?_, ?_⟩
  · apply (build_refuses_iff unsupportedKinds).1 [⟨.zero, [0]⟩] ⟨.semidefinite, [7]⟩
      [⟨.exponential, [0]⟩] rfl
    · decide
    · rfl
  · exact (hrows 2 0 (by norm_num) (by norm_num)).1.mpr (.inl le_rfl)
  · exact (hrows 1 9 (by norm_num) (by norm_num)).1.mpr (.inr (by norm_num))
  · apply (hrows 1 0 (by norm_num) (by norm_num)).2
    rw [(hrows 1 0 (by norm_num) (by norm_num)).1]
    norm_num

end Lifted

end ConeLift
