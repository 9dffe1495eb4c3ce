import ConeLift.Proofs.Points

namespace ConeLift

def Cone.BoundsAllow (k : Cone) (v : ℕ → ℚ) : Prop :=
  ∀ j ∈ k.bounded, if k.isSecondOrder then 0 ≤ v j else k.kind.Allows (v j)

theorem within_open (v : ℚ) :
    Within (-Scalar.infinity, Scalar.infinity) (.finite v) := by simp [Within]

theorem within_kind_iff (k : Kind) (v : ℚ) (hk : k.supported = true) (hs : k ≠ .secondOrder) :
    Within (Bounds.lowerOf k, Bounds.upperOf k) (.finite v) ↔ k.Allows v := by
  cases k with
  | free => simp [Bounds.lowerOf, Bounds.upperOf, Within, Kind.Allows]
  | zero =>
    have hzero : ((Bounds.lowerOf .zero : Extended), (Bounds.upperOf .zero : Extended)) =
        (.finite 0, .finite 0) := rfl
    rw [hzero]
    simp only [Within, Extended.le_finite_iff, Kind.Allows]
    constructor
    · rintro ⟨h, h'⟩
      exact le_antisymm h' h
    · rintro rfl
      exact ⟨le_rfl, le_rfl⟩
  | nonneg => simp [Bounds.lowerOf, Bounds.upperOf, Within, Kind.Allows]
  | nonpos => simp [Bounds.lowerOf, Bounds.upperOf, Within, Kind.Allows]
  | secondOrder => exact absurd rfl hs
  | rotatedSecondOrder => cases hk
  | semidefinite => cases hk
  | exponential => cases hk
  | dualExponential => cases hk

theorem within_rebound_iff (k : Cone) (j : ℕ) (b : Extended × Extended) (v : ℚ)
    (hk : k.kind.supported = true) (hj : j ∈ k.bounded) :
    Within (k.rebound j b) (.finite v) ↔
      if k.isSecondOrder then 0 ≤ v ∧ Scalar.le (.finite v) b.2 = true else k.kind.Allows v := by
  by_cases hs : k.isSecondOrder
  · simp [Cone.rebound, hj, hs, Within]
  · have hkind : k.kind ≠ .secondOrder := by simpa [Cone.isSecondOrder] using hs
    simp only [Cone.rebound, hj, hs, Bool.false_eq_true, if_true, if_false,
      within_kind_iff k.kind v hk hkind]

theorem within_foldl_rebound (cones : List Cone) (j : ℕ) (b : Extended × Extended) (v : ℚ)
    (hsupported : ∀ k ∈ cones, k.kind.supported = true) (hb : Within b (.finite v))
    (h : ∀ k ∈ cones, j ∈ k.bounded → if k.isSecondOrder then 0 ≤ v else k.kind.Allows v) :
    Within (cones.foldl (fun b k => k.rebound j b) b) (.finite v) := by
  induction cones generalizing b with
  | nil => exact hb
  | cons k ks ih =>
    apply ih _ (fun k' hk' => hsupported k' (List.mem_cons_of_mem k hk')) ?_
      fun k' hk' => h k' (List.mem_cons_of_mem k hk')
    by_cases hj : j ∈ k.bounded
    · have hhead := h k List.mem_cons_self hj
      rw [within_rebound_iff k j b v (hsupported k List.mem_cons_self) hj]
      by_cases hs : k.isSecondOrder
      · simp only [hs, if_true] at hhead ⊢
        exact ⟨hhead, hb.2⟩
      · simpa only [hs, Bool.false_eq_true, if_false] using hhead
    · simpa only [Cone.rebound, hj, if_false] using hb

theorem rebound_rebound (k : Cone) (j : ℕ) (b : Extended × Extended) :
    k.rebound j (k.rebound j b) = k.rebound j b := by
  by_cases hj : j ∈ k.bounded <;> by_cases hs : k.isSecondOrder <;> simp [Cone.rebound, hj, hs]

theorem foldl_rebound_of_unique (k : Cone) (j : ℕ) (ks : List Cone) (b : Extended × Extended)
    (hunique : ∀ k' ∈ ks, j ∈ k'.bounded → k' = k) (hk : k ∈ ks) :
    ks.foldl (fun b k => k.rebound j b) b = k.rebound j b := by
  -- Once `k` has been applied, every further step leaves the bounds as they are.
  have hfixed : ∀ (ks : List Cone) (b : Extended × Extended),
      (∀ k' ∈ ks, j ∈ k'.bounded → k' = k) →
        ks.foldl (fun b k => k.rebound j b) (k.rebound j b) = k.rebound j b := by
    intro ks b h
    induction ks with
    | nil => rfl
    | cons k' ks ih =>
      have htail := ih fun k'' hk'' => h k'' (List.mem_cons_of_mem k' hk'')
      rw [List.foldl_cons]
      by_cases hj : j ∈ k'.bounded
      · rw [h k' List.mem_cons_self hj, rebound_rebound, htail]
      · rw [show k'.rebound j (k.rebound j b) = k.rebound j b by simp [Cone.rebound, hj], htail]
  induction ks with
  | nil => cases hk
  | cons k' ks ih =>
    have htail : ∀ k'' ∈ ks, j ∈ k''.bounded → k'' = k :=
      fun k'' hk'' => hunique k'' (List.mem_cons_of_mem k' hk'')
    rw [List.foldl_cons]
    by_cases hkk : k' = k
    · rw [hkk, hfixed ks b htail]
    · have hj : j ∉ k'.bounded := fun hj => hkk (hunique k' List.mem_cons_self hj)
      have hmem : k ∈ ks := by
        rcases List.mem_cons.mp hk with h | h
        · exact absurd h.symm hkk
        · exact h
      rw [show k'.rebound j b = b by simp [Cone.rebound, hj]]
      exact ih htail hmem

theorem not_mem_leadColumns {constraintCones : List Cone} {n j : ℕ} (h : j < n) :
    j ∉ leadColumns n constraintCones := by
  intro hj
  have hle := (le_of_mem_leadColumns n constraintCones j hj).1
  omega

theorem columnBounds_of_lead {constraintCones variableCones : List Cone} {m n j : ℕ}
    (hfit : ConesFit m n constraintCones variableCones) (hj : j ∈ leadColumns n constraintCones) :
    columnBounds variableCones constraintCones n j =
      ((.finite 0, .infinity) : Extended × Extended) := by
  have hle := (le_of_mem_leadColumns n constraintCones j hj).1
  have hfree : ∀ k ∈ variableCones, j ∉ k.bounded := by
    intro k hk hjk
    have hlt := hfit.columns k hk j (mem_indices_of_mem_bounded hjk)
    omega
  rw [columnBounds_of_free _ _ _ _ hfree, if_pos hj]
  rfl

theorem columns_hold {constraintCones variableCones : List Cone} {m n : ℕ}
    (hfit : ConesFit m n constraintCones variableCones) (z : List ℚ)
    (hlength : z.length = n + (Partition.ofCones constraintCones).numAux)
    (hallow : ∀ k ∈ variableCones, k.BoundsAllow (coord z))
    (hlead : ∀ j ∈ leadColumns n constraintCones, 0 ≤ coord z j) :
    (Bounds.tabulate (n + (Partition.ofCones constraintCones).numAux)
      (columnBounds variableCones constraintCones n)).Hold (finites z) := by
  rw [Bounds.hold_tabulate]
  refine ⟨hlength, ?_⟩
  intro j _
  by_cases hj : j ∈ leadColumns n constraintCones
  · rw [columnBounds_of_lead hfit hj]
    simpa [Within] using hlead j hj
  · simp only [columnBounds, hj, if_false]
    exact within_foldl_rebound variableCones j _ _
      (fun k hk => hfit.supported k (List.mem_append_right _ hk)) (within_open _)
      fun k hk hjk => hallow k hk j hjk

theorem boundsAllow_of_columns_hold {constraintCones variableCones : List Cone} {m n : ℕ}
    (hfit : ConesFit m n constraintCones variableCones) (hseparate : Separate variableCones)
    {z : List ℚ}
    (h : (Bounds.tabulate (n + (Partition.ofCones constraintCones).numAux)
      (columnBounds variableCones constraintCones n)).Hold (finites z)) :
    ∀ k ∈ variableCones, k.BoundsAllow (coord z) := by
  intro k hk j hj
  have hjn : j < n := hfit.columns k hk j (mem_indices_of_mem_bounded hj)
  have hunique : ∀ k' ∈ variableCones, j ∈ k'.bounded → k' = k := fun k' hk' hj' =>
    hseparate k' hk' k hk j (mem_indices_of_mem_bounded hj') (mem_indices_of_mem_bounded hj)
  have hwithin := ((Bounds.hold_tabulate _ _ _).mp h).2 j (by omega)
  simp only [columnBounds, not_mem_leadColumns hjn, if_false,
    foldl_rebound_of_unique k j variableCones _ hunique hk] at hwithin
  rw [within_rebound_iff k j _ _ (hfit.supported k (List.mem_append_right _ hk)) hj] at hwithin
  by_cases hs : k.isSecondOrder
  · simp only [hs, if_true] at hwithin ⊢
    exact hwithin.1
  · simpa only [hs, Bool.false_eq_true, if_false] using hwithin

theorem lead_nonneg_of_columns_hold {constraintCones variableCones : List Cone} {m n : ℕ}
    (hfit : ConesFit m n constraintCones variableCones) {z : List ℚ}
    (h : (Bounds.tabulate (n + (Partition.ofCones constraintCones).numAux)
      (columnBounds variableCones constraintCones n)).Hold (finites z)) :
    ∀ j ∈ leadColumns n constraintCones, 0 ≤ coord z j := by
  intro j hj
  have hwithin := ((Bounds.hold_tabulate _ _ _).mp h).2 j
    (le_of_mem_leadColumns n constraintCones j hj).2
  rw [columnBounds_of_lead hfit hj] at hwithin
  simpa using hwithin.1

end ConeLift
