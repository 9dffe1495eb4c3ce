import ConeLift.Proofs.Loading

namespace ConeLift

theorem exists_naturals {is : List ℤ} {n : ℕ} (h : ∀ i ∈ is, 0 ≤ i ∧ i < n) :
    ∃ ks : List ℕ, is = (ks.map fun k : ℕ => (k : ℤ)) ∧ ∀ k ∈ ks, k < n := by
  refine ⟨is.map Int.toNat, ?_, ?_⟩
  · rw [List.map_map]
    conv_lhs => rw [← List.map_id is]
    apply List.map_congr_left
    intro i hi
    exact (Int.toNat_of_nonneg (h i hi).1).symm
  · intro k hk
    obtain ⟨i, hi, rfl⟩ := List.mem_map.mp hk
    have hbounds := h i hi
    omega

namespace QuadraticRow

theorem length_foldl_set (entries : List (ℕ × Extended)) (g : List Extended) :
    (entries.foldl (fun g e => g.set e.1 (g.getD e.1 0 + e.2)) g).length = g.length := by
  induction entries generalizing g with
  | nil => rfl
  | cons e entries ih => rw [List.foldl_cons, ih, List.length_set]

theorem scatter_ok (g : List Extended) {is : List ℤ} (vs : List Extended)
    (h : ∀ i ∈ is, 0 ≤ i ∧ i < g.length) (hlength : vs.length = is.length) :
    ∃ g', scatter g is vs = .ok g' ∧ g'.length = g.length := by
  obtain ⟨ks, rfl, hks⟩ := exists_naturals h
  have hpositions := mapM_map_of_forall (Vec.position g.length) (fun k : ℕ => (k : ℤ)) id ks
    fun k hk => Vec.position_ofNat (hks k hk)
  rw [List.map_id] at hpositions
  rw [List.length_map] at hlength
  refine ⟨_, ?_, length_foldl_set (ks.zip vs) g⟩
  simp only [scatter, hpositions, bind, Except.bind]
  split
  · rename_i v
    have hone : ks.length = 1 := hlength.symm
    simp only [hone, List.replicate_one]
  · simp only [hlength, if_true]

theorem gather_ok (x : List Extended) {is : List ℤ} (h : ∀ i ∈ is, 0 ≤ i ∧ i < x.length) :
    ∃ ys, Vec.gather x is = .ok ys ∧ ys.length = is.length := by
  obtain ⟨ks, rfl, hks⟩ := exists_naturals h
  exact ⟨_, Vec.gather_ofNat x 0 ks hks, by simp⟩

theorem gradient_ok {q : QuadraticRow Extended} {x : List Extended} (h : q.Fits x.length) :
    ∃ g, q.gradient x = .ok g ∧ g.length = x.length := by
  obtain ⟨hlinear, hrow, hcol⟩ := h.parts
  obtain ⟨g₁, hg₁, hlength₁⟩ := scatter_ok (List.replicate x.length 0) q.linearCoef
    (by simpa using hlinear) h.linear.symm
  rw [List.length_replicate] at hlength₁
  obtain ⟨cs, hcs, hcsLength⟩ := gather_ok x hcol
  obtain ⟨rs, hrs, hrsLength⟩ := gather_ok x hrow
  have hcoef : q.coef.length = cs.length := by rw [hcsLength, h.coef]
  have hcoef' : q.coef.length = rs.length := by rw [hrsLength, h.square, h.coef]
  have hbyRow := Vec.zip_of_length_eq (· * ·) hcoef
  have hbyCol := Vec.zip_of_length_eq (· * ·) hcoef'
  obtain ⟨g₂, hg₂, hlength₂⟩ := scatter_ok g₁ (List.zipWith (· * ·) q.coef cs)
    (by rw [hlength₁]; exact hrow) (by simp [hcsLength, h.coef, h.square])
  obtain ⟨g₃, hg₃, hlength₃⟩ := scatter_ok g₂ (List.zipWith (· * ·) q.coef rs)
    (by rw [hlength₂, hlength₁]; exact hcol) (by simp [hrsLength, h.coef, h.square])
  refine ⟨g₃, ?_, by rw [hlength₃, hlength₂, hlength₁]⟩
  simp only [gradient, hg₁, hcs, hbyRow, hg₂, hrs, hbyCol, hg₃, bind, Except.bind]

end QuadraticRow

end ConeLift
