import ConeLift.Proofs.Gradients
import ConeLift.Proofs.Points

namespace ConeLift

theorem zipWith_mul_finites (x y : List ℚ) :
    List.zipWith (· * ·) (finites x) (finites y) = finites (List.zipWith (· * ·) x y) := by
  simp only [finites, List.zipWith_map, List.map_zipWith, Extended.finite_mul]

theorem gather_finites (z : List ℚ) (columns : List ℕ) (h : ∀ j ∈ columns, j < z.length) :
    Vec.gather (finites z) (columns.map fun i : ℕ => (i : ℤ)) =
      .ok (finites (columns.map (coord z))) := by
  rw [Vec.gather_ofNat (finites z) 0 columns (by simpa using h)]
  simp only [finites, List.map_map]
  congr 1
  apply List.map_congr_left
  intro j _
  exact getD_finites z j

namespace QuadraticRow

def entries (x : List ℚ) (is : List ℤ) : List ℚ := is.map fun i => coord x i.toNat

def eval (q : QuadraticRow ℚ) (x : List ℚ) : ℚ :=
  dot q.linearCoef (entries x q.linearIndex) +
    (List.zipWith (· * ·) (List.zipWith (· * ·) q.coef (entries x q.rowIndex))
      (entries x q.colIndex)).sum

def finite (q : QuadraticRow ℚ) : QuadraticRow Extended where
  linearIndex := q.linearIndex
  linearCoef := finites q.linearCoef
  rowIndex := q.rowIndex
  colIndex := q.colIndex
  coef := finites q.coef
  bound := .finite q.bound

theorem fits_finite_iff {q : QuadraticRow ℚ} {n : ℕ} : q.finite.Fits n ↔ q.Fits n := by
  constructor
  · intro h
    exact ⟨by simpa [finite] using h.linear, h.square, by simpa [finite] using h.coef, h.inside⟩
  · intro h
    exact ⟨by simpa [finite] using h.linear, h.square, by simpa [finite] using h.coef, h.inside⟩

theorem gather_entries (is : List ℤ) {x : List ℚ} (h : ∀ i ∈ is, 0 ≤ i ∧ i < x.length) :
    Vec.gather (finites x) is = .ok (finites (entries x is)) := by
  obtain ⟨ks, rfl, hks⟩ := exists_naturals h
  rw [gather_finites x ks hks, entries, List.map_map]
  rfl

theorem zip_finites {x y : List ℚ} (h : x.length = y.length) :
    Vec.zip (· * ·) (finites x) (finites y) = .ok (finites (List.zipWith (· * ·) x y)) := by
  rw [Vec.zip_of_length_eq _ (by simpa using h), zipWith_mul_finites]

theorem value_finite {q : QuadraticRow ℚ} {x : List ℚ} (h : q.Fits x.length) :
    q.finite.value (finites x) = .ok (.finite (q.eval x)) := by
  obtain ⟨hinLinear, hinRow, hinCol⟩ := h.parts
  have hlinear := gather_entries q.linearIndex hinLinear
  have hrow := gather_entries q.rowIndex hinRow
  have hcol := gather_entries q.colIndex hinCol
  have hlength : ¬(finites q.linearCoef).length ≠ (finites (entries x q.linearIndex)).length := by
    simp [entries, h.linear]
  have hhalf := zip_finites (x := q.coef) (y := entries x q.rowIndex)
    (by simp [entries, h.square, h.coef])
  have hproducts := zip_finites
    (x := List.zipWith (· * ·) q.coef (entries x q.rowIndex)) (y := entries x q.colIndex)
    (by simp [entries, h.square, h.coef])
  simp only [value, finite, hlinear, hrow, hcol, hlength, hhalf, hproducts, bind, Except.bind,
    if_false, dot_finites, sum_finites, Extended.finite_add]
  rfl

theorem hold_finite_iff {q : QuadraticRow ℚ} {x : List ℚ} (h : q.Fits x.length) :
    q.finite.Hold (finites x) ↔ q.eval x ≤ q.bound := by
  rw [Hold, value_finite h]
  simp only [Except.ok.injEq, exists_eq_left', finite, Extended.le_finite_iff]

end QuadraticRow

end ConeLift
