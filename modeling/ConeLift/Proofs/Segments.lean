import Mathlib.Algebra.BigOperators.Fin
import Mathlib.Algebra.Order.BigOperators.Ring.Finset
import ConeLift.Proofs.Points

namespace ConeLift

def mix (s : ℚ) (x z : List ℚ) : List ℚ := List.zipWith (fun a b => a + s * (b - a)) x z

theorem le_share {s l a b : ℚ} (hs : 0 ≤ s) (hs' : s ≤ 1) (ha : l ≤ a) (hb : l ≤ b) :
    l ≤ a + s * (b - a) := by
  have hs1 : 0 ≤ 1 - s := sub_nonneg.mpr hs'
  calc l = (1 - s) * l + s * l := by ring
    _ ≤ (1 - s) * a + s * b := by gcongr
    _ = a + s * (b - a) := by ring

theorem share_le {s u a b : ℚ} (hs : 0 ≤ s) (hs' : s ≤ 1) (ha : a ≤ u) (hb : b ≤ u) :
    a + s * (b - a) ≤ u := by
  have hs1 : 0 ≤ 1 - s := sub_nonneg.mpr hs'
  calc a + s * (b - a) = (1 - s) * a + s * b := by ring
    _ ≤ (1 - s) * u + s * u := by gcongr
    _ = u := by ring

theorem length_mix (s : ℚ) {x z : List ℚ} (h : x.length = z.length) :
    (mix s x z).length = x.length := by simp [mix, h]

theorem mix_append (s : ℚ) {x z : List ℚ} (y w : List ℚ) (h : x.length = z.length) :
    mix s (x ++ y) (z ++ w) = mix s x z ++ mix s y w :=
  List.zipWith_append h

theorem coord_mix (s : ℚ) {x z : List ℚ} (h : x.length = z.length) (i : ℕ) :
    coord (mix s x z) i = coord x i + s * (coord z i - coord x i) := by
  by_cases hi : i < x.length
  · have hz : i < z.length := by omega
    have hmix : i < (mix s x z).length := by rwa [length_mix s h]
    rw [coord, coord, coord, List.getD_eq_getElem _ _ hi, List.getD_eq_getElem _ _ hz,
      List.getD_eq_getElem _ _ hmix]
    simp [mix]
  · have hx : coord x i = 0 := List.getD_eq_default _ _ (by omega)
    have hz : coord z i = 0 := List.getD_eq_default _ _ (by omega)
    have hmix : coord (mix s x z) i = 0 :=
      List.getD_eq_default _ _ (by rw [length_mix s h]; omega)
    rw [hx, hz, hmix]
    ring

theorem rowValue_mix (s : ℚ) {x z : List ℚ} (h : x.length = z.length) (row : List (ℕ × ℚ)) :
    rowValue row (mix s x z) =
      rowValue row x + s * (rowValue row z - rowValue row x) := by
  induction row with
  | nil => simp
  | cons e row ih =>
    have hcoord : (mix s x z).getD e.1 0 = x.getD e.1 0 + s * (z.getD e.1 0 - x.getD e.1 0) :=
      coord_mix s h e.1
    rw [rowValue_cons, rowValue_cons, rowValue_cons, ih, hcoord]
    ring

theorem dot_mix (s : ℚ) (c : List ℚ) {x z : List ℚ} (h : x.length = z.length) :
    dot c (mix s x z) = dot c x + s * (dot c z - dot c x) := by
  induction c generalizing x z with
  | nil => simp [dot]
  | cons a c ih =>
    cases x with
    | nil =>
      have hz : z = [] := List.length_eq_zero_iff.mp h.symm
      simp [hz, mix, dot]
    | cons v x =>
      cases z with
      | nil => simp at h
      | cons w z =>
        have htail := ih (x := x) (z := z) (by simpa using h)
        simp only [mix, dot, List.zipWith_cons_cons, List.sum_cons] at htail ⊢
        rw [htail]
        ring

theorem sum_map_eq_sum_fin (is : List ℕ) (f : ℕ → ℚ) :
    (is.map f).sum = ∑ j : Fin is.length, f (is.get j) :=
  (Fin.sum_univ_fun_getElem is f).symm

theorem sq_sum_mul_le (is : List ℕ) (v w : ℕ → ℚ) :
    ((is.map fun i => v i * w i).sum) ^ 2 ≤
      (is.map fun i => v i ^ 2).sum * (is.map fun i => w i ^ 2).sum := by
  have hcauchy := Finset.sum_mul_sq_le_sq_mul_sq Finset.univ (fun j => v (is.get j))
    fun j => w (is.get j)
  rw [sum_map_eq_sum_fin, sum_map_eq_sum_fin, sum_map_eq_sum_fin]
  exact hcauchy

theorem sum_mul_le {is : List ℕ} {v w : ℕ → ℚ} {t r : ℚ} (ht : 0 ≤ t) (hr : 0 ≤ r)
    (hv : (is.map fun i => v i ^ 2).sum ≤ t ^ 2) (hw : (is.map fun i => w i ^ 2).sum ≤ r ^ 2) :
    (is.map fun i => v i * w i).sum ≤ t * r := by
  have hw0 : 0 ≤ (is.map fun i => w i ^ 2).sum := by
    apply List.sum_nonneg
    intro q hq
    obtain ⟨i, _, rfl⟩ := List.mem_map.mp hq
    exact sq_nonneg (w i)
  have hsq : ((is.map fun i => v i * w i).sum) ^ 2 ≤ (t * r) ^ 2 := by
    calc ((is.map fun i => v i * w i).sum) ^ 2
        ≤ (is.map fun i => v i ^ 2).sum * (is.map fun i => w i ^ 2).sum := sq_sum_mul_le is v w
      _ ≤ t ^ 2 * r ^ 2 := mul_le_mul hv hw hw0 (sq_nonneg t)
      _ = (t * r) ^ 2 := by ring
  exact (le_abs_self _).trans (abs_le_of_sq_le_sq hsq (mul_nonneg ht hr))

theorem sum_sq_mix (is : List ℕ) (v w : ℕ → ℚ) (s : ℚ) :
    (is.map fun i => (v i + s * (w i - v i)) ^ 2).sum =
      (1 - s) ^ 2 * (is.map fun i => v i ^ 2).sum +
        2 * s * (1 - s) * (is.map fun i => v i * w i).sum +
          s ^ 2 * (is.map fun i => w i ^ 2).sum := by
  induction is with
  | nil => simp
  | cons i is ih =>
    simp only [List.map_cons, List.sum_cons, ih]
    ring

theorem inSecondOrder_mix {is : List ℕ} {v w : ℕ → ℚ} {s : ℚ} (hs : 0 ≤ s) (hs' : s ≤ 1)
    (hv : InSecondOrder (is.map v)) (hw : InSecondOrder (is.map w)) :
    InSecondOrder (is.map fun i => v i + s * (w i - v i)) := by
  cases is with
  | nil => exact inSecondOrder_nil
  | cons t ys =>
    simp only [List.map_cons, InSecondOrder, List.map_map, Function.comp_def] at hv hw ⊢
    obtain ⟨hvt, hv⟩ := hv
    obtain ⟨hwt, hw⟩ := hw
    have hs1 : 0 ≤ 1 - s := sub_nonneg.mpr hs'
    have hcross := sum_mul_le hvt hwt hv hw
    constructor
    · exact le_share hs hs' hvt hwt
    · rw [sum_sq_mix]
      calc (1 - s) ^ 2 * (ys.map fun i => v i ^ 2).sum +
            2 * s * (1 - s) * (ys.map fun i => v i * w i).sum +
              s ^ 2 * (ys.map fun i => w i ^ 2).sum
          ≤ (1 - s) ^ 2 * v t ^ 2 + 2 * s * (1 - s) * (v t * w t) + s ^ 2 * w t ^ 2 := by
            have hmixed : 0 ≤ 2 * s * (1 - s) := mul_nonneg (mul_nonneg two_pos.le hs) hs1
            gcongr
        _ = (v t + s * (w t - v t)) ^ 2 := by ring

theorem allows_mix {k : Kind} {a b s : ℚ} (hs : 0 ≤ s) (hs' : s ≤ 1) (ha : k.Allows a)
    (hb : k.Allows b) : k.Allows (a + s * (b - a)) := by
  cases k with
  | free => trivial
  | zero =>
    have ha0 : a = 0 := ha
    have hb0 : b = 0 := hb
    rw [ha0, hb0, sub_zero, mul_zero, add_zero]
    exact rfl
  | nonneg => exact le_share hs hs' ha hb
  | nonpos => exact share_le hs hs' ha hb
  | secondOrder => exact ha.elim
  | rotatedSecondOrder => exact ha.elim
  | semidefinite => exact ha.elim
  | exponential => exact ha.elim
  | dualExponential => exact ha.elim

theorem contains_mix {k : Cone} {v w : ℕ → ℚ} {s : ℚ} (hs : 0 ≤ s) (hs' : s ≤ 1)
    (hv : k.Contains v) (hw : k.Contains w) : k.Contains fun i => v i + s * (w i - v i) := by
  rw [Cone.Contains] at hv hw ⊢
  split at hv
  · rename_i hsecond
    rw [if_pos hsecond] at hw ⊢
    exact inSecondOrder_mix hs hs' hv hw
  · rename_i hsecond
    rw [if_neg hsecond] at hw ⊢
    exact fun i hi => allows_mix hs hs' (hv i hi) (hw i hi)

namespace Numbers

variable {n : Numbers ℚ} {constraintCones variableCones : List Cone}

theorem slack_mix (n : Numbers ℚ) (s : ℚ) {x z : List ℚ} (h : x.length = z.length) :
    n.slack (mix s x z) = mix s (n.slack x) (n.slack z) := by
  have happly : n.matrix.apply (mix s x z) = mix s (n.matrix.apply x) (n.matrix.apply z) := by
    simp only [RowMatrix.apply, mix, List.zipWith_map, List.zipWith_self]
    exact List.map_congr_left fun row _ => rowValue_mix s h row
  have hlength : (n.matrix.apply x).length = (n.matrix.apply z).length := by
    simp [RowMatrix.apply]
  rw [slack, happly]
  apply List.ext_getElem
  · simp [mix, slack, hlength]
  · intro i _ _
    simp only [mix, slack, List.getElem_zipWith]
    ring

theorem feasible_mix {s : ℚ} (hs : 0 ≤ s) (hs' : s ≤ 1) {x z : List ℚ}
    (hx : n.Feasible constraintCones variableCones x)
    (hz : n.Feasible constraintCones variableCones z) :
    n.Feasible constraintCones variableCones (mix s x z) := by
  have hlength : x.length = z.length := by rw [hx.length, hz.length]
  have hslackLength : (n.slack x).length = (n.slack z).length := by simp [slack, RowMatrix.apply]
  constructor
  · rw [length_mix s hlength, hx.length]
  · intro k hk
    have hmixed := contains_mix hs hs' (hx.slack k hk) (hz.slack k hk)
    have hcoord : coord (n.slack (mix s x z)) =
        fun i => coord (n.slack x) i + s * (coord (n.slack z) i - coord (n.slack x) i) := by
      rw [slack_mix n s hlength]
      funext i
      exact coord_mix s hslackLength i
    rwa [hcoord]
  · intro k hk
    have hmixed := contains_mix hs hs' (hx.point k hk) (hz.point k hk)
    have hcoord : coord (mix s x z) = fun i => coord x i + s * (coord z i - coord x i) := by
      funext i
      exact coord_mix s hlength i
    rwa [hcoord]

theorem secondOrderSlack_mix (n : Numbers ℚ) (constraintCones : List Cone) (s : ℚ) {x z : List ℚ}
    (h : x.length = z.length) :
    n.secondOrderSlack constraintCones (mix s x z) =
      mix s (n.secondOrderSlack constraintCones x)
        (n.secondOrderSlack constraintCones z) := by
  have hslackLength : (n.slack x).length = (n.slack z).length := by simp [slack, RowMatrix.apply]
  simp only [secondOrderSlack_eq, mix, List.zipWith_map, List.zipWith_self]
  apply List.map_congr_left
  intro i _
  have hcoord := coord_mix s hslackLength i
  rw [← slack_mix n s h] at hcoord
  exact hcoord

end Numbers

end ConeLift
