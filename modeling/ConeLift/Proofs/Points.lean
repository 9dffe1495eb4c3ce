import ConeLift.Model.Program
import ConeLift.Proofs.Finite
import ConeLift.Proofs.Lift.Outcome

namespace ConeLift

/-- The first entry is not negative and its square is at least the sum of the other squares. -/
def InSecondOrder : List ℚ → Prop
  | [] => True
  | t :: y => 0 ≤ t ∧ (y.map (· ^ 2)).sum ≤ t ^ 2

theorem inSecondOrder_nil : InSecondOrder [] := trivial

def coord (x : List ℚ) (i : ℕ) : ℚ := x.getD i 0

theorem coord_append_left {x : List ℚ} (y : List ℚ) {i : ℕ} (hi : i < x.length) :
    coord (x ++ y) i = coord x i := List.getD_append x y 0 i hi

theorem coord_append_right (x y : List ℚ) (k : ℕ) : coord (x ++ y) (x.length + k) = coord y k := by
  rw [coord, List.getD_append_right _ _ _ _ (Nat.le_add_right _ _), Nat.add_sub_cancel_left, coord]

theorem forall_mem_iff_coord (x : List ℚ) (p : ℚ → Prop) :
    (∀ v ∈ x, p v) ↔ ∀ i < x.length, p (coord x i) := by
  conv_lhs => rw [eq_map_range x 0]
  simp only [List.forall_mem_map, List.mem_range, coord]

def Kind.Allows : Kind → ℚ → Prop
  | .free, _ => True
  | .zero, v => v = 0
  | .nonneg, v => 0 ≤ v
  | .nonpos, v => v ≤ 0
  | _, _ => False

def Cone.Contains (k : Cone) (v : ℕ → ℚ) : Prop :=
  if k.isSecondOrder then InSecondOrder (k.indices.map v)
  else ∀ i ∈ k.indices, k.kind.Allows (v i)

structure ConesFit (m n : ℕ) (constraintCones variableCones : List Cone) : Prop where
  supported : ∀ k ∈ constraintCones ++ variableCones, k.kind.supported = true
  rows : ∀ k ∈ constraintCones, ∀ i ∈ k.indices, i < m
  columns : ∀ k ∈ variableCones, ∀ i ∈ k.indices, i < n

def Separate (cones : List Cone) : Prop :=
  ∀ k ∈ cones, ∀ k' ∈ cones, ∀ i ∈ k.indices, i ∈ k'.indices → k = k'

namespace Numbers

structure Consistent (n : Numbers ℚ) : Prop where
  rows : n.matrix.numRows = n.rightHand.length
  cols : n.matrix.numCols = n.cost.length
  entries : ∀ row ∈ n.matrix.rows, ∀ e ∈ row, e.1 < n.matrix.numCols

def slack (n : Numbers ℚ) (x : List ℚ) : List ℚ :=
  List.zipWith (· - ·) n.rightHand (n.matrix.apply x)

structure Feasible (n : Numbers ℚ) (constraintCones variableCones : List Cone) (x : List ℚ) :
    Prop where
  length : x.length = n.cost.length
  slack : ∀ k ∈ constraintCones, k.Contains (coord (n.slack x))
  point : ∀ k ∈ variableCones, k.Contains (coord x)

def secondOrderSlack (n : Numbers ℚ) (constraintCones : List Cone) (x : List ℚ) : List ℚ :=
  (constraintCones.filter Cone.isSecondOrder).flatMap fun k => k.indices.map (coord (n.slack x))

end Numbers

def Bounds.Hold (B : Bounds Extended) (z : List Extended) : Prop :=
  List.Forall₂ (fun l v => Scalar.le l v = true) B.lower z ∧
    List.Forall₂ (fun u v => Scalar.le v u = true) B.upper z

def Within (b : Extended × Extended) (v : Extended) : Prop :=
  Scalar.le b.1 v = true ∧ Scalar.le v b.2 = true

def QuadraticRow.Hold (q : QuadraticRow Extended) (z : List Extended) : Prop :=
  ∃ v, q.value z = .ok v ∧ Scalar.le v q.bound = true

structure Lifted.Satisfied (p : Lifted Extended) (z : List ℚ) : Prop where
  columns : p.columns.Hold (finites z)
  rows : p.rows.Hold (p.matrix.mulVec (finites z))
  quadratics : ∀ q ∈ p.quadratics, q.Hold (finites z)

namespace Bounds

theorem hold_map {β : Type} (l : List β) (f : β → Extended × Extended) (g : β → Extended) :
    Hold ⟨l.map fun a => (f a).1, l.map fun a => (f a).2⟩ (l.map g) ↔
      ∀ a ∈ l, Within (f a) (g a) := by
  simp only [Hold, List.forall₂_map_left_iff, List.forall₂_map_right_iff, List.forall₂_same,
    Within]
  constructor
  · rintro ⟨hl, hu⟩ a ha
    exact ⟨hl a ha, hu a ha⟩
  · intro h
    exact ⟨fun a ha => (h a ha).1, fun a ha => (h a ha).2⟩

theorem hold_append {l l' u u' z z' : List Extended} (hl : l.length = z.length)
    (hu : u.length = z.length) :
    Hold ⟨l ++ l', u ++ u'⟩ (z ++ z') ↔ Hold ⟨l, u⟩ z ∧ Hold ⟨l', u'⟩ z' := by
  simp only [Hold, forall₂_append_iff hl, forall₂_append_iff hu]
  constructor
  · rintro ⟨⟨hl, hl'⟩, hu, hu'⟩
    exact ⟨⟨hl, hu⟩, hl', hu'⟩
  · rintro ⟨⟨hl, hu⟩, hl', hu'⟩
    exact ⟨⟨hl, hl'⟩, hu, hu'⟩

theorem hold_tabulate (n : ℕ) (f : ℕ → Extended × Extended) (z : List ℚ) :
    (tabulate n f).Hold (finites z) ↔
      z.length = n ∧ ∀ j < n, Within (f j) (.finite (coord z j)) := by
  have hcoord (j : ℕ) : (finites z).getD j 0 = .finite (coord z j) := getD_finites z j
  rw [Hold, tabulate, forall₂_map_range_iff _ _ _ 0, forall₂_map_range_iff _ _ _ 0]
  simp only [hcoord, length_finites, Within]
  constructor
  · rintro ⟨⟨hlength, hl⟩, _, hu⟩
    exact ⟨hlength, fun j hj => ⟨hl j hj, hu j hj⟩⟩
  · rintro ⟨hlength, h⟩
    exact ⟨⟨hlength, fun j hj => (h j hj).1⟩, hlength, fun j hj => (h j hj).2⟩

end Bounds

namespace Numbers

theorem length_slack {n : Numbers ℚ} (h : n.Consistent) (x : List ℚ) :
    (n.slack x).length = n.rightHand.length := by
  have hrows : n.matrix.rows.length = n.rightHand.length := h.rows
  simp [slack, RowMatrix.apply, hrows]

theorem coord_slack {n : Numbers ℚ} (h : n.Consistent) (x : List ℚ) {i : ℕ}
    (hi : i < n.rightHand.length) :
    coord (n.slack x) i = coord n.rightHand i - rowValue (n.matrix.rows.getD i []) x := by
  have hrow : i < n.matrix.rows.length := by
    have hrows : n.matrix.rows.length = n.rightHand.length := h.rows
    omega
  have hslack : i < (n.slack x).length := by rwa [length_slack h x]
  rw [coord, coord, List.getD_eq_getElem _ _ hslack, List.getD_eq_getElem _ _ hi,
    List.getD_eq_getElem _ _ hrow]
  simp only [slack, RowMatrix.apply, List.getElem_zipWith, List.getElem_map]

theorem Consistent.columns_lt {n : Numbers ℚ} (h : n.Consistent) {x : List ℚ}
    (hx : x.length = n.cost.length) (i : ℕ) : ∀ e ∈ n.matrix.rows.getD i [], e.1 < x.length := by
  intro e he
  rw [hx, ← h.cols]
  by_cases hi : i < n.matrix.rows.length
  · rw [List.getD_eq_getElem _ _ hi] at he
    exact h.entries _ (List.getElem_mem hi) e he
  · rw [List.getD_eq_default _ _ (by omega)] at he
    simp at he

theorem secondOrderSlack_eq (n : Numbers ℚ) (constraintCones : List Cone) (x : List ℚ) :
    n.secondOrderSlack constraintCones x =
      (Partition.ofCones constraintCones).secondOrder.map (coord (n.slack x)) := by
  simp only [secondOrderSlack, Partition.ofCones, List.map_flatMap]

end Numbers

end ConeLift
