import ConeLift.Proofs.Lift.ColumnPoints
import ConeLift.Proofs.Lift.QuadraticPoints
import ConeLift.Proofs.Lift.RowPoints

namespace ConeLift

theorem Cone.contains_congr (k : Cone) {v w : ℕ → ℚ} (h : ∀ i ∈ k.indices, v i = w i) :
    k.Contains v ↔ k.Contains w := by
  have hmap : k.indices.map v = k.indices.map w := List.map_congr_left h
  simp only [Cone.Contains, hmap]
  split
  · rfl
  · apply forall₂_congr
    intro i hi
    rw [h i hi]

theorem Cone.contains_iff (k : Cone) (z : List ℚ) (h : ∀ j ∈ k.indices, j < z.length) :
    k.Contains (coord z) ↔ k.BoundsAllow (coord z) ∧
      (k.isSecondOrder = true → k.indices ≠ [] →
        (QuadraticRow.ofColumns k.indices).Hold (finites z)) := by
  by_cases hs : k.isSecondOrder
  · by_cases hi : k.indices = []
    · simp [Cone.Contains, Cone.BoundsAllow, Cone.bounded, hs, hi, inSecondOrder_nil]
    · have hblock := inSecondOrder_iff_hold z k.indices hi h
      simpa [Cone.Contains, Cone.BoundsAllow, Cone.bounded, hs, hi] using hblock
  · simp [Cone.Contains, Cone.BoundsAllow, Cone.bounded, hs]

theorem length_secondOrderSlack (n : Numbers ℚ) (constraintCones : List Cone) (x : List ℚ) :
    (n.secondOrderSlack constraintCones x).length =
      (Partition.ofCones constraintCones).numAux := by
  rw [n.secondOrderSlack_eq, List.length_map, Partition.numAux]

theorem forall_leadColumns_iff (first : ℕ) (cones : List Cone) (p : ℕ → Prop) :
    (∀ j ∈ leadColumns first cones, p j) ↔
      ∀ block ∈ auxiliaryBlocks first cones, ∀ j ∈ block.take 1, p j := by
  simp only [leadColumns, List.mem_filterMap]
  constructor
  · intro h block hblock j hj
    apply h j
    refine ⟨block, hblock, ?_⟩
    cases block with
    | nil => simp at hj
    | cons t ys =>
      have hjt : j = t := by simpa using hj
      rw [hjt, List.head?_cons]
  · rintro h j ⟨block, hblock, hlead⟩
    apply h block hblock
    cases block with
    | nil => simp at hlead
    | cons t ys =>
      have hjt : t = j := by simpa using hlead
      simp [hjt]

theorem auxiliary_hold_iff {n : Numbers ℚ} (constraintCones : List Cone) (x : List ℚ)
    (hx : x.length = n.cost.length) :
    ((∀ j ∈ leadColumns n.cost.length constraintCones,
        0 ≤ coord (x ++ n.secondOrderSlack constraintCones x) j) ∧
      ∀ block ∈ auxiliaryBlocks n.cost.length constraintCones,
        (QuadraticRow.ofColumns block).Hold (finites (x ++ n.secondOrderSlack constraintCones x))) ↔
      ∀ k ∈ constraintCones, k.isSecondOrder = true → k.Contains (coord (n.slack x)) := by
  have hdrop : (x ++ n.secondOrderSlack constraintCones x).drop n.cost.length =
      (constraintCones.filter Cone.isSecondOrder).flatMap
        fun k => k.indices.map (coord (n.slack x)) := List.drop_left' hx
  have hlength := length_secondOrderSlack n constraintCones x
  have hcones := auxiliaryBlocks_inSecondOrder_iff constraintCones _ _ _ hdrop
  have hblocks : (∀ block ∈ auxiliaryBlocks n.cost.length constraintCones,
      InSecondOrder (block.map (coord (x ++ n.secondOrderSlack constraintCones x)))) ↔
        ∀ block ∈ auxiliaryBlocks n.cost.length constraintCones,
          (∀ j ∈ block.take 1, 0 ≤ coord (x ++ n.secondOrderSlack constraintCones x) j) ∧
            (QuadraticRow.ofColumns block).Hold
              (finites (x ++ n.secondOrderSlack constraintCones x)) := by
    apply forall₂_congr
    intro block hblock
    obtain ⟨hne, hbounds⟩ := bounds_of_mem_auxiliaryBlocks _ _ block hblock
    apply inSecondOrder_iff_hold _ block hne
    intro j hj
    have hlt := (hbounds j hj).2
    rw [List.length_append, hlength, hx]
    exact hlt
  rw [forall_leadColumns_iff, ← forall₂_and, ← hblocks, hcones]
  apply forall₂_congr
  intro k _
  apply imp_congr_right
  intro hs
  simp only [Cone.Contains, hs, if_true]

section

variable {n : Numbers ℚ} {constraintCones variableCones : List Cone}

theorem quadratics_hold_iff (z : List ℚ) :
    (∀ q ∈ (n.finite.lift constraintCones variableCones).quadratics, q.Hold (finites z)) ↔
      (∀ k ∈ variableCones, k.isSecondOrder = true → k.indices ≠ [] →
        (QuadraticRow.ofColumns k.indices).Hold (finites z)) ∧
      ∀ block ∈ auxiliaryBlocks n.cost.length constraintCones,
        (QuadraticRow.ofColumns block).Hold (finites z) := by
  have hcost : n.finite.cost.length = n.cost.length := length_finites n.cost
  simp only [Numbers.lift, List.forall_mem_map, forall_secondOrderBlocks_iff, hcost]

theorem satisfied_of_feasible (hn : n.Consistent)
    (hfit : ConesFit n.rightHand.length n.cost.length constraintCones variableCones)
    {x : List ℚ} (h : n.Feasible constraintCones variableCones x) :
    (n.finite.lift constraintCones variableCones).Satisfied
      (x ++ n.secondOrderSlack constraintCones x) := by
  have hcost : n.finite.cost.length = n.cost.length := length_finites n.cost
  have hlength := length_secondOrderSlack n constraintCones x
  obtain ⟨hlead, hblocks⟩ := (auxiliary_hold_iff constraintCones x h.length).mpr
    fun k hk _ => h.slack k hk
  have hvariable : ∀ k ∈ variableCones, k.BoundsAllow
      (coord (x ++ n.secondOrderSlack constraintCones x)) ∧
        (k.isSecondOrder = true → k.indices ≠ [] → (QuadraticRow.ofColumns k.indices).Hold
          (finites (x ++ n.secondOrderSlack constraintCones x))) := by
    intro k hk
    have hlt : ∀ j ∈ k.indices, j < x.length := by
      rw [h.length]
      exact hfit.columns k hk
    rw [← k.contains_iff _ fun j hj => by rw [List.length_append]; have := hlt j hj; omega]
    rw [k.contains_congr fun j hj => coord_append_left _ (hlt j hj)]
    exact h.point k hk
  constructor
  · simp only [Numbers.lift, hcost]
    apply columns_hold hfit _ _ (fun k hk => (hvariable k hk).1) hlead
    rw [List.length_append, h.length, hlength]
  · rw [rows_hold_iff hn x _ h.length hlength hfit]
    exact ⟨fun k hk _ => h.slack k hk, rfl⟩
  · rw [quadratics_hold_iff]
    exact ⟨fun k hk => (hvariable k hk).2, hblocks⟩

theorem feasible_of_satisfied (hn : n.Consistent)
    (hfit : ConesFit n.rightHand.length n.cost.length constraintCones variableCones)
    (hseparate : Separate variableCones) {x y : List ℚ} (hx : x.length = n.cost.length)
    (hy : y.length = (Partition.ofCones constraintCones).numAux)
    (h : (n.finite.lift constraintCones variableCones).Satisfied (x ++ y)) :
    n.Feasible constraintCones variableCones x ∧ y = n.secondOrderSlack constraintCones x := by
  have hcost : n.finite.cost.length = n.cost.length := length_finites n.cost
  obtain ⟨hlinear, hslack⟩ := (rows_hold_iff hn x y hx hy hfit).mp h.rows
  obtain ⟨hvariable, hblocks⟩ := (quadratics_hold_iff (x ++ y)).mp h.quadratics
  have hcolumns := h.columns
  simp only [Numbers.lift, hcost] at hcolumns
  have hallow := boundsAllow_of_columns_hold hfit hseparate hcolumns
  have hlead := lead_nonneg_of_columns_hold hfit hcolumns
  refine ⟨⟨hx, ?_, ?_⟩, hslack⟩
  · intro k hk
    by_cases hs : k.isSecondOrder
    · rw [hslack] at hlead hblocks
      exact (auxiliary_hold_iff constraintCones x hx).mp ⟨hlead, hblocks⟩ k hk hs
    · exact hlinear k hk (by simpa using hs)
  · intro k hk
    have hlt : ∀ j ∈ k.indices, j < x.length := by
      rw [hx]
      exact hfit.columns k hk
    rw [← k.contains_congr fun j hj => coord_append_left y (hlt j hj)]
    rw [k.contains_iff _ fun j hj => by rw [List.length_append]; have := hlt j hj; omega]
    exact ⟨hallow k hk, hvariable k hk⟩

theorem split_of_satisfied (hn : n.Consistent)
    (hfit : ConesFit n.rightHand.length n.cost.length constraintCones variableCones)
    (hseparate : Separate variableCones) {z : List ℚ}
    (h : (n.finite.lift constraintCones variableCones).Satisfied z) :
    ∃ x, n.Feasible constraintCones variableCones x ∧
      z = x ++ n.secondOrderSlack constraintCones x := by
  have hlength : z.length = n.cost.length + (Partition.ofCones constraintCones).numAux := by
    have hcolumns := h.columns.1.length_eq
    have hcost : n.finite.cost.length = n.cost.length := length_finites n.cost
    simp only [Numbers.lift, Bounds.length_lower_tabulate, length_finites, hcost] at hcolumns
    exact hcolumns.symm
  have htake : (z.take n.cost.length).length = n.cost.length := by
    rw [List.length_take]
    omega
  have hdrop : (z.drop n.cost.length).length = (Partition.ofCones constraintCones).numAux := by
    rw [List.length_drop]
    omega
  rw [← List.take_append_drop n.cost.length z] at h
  obtain ⟨hfeasible, hslack⟩ := feasible_of_satisfied hn hfit hseparate htake hdrop h
  refine ⟨_, hfeasible, ?_⟩
  rw [← hslack, List.take_append_drop]

theorem cost_lift (n : Numbers ℚ) (constraintCones variableCones : List Cone) :
    (n.finite.lift constraintCones variableCones).cost =
      finites (n.cost ++ List.replicate (Partition.ofCones constraintCones).numAux 0) := by
  simp [Numbers.lift, Numbers.finite, finites]

theorem dot_cost_lift {x y : List ℚ} (hx : x.length = n.cost.length) :
    Vec.dot (n.finite.lift constraintCones variableCones).cost (finites (x ++ y)) =
      .finite (dot n.cost x) := by
  rw [cost_lift, dot_finites, dot_append_zeros _ _ _ _ hx.symm]

theorem build_of_fit {d : ConicData Extended} (hread : Lifted.readNumbers d = .ok n.finite)
    (hn : n.Consistent)
    (hfit : ConesFit n.rightHand.length n.cost.length d.constraintCones d.variableCones) :
    Lifted.build d = .ok (n.finite.lift d.constraintCones d.variableCones) := by
  rw [Lifted.build_eq_ok_iff]
  refine ⟨hfit.supported, n.finite, hread, ?_, rfl⟩
  have hcost : n.finite.cost.length = n.cost.length := length_finites n.cost
  have hright : n.finite.rightHand.length = n.rightHand.length := length_finites n.rightHand
  constructor
  · rw [hright, ← hn.rows]
    exact numRows_finite n.matrix
  · rw [hcost, ← hn.cols]
    exact numCols_finite n.matrix
  · rw [hright]
    exact hfit.rows
  · rw [hcost]
    intro k hk i hi
    have hlt := hfit.columns k hk i (mem_indices_of_mem_bounded hi)
    omega

/-- The lift always exists and is exact: the points of the conic problem are those of the lift
without their auxiliary columns, which are determined by the point and cost nothing. -/
theorem lift_exact {d : ConicData Extended} (hread : Lifted.readNumbers d = .ok n.finite)
    (hn : n.Consistent)
    (hfit : ConesFit n.rightHand.length n.cost.length d.constraintCones d.variableCones)
    (hseparate : Separate d.variableCones) :
    ∃ p, Lifted.build d = .ok p ∧ p.numOrig = n.cost.length ∧
      ∀ x, x.length = n.cost.length →
        (n.Feasible d.constraintCones d.variableCones x ↔
          ∃ y, y.length = p.numAux ∧ p.Satisfied (x ++ y)) ∧
        ∀ y, y.length = p.numAux →
          (p.Satisfied (x ++ y) → y = n.secondOrderSlack d.constraintCones x) ∧
            Vec.dot p.cost (finites (x ++ y)) = .finite (dot n.cost x) := by
  refine ⟨_, build_of_fit hread hn hfit, length_finites n.cost, ?_⟩
  intro x hx
  refine ⟨⟨?_, ?_⟩, ?_⟩
  · intro h
    exact ⟨_, length_secondOrderSlack n d.constraintCones x, satisfied_of_feasible hn hfit h⟩
  · rintro ⟨y, hy, h⟩
    exact (feasible_of_satisfied hn hfit hseparate hx hy h).1
  · intro y hy
    exact ⟨fun h => (feasible_of_satisfied hn hfit hseparate hx hy h).2, dot_cost_lift hx⟩

end

def coneBesideRow : ConicData Extended where
  cost := .ofList [.finite 1, .finite 1]
  matrix := .nested (.list [.ofList [.finite 1, .finite 0], .ofList [.finite 0, .finite 1],
    .ofList [.finite 1, .finite 1]])
  rightHand := .ofList [.finite 3, .finite 4, .finite 5]
  constraintCones := [⟨.nonneg, [0]⟩, ⟨.secondOrder, [1, 2]⟩]
  variableCones := [⟨.nonneg, [0]⟩]

def numbersBesideRow : Numbers ℚ where
  cost := [1, 1]
  matrix := ⟨2, [[(0, 1)], [(1, 1)], [(0, 1), (1, 1)]]⟩
  rightHand := [3, 4, 5]

theorem lift_exact_beside_row :
    Lifted.readNumbers coneBesideRow = .ok numbersBesideRow.finite ∧
      ∃ p, Lifted.build coneBesideRow = .ok p ∧
        ∃ y, y.length = p.numAux ∧ p.Satisfied ([1, 2] ++ y) := by
  have hread : Lifted.readNumbers coneBesideRow = .ok numbersBesideRow.finite := by decide
  have hn : numbersBesideRow.Consistent := ⟨by decide, by decide, by decide⟩
  have hfit : ConesFit 3 2 coneBesideRow.constraintCones coneBesideRow.variableCones :=
    ⟨by decide, by decide, by decide⟩
  have hseparate : Separate coneBesideRow.variableCones := by
    intro k hk k' hk' _ _ _
    rw [List.mem_singleton.mp hk, List.mem_singleton.mp hk']
  have hfeasible : numbersBesideRow.Feasible coneBesideRow.constraintCones
      coneBesideRow.variableCones [1, 2] := by
    constructor
    · rfl
    · intro k hk
      simp only [coneBesideRow, List.mem_cons, List.not_mem_nil, or_false] at hk
      rcases hk with rfl | rfl <;>
        norm_num [Cone.Contains, Cone.isSecondOrder, Kind.Allows, InSecondOrder, coord,
          Numbers.slack, numbersBesideRow, RowMatrix.apply, rowValue]
    · simp [coneBesideRow, Cone.Contains, Cone.isSecondOrder, Kind.Allows, coord]
  obtain ⟨p, hp, _, hpoints⟩ := lift_exact hread hn hfit hseparate
  exact ⟨hread, p, hp, (hpoints [1, 2] rfl).1.mp hfeasible⟩

/-- However the variable cones overlap, and whichever of them wrote a bound last, the lift exists
and keeps every point of the conic problem. -/
theorem lift_keeps_points {n : Numbers ℚ} {d : ConicData Extended}
    (hread : Lifted.readNumbers d = .ok n.finite) (hn : n.Consistent)
    (hfit : ConesFit n.rightHand.length n.cost.length d.constraintCones d.variableCones) :
    ∃ p, Lifted.build d = .ok p ∧ p.numOrig = n.cost.length ∧
      ∀ x, n.Feasible d.constraintCones d.variableCones x →
        (n.secondOrderSlack d.constraintCones x).length = p.numAux ∧
          p.Satisfied (x ++ n.secondOrderSlack d.constraintCones x) := by
  refine ⟨_, build_of_fit hread hn hfit, length_finites n.cost, ?_⟩
  intro x hx
  exact ⟨length_secondOrderSlack n d.constraintCones x, satisfied_of_feasible hn hfit hx⟩

def overlappingCones : ConicData Extended where
  cost := .ofList [.finite 0, .finite 0]
  matrix := .nested (.list [.ofList [.finite 1, .finite 0]])
  rightHand := .ofList [.finite 5]
  constraintCones := [⟨.secondOrder, [0, 0]⟩, ⟨.nonneg, [0]⟩]
  variableCones := [⟨.nonneg, [1]⟩, ⟨.secondOrder, [0, 1, 1]⟩, ⟨.free, [1, 0]⟩]

def overlappingNumbers : Numbers ℚ where
  cost := [0, 0]
  matrix := ⟨2, [[(0, 1)]]⟩
  rightHand := [5]

theorem lift_keeps_points_overlapping :
    ¬Separate overlappingCones.variableCones ∧
      Lifted.readNumbers overlappingCones = .ok overlappingNumbers.finite ∧
      ∃ p, Lifted.build overlappingCones = .ok p ∧ p.numAux = 2 ∧
        p.Satisfied [3, 2, 2, 2] := by
  have hshared : ¬Separate overlappingCones.variableCones := by
    intro h
    have heq := h ⟨.nonneg, [1]⟩ (by simp [overlappingCones]) ⟨.free, [1, 0]⟩
      (by simp [overlappingCones]) 1 (by simp) (by simp)
    cases heq
  have hread : Lifted.readNumbers overlappingCones = .ok overlappingNumbers.finite := by decide
  have hn : overlappingNumbers.Consistent := ⟨by decide, by decide, by decide⟩
  have hfit : ConesFit 1 2 overlappingCones.constraintCones overlappingCones.variableCones :=
    ⟨by decide, by decide, by decide⟩
  have hslack : overlappingNumbers.slack [3, 2] = [2] := by
    norm_num [Numbers.slack, overlappingNumbers, RowMatrix.apply, rowValue]
  have hfeasible : overlappingNumbers.Feasible overlappingCones.constraintCones
      overlappingCones.variableCones [3, 2] := by
    constructor
    · rfl
    · rw [hslack]
      simp [overlappingCones, Cone.Contains, Cone.isSecondOrder, Kind.Allows, InSecondOrder, coord]
    · norm_num [overlappingCones, Cone.Contains, Cone.isSecondOrder, Kind.Allows, InSecondOrder,
        coord]
      decide
  obtain ⟨p, hp, _, hpoints⟩ := lift_keeps_points hread hn hfit
  obtain ⟨hlength, hsatisfied⟩ := hpoints [3, 2] hfeasible
  have haux : overlappingNumbers.secondOrderSlack overlappingCones.constraintCones [3, 2] =
      [2, 2] := by
    simp [Numbers.secondOrderSlack, overlappingCones, Cone.isSecondOrder, hslack, coord]
  rw [haux] at hlength hsatisfied
  exact ⟨hshared, hread, p, hp, hlength.symm, hsatisfied⟩

end ConeLift
