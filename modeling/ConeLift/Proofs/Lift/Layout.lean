import ConeLift.Proofs.Lift.ColumnRanges

/-!
Where a lifted problem keeps what belongs to a second-order constraint cone. Its columns, their
bounds, its rows and its quadratic row are counted off independently of each other, past the linear
and the empty cones in between; they meet all the same.
-/

namespace ConeLift

variable {α : Type}

namespace Numbers

structure Fits (n : Numbers α) (constraintCones variableCones : List Cone) : Prop where
  rows : n.matrix.numRows = n.rightHand.length
  cols : n.matrix.numCols = n.cost.length
  entries : ∀ row ∈ n.matrix.rows, ∀ e ∈ row, e.1 < n.matrix.numCols
  slacks : ∀ k ∈ constraintCones, ∀ i ∈ k.indices, i < n.rightHand.length
  points : ∀ k ∈ variableCones, ∀ i ∈ k.indices, i < n.cost.length

theorem Fits.liftable {n : Numbers α} {constraintCones variableCones : List Cone}
    (h : n.Fits constraintCones variableCones) :
    n.Liftable constraintCones variableCones where
  rows := h.rows
  cols := h.cols
  constraint := h.slacks
  bounded k hk i hi :=
    Nat.lt_add_right _ (h.points k hk i (mem_indices_of_mem_bounded hi))

end Numbers

variable [Scalar α]

namespace Partition

theorem secondOrder_cons {k : Cone} (hk : k.isSecondOrder = true) (ks : List Cone) :
    (ofCones (k :: ks)).secondOrder = k.indices ++ (ofCones ks).secondOrder := by
  simp [ofCones, hk]

theorem getElem?_secondOrder {k : Cone} (hk : k.isSecondOrder = true) (before after : List Cone)
    {j i : ℕ} (h : k.indices[j]? = some i) :
    (ofCones (before ++ k :: after)).secondOrder[(ofCones before).numAux + j]? = some i := by
  have hj : j < k.indices.length := (List.getElem?_eq_some_iff.mp h).1
  rw [secondOrder_append, secondOrder_cons hk, numAux,
    List.getElem?_append_right (Nat.le_add_right _ _), Nat.add_sub_cancel_left,
    List.getElem?_append_left hj, h]

end Partition

theorem auxiliaryBlocks_append (first : ℕ) (ks ls : List Cone) :
    auxiliaryBlocks first (ks ++ ls) =
      auxiliaryBlocks first ks ++ auxiliaryBlocks (first + (Partition.ofCones ks).numAux) ls := by
  induction ks generalizing first with
  | nil => rfl
  | cons k ks ih =>
    rw [List.cons_append]
    by_cases hk : (k.isSecondOrder && !k.indices.isEmpty) = true
    · rw [auxiliaryBlocks, if_pos hk, auxiliaryBlocks, if_pos hk, ih,
        Partition.numAux_cons_of_pos hk, List.cons_append, Nat.add_assoc]
    · rw [auxiliaryBlocks, if_neg hk, auxiliaryBlocks, if_neg hk, ih,
        Partition.numAux_cons_of_neg hk]

structure Cone.Between (k : Cone) (cones before after : List Cone) : Prop where
  eq : cones = before ++ k :: after
  secondOrder : k.isSecondOrder = true
  nonempty : k.indices ≠ []

namespace Cone.Between

variable {k : Cone} {cones before after : List Cone}

theorem size_pos (h : k.Between cones before after) : 0 < k.size :=
  List.length_pos_iff.mpr h.nonempty

theorem auxiliaryBlocks_eq (h : k.Between cones before after) (first : ℕ) :
    auxiliaryBlocks first cones = auxiliaryBlocks first before ++
      List.range' (first + (Partition.ofCones before).numAux) k.size ::
        auxiliaryBlocks (first + (Partition.ofCones before).numAux + k.size) after := by
  have hk : (k.isSecondOrder && !k.indices.isEmpty) = true := by
    simp [h.secondOrder, h.nonempty]
  rw [h.eq, auxiliaryBlocks_append]
  conv_lhs => rw [auxiliaryBlocks, if_pos hk]

theorem numAux_eq (h : k.Between cones before after) :
    (Partition.ofCones cones).numAux =
      (Partition.ofCones before).numAux + k.size + (Partition.ofCones after).numAux := by
  rw [h.eq, Partition.numAux_append, Partition.numAux_cons, if_pos h.secondOrder, Nat.add_assoc]

theorem mem_leadColumns_iff (h : k.Between cones before after) (first : ℕ) {j : ℕ}
    (hj : j < k.size) :
    first + (Partition.ofCones before).numAux + j ∈ leadColumns first cones ↔ j = 0 := by
  have hhead : (List.range' (first + (Partition.ofCones before).numAux) k.size).head? =
      some (first + (Partition.ofCones before).numAux) := by
    simp [List.head?_range', h.size_pos.ne']
  have hleads : leadColumns first cones = leadColumns first before ++
      (first + (Partition.ofCones before).numAux) ::
        leadColumns (first + (Partition.ofCones before).numAux + k.size) after := by
    rw [leadColumns, h.auxiliaryBlocks_eq, List.filterMap_append, List.filterMap_cons_some hhead]
    rfl
  rw [hleads, List.mem_append, List.mem_cons]
  constructor
  · rintro (hbefore | hfirst | hafter)
    · have hlt := le_of_mem_leadColumns _ _ _ hbefore
      omega
    · omega
    · have hle := le_of_mem_leadColumns _ _ _ hafter
      omega
  · rintro rfl
    exact .inr (.inl rfl)

end Cone.Between

theorem forall₂_auxiliaryBlocks (first : ℕ) (before cones : List Cone) :
    List.Forall₂ (fun k block => ∃ pre post, k.Between (before ++ cones) pre post ∧
        block = List.range' (first + (Partition.ofCones pre).numAux) k.size)
      (quadraticCones cones)
      (auxiliaryBlocks (first + (Partition.ofCones before).numAux) cones) := by
  induction cones generalizing before with
  | nil => exact .nil
  | cons k ks ih =>
    have hnext := ih (before ++ [k])
    rw [List.append_assoc, List.singleton_append, Partition.numAux_append] at hnext
    by_cases hk : (k.isSecondOrder && !k.indices.isEmpty) = true
    · rw [quadraticCones_cons_of_pos hk, auxiliaryBlocks, if_pos hk, Nat.add_assoc]
      rw [Partition.numAux_cons_of_pos hk] at hnext
      simp only [Bool.and_eq_true, Bool.not_eq_true', List.isEmpty_eq_false_iff] at hk
      exact .cons ⟨before, ks, ⟨rfl, hk.1, hk.2⟩, rfl⟩ hnext
    · rw [quadraticCones_cons_of_neg hk, auxiliaryBlocks, if_neg hk]
      rw [Partition.numAux_cons_of_neg hk] at hnext
      exact hnext

def Kind.interval (b : α) : Kind → α × α
  | .zero => (b, b)
  | .nonpos => (b, Scalar.infinity)
  | .nonneg => (-Scalar.infinity, b)
  | _ => (-Scalar.infinity, Scalar.infinity)

theorem Kind.interval_eq_rowBounds (b : List α) (i : ℕ) (k : Kind) :
    k.interval (b.getD i 0) = rowBounds b (i, k) := by
  cases k <;> rfl

def QuadraticRow.Mentions (q : QuadraticRow α) (j : ℕ) : Prop :=
  (j : ℤ) ∈ q.linearIndex ++ q.rowIndex ++ q.colIndex

theorem QuadraticRow.mentions_ofColumns {columns : List ℕ} {j : ℕ} :
    (ofColumns (α := α) columns).Mentions j ↔ j ∈ columns := by
  simp [Mentions, ofColumns, ofCone]

def QuadraticRow.ofBlock (first size : ℕ) : QuadraticRow α where
  linearIndex := []
  linearCoef := []
  rowIndex := (List.range' first size).map fun j : ℕ => (j : ℤ)
  colIndex := (List.range' first size).map fun j : ℕ => (j : ℤ)
  coef := -1 :: List.replicate (size - 1) 1
  bound := 0

theorem QuadraticRow.ofBlock_eq_ofColumns (first size : ℕ) :
    (ofBlock first size : QuadraticRow α) = ofColumns (List.range' first size) := by
  simp [ofBlock, ofColumns, ofCone]

namespace Lifted

structure HasRow (p : Lifted α) (r : ℕ) (row : List (ℕ × α)) (b : α × α) : Prop where
  entries : p.matrix.rows[r]? = some row
  lower : p.rows.lower[r]? = some b.1
  upper : p.rows.upper[r]? = some b.2

structure Reads (p : Lifted α) (n : Numbers α) (i : ℕ) (row : List (ℕ × α)) (b : α) : Prop where
  entries : n.matrix.rows[i]? = some row
  columns : ∀ e ∈ row, e.1 < p.numOrig
  rightHand : n.rightHand[i]? = some b

/-- The columns `first`, `first + 1`, ... stand for a second-order cone: one quadratic row is about
them and no other, only the leading column is bounded, and each of them is defined by a row. -/
structure LaidOut (p : Lifted α) (n : Numbers α) (k : Cone) (first : ℕ) : Prop where
  quadratic : ∃ r : ℕ, p.quadratics[r]? = some (QuadraticRow.ofBlock first k.size) ∧
    ∀ (r' : ℕ) (q : QuadraticRow α), p.quadratics[r']? = some q →
      (∃ j < k.size, q.Mentions (first + j)) → r' = r
  columns : ∀ j < k.size,
    p.columns.lower[first + j]? = some (if j = 0 then 0 else -Scalar.infinity) ∧
      p.columns.upper[first + j]? = some Scalar.infinity
  rows : ∀ j i : ℕ, k.indices[j]? = some i → ∃ row b, p.Reads n i row b ∧
    p.HasRow (p.numLinear + (first - p.numOrig) + j) (row ++ [(first + j, 1)]) (b, b)

end Lifted

theorem eq_length_of_getElem? {β : Type} {P : β → Prop} {before after : List β} {b c : β} {i : ℕ}
    (hbefore : ∀ a ∈ before, ¬P a) (hafter : ∀ a ∈ after, ¬P a)
    (hi : (before ++ b :: after)[i]? = some c) (hc : P c) : i = before.length := by
  rcases Nat.lt_trichotomy i before.length with hlt | heq | hgt
  · rw [List.getElem?_append_left hlt] at hi
    exact absurd hc (hbefore c (List.mem_of_getElem? hi))
  · exact heq
  · obtain ⟨t, rfl⟩ := Nat.exists_eq_add_of_lt hgt
    rw [List.getElem?_append_right (by omega), Nat.add_assoc, Nat.add_sub_cancel_left,
      List.getElem?_cons_succ] at hi
    exact absurd hc (hafter c (List.mem_of_getElem? hi))

namespace Numbers

variable {n : Numbers α} {constraintCones variableCones : List Cone}

theorem Fits.reads (h : n.Fits constraintCones variableCones) {i : ℕ}
    (hi : i < n.rightHand.length) :
    (n.lift constraintCones variableCones).Reads n i (n.matrix.rows.getD i [])
      (n.rightHand.getD i 0) := by
  have hrow : i < n.matrix.rows.length := by
    rw [← RowMatrix.numRows, h.rows]
    exact hi
  constructor
  · rw [List.getD_eq_getElem _ _ hrow, List.getElem?_eq_getElem hrow]
  · intro e he
    rw [List.getD_eq_getElem _ _ hrow] at he
    exact (h.entries _ (List.getElem_mem hrow) e he).trans_eq h.cols
  · rw [List.getD_eq_getElem _ _ hi, List.getElem?_eq_getElem hi]

theorem lift_linear_row (n : Numbers α) (constraintCones variableCones : List Cone) {r i : ℕ}
    {k : Kind} (h : (Partition.ofCones constraintCones).linear[r]? = some (i, k)) :
    (n.lift constraintCones variableCones).HasRow r (n.matrix.rows.getD i [])
      (k.interval (n.rightHand.getD i 0)) := by
  have hr : r < (Partition.ofCones constraintCones).linear.length :=
    (List.getElem?_eq_some_iff.mp h).1
  rw [Kind.interval_eq_rowBounds]
  constructor
  · rw [lift, List.getElem?_append_left (by simpa [linearRows] using hr), linearRows,
      List.getElem?_map, h, Option.map_some]
  · rw [lift, List.getElem?_append_left (by simpa using hr), List.getElem?_map, h, Option.map_some]
  · rw [lift, List.getElem?_append_left (by simpa using hr), List.getElem?_map, h, Option.map_some]

theorem lift_auxiliary_row (n : Numbers α) (constraintCones variableCones : List Cone) {o i : ℕ}
    (h : (Partition.ofCones constraintCones).secondOrder[o]? = some i) :
    (n.lift constraintCones variableCones).HasRow
      ((n.lift constraintCones variableCones).numLinear + o)
      (n.matrix.rows.getD i [] ++ [(n.matrix.numCols + o, 1)])
      (n.rightHand.getD i 0, n.rightHand.getD i 0) := by
  have ho : o < (Partition.ofCones constraintCones).numAux := (List.getElem?_eq_some_iff.mp h).1
  constructor
  · rw [lift, List.getElem?_append_right (by simp [linearRows])]
    simp [linearRows, auxiliaryRows, List.getElem?_zip_eq_some, h, ho]
  · rw [lift, List.getElem?_append_right (by simp)]
    simp [h]
  · rw [lift, List.getElem?_append_right (by simp)]
    simp [h]

section

variable {k : Cone} {before after : List Cone}
  (h : n.Fits constraintCones variableCones) (hk : k.Between constraintCones before after)

include h hk

theorem Fits.exists_quadratic_of_block :
    ∃ r : ℕ, (n.lift constraintCones variableCones).quadratics[r]? = some (QuadraticRow.ofBlock
        (n.cost.length + (Partition.ofCones before).numAux) k.size) ∧
      ∀ (r' : ℕ) (q : QuadraticRow α),
        (n.lift constraintCones variableCones).quadratics[r']? = some q →
        (∃ j < k.size, q.Mentions (n.cost.length + (Partition.ofCones before).numAux + j)) →
          r' = r := by
  refine ⟨(variableBlocks variableCones ++ auxiliaryBlocks n.cost.length before).length, ?_, ?_⟩
  · rw [QuadraticRow.ofBlock_eq_ofColumns, lift, secondOrderBlocks, hk.auxiliaryBlocks_eq]
    simp [variableBlocks]
  · rintro r' q hq ⟨j, hj, hmentions⟩
    rw [lift, List.getElem?_map, Option.map_eq_some_iff] at hq
    obtain ⟨block, hblock, rfl⟩ := hq
    rw [QuadraticRow.mentions_ofColumns] at hmentions
    rw [secondOrderBlocks, hk.auxiliaryBlocks_eq, ← List.append_assoc] at hblock
    refine eq_length_of_getElem? ?_ ?_ hblock hmentions
    · -- Variable blocks lie left of the auxiliary columns; earlier blocks end where this begins.
      intro block' hblock' hmem
      rcases List.mem_append.mp hblock' with hvariable | hbefore
      · have hlt := (forall_variableBlocks_iff variableCones n.cost.length).mpr
          (fun k' hk' _ => h.points k' hk') block' hvariable _ hmem
        omega
      · have hlt := (bounds_of_mem_auxiliaryBlocks _ _ block' hbefore).2 _ hmem
        omega
    · intro block' hafter hmem
      have hle := (bounds_of_mem_auxiliaryBlocks _ _ block' hafter).2 _ hmem
      omega

theorem Fits.bounds_of_block {j : ℕ} (hj : j < k.size) :
    (n.lift constraintCones variableCones).columns.lower[
        n.cost.length + (Partition.ofCones before).numAux + j]? =
          some (if j = 0 then 0 else -Scalar.infinity) ∧
      (n.lift constraintCones variableCones).columns.upper[
        n.cost.length + (Partition.ofCones before).numAux + j]? = some Scalar.infinity := by
  have hsize := hk.numAux_eq
  have hcolumn : n.cost.length + (Partition.ofCones before).numAux + j <
      (n.lift constraintCones variableCones).numVar := by
    simp only [Lifted.numVar, lift]
    omega
  have hfree : ∀ k' ∈ variableCones,
      n.cost.length + (Partition.ofCones before).numAux + j ∉ k'.bounded := by
    intro k' hk' hmem
    have hlt := h.points k' hk' _ (mem_indices_of_mem_bounded hmem)
    omega
  obtain ⟨hlower, hupper⟩ := auxiliary_bounds hcolumn hfree
  simp only [hk.mem_leadColumns_iff _ hj] at hlower
  exact ⟨hlower, hupper⟩

theorem Fits.row_of_block {j i : ℕ} (hi : k.indices[j]? = some i) :
    ∃ row b, (n.lift constraintCones variableCones).Reads n i row b ∧
      (n.lift constraintCones variableCones).HasRow
        ((n.lift constraintCones variableCones).numLinear +
          ((Partition.ofCones before).numAux + j))
        (row ++ [(n.cost.length + (Partition.ofCones before).numAux + j, 1)]) (b, b) := by
  have hmem : k ∈ constraintCones := by
    rw [hk.eq]
    exact List.mem_append_right _ List.mem_cons_self
  have hentry := Partition.getElem?_secondOrder hk.secondOrder before after hi
  rw [← hk.eq] at hentry
  have hrow := lift_auxiliary_row n constraintCones variableCones hentry
  rw [h.cols, ← Nat.add_assoc n.cost.length] at hrow
  exact ⟨_, _, h.reads (h.slacks k hmem i (List.mem_of_getElem? hi)), hrow⟩

theorem Fits.laidOut :
    (n.lift constraintCones variableCones).LaidOut n k
      (n.cost.length + (Partition.ofCones before).numAux) := by
  refine ⟨h.exists_quadratic_of_block hk, fun j hj => h.bounds_of_block hk hj, ?_⟩
  intro j i hi
  have hoffset : n.cost.length + (Partition.ofCones before).numAux -
      (n.lift constraintCones variableCones).numOrig = (Partition.ofCones before).numAux :=
    Nat.add_sub_cancel_left n.cost.length _
  rw [hoffset, Nat.add_assoc]
  exact h.row_of_block hk hi

end

end Numbers

namespace Lifted

/-- The whole layout: the linear rows, cone by cone, and after them block by block what belongs to
the second-order cones that are not empty. The blocks take up all auxiliary columns. -/
structure Arranged (p : Lifted α) (n : Numbers α) (constraintCones : List Cone) : Prop where
  numOrig : p.numOrig = n.cost.length
  numCols : p.matrix.numCols = p.numVar
  numRows : p.matrix.numRows = p.numLinear + p.numAux
  numLinear : p.numLinear = ((constraintCones.filter fun k => !k.isSecondOrder).map Cone.size).sum
  linear : ∀ (r i : ℕ) (kind : Kind),
    ((constraintCones.filter fun k => !k.isSecondOrder).flatMap fun k =>
      k.indices.map fun i => (i, k.kind))[r]? = some (i, kind) →
    ∃ row b, p.Reads n i row b ∧ p.HasRow r row (kind.interval b)
  blocks : ∃ blocks, blocks.flatten = List.range' p.numOrig p.numAux ∧
    List.Forall₂ (fun k block => ∃ first, block = List.range' first k.size ∧ p.LaidOut n k first)
      (quadraticCones constraintCones) blocks

/-- Every part of a lifted problem finds the same columns for a second-order constraint cone,
whatever cones stand before it. -/
theorem build_arranged {d : ConicData α} {n : Numbers α} (hread : readNumbers d = .ok n)
    (hkinds : ∀ k ∈ d.constraintCones ++ d.variableCones, k.kind.supported = true)
    (hn : n.Fits d.constraintCones d.variableCones) :
    ∃ p, build d = .ok p ∧ p.Arranged n d.constraintCones := by
  refine ⟨n.lift d.constraintCones d.variableCones,
    (build_eq_ok_iff d _).mpr ⟨hkinds, n, hread, hn.liftable, rfl⟩, ?_⟩
  constructor
  · rfl
  · simp only [Numbers.lift, numVar, hn.cols]
  · exact n.numRows_lift d.constraintCones d.variableCones
  · simp only [Numbers.lift, Partition.ofCones, List.length_flatMap, List.length_map]
    rfl
  · intro r i kind hentry
    have hmem := List.mem_of_getElem? hentry
    have hi := ((forall_parts_iff _ _).mpr hn.slacks).1 _ hmem
    exact ⟨_, _, hn.reads hi, n.lift_linear_row d.constraintCones d.variableCones hentry⟩
  · obtain ⟨_, hflatten⟩ := auxiliaryBlocks_spec n.cost.length d.constraintCones
    refine ⟨_, hflatten, ?_⟩
    refine (forall₂_auxiliaryBlocks n.cost.length [] d.constraintCones).imp ?_
    rintro k block ⟨before, after, hk, rfl⟩
    exact ⟨_, rfl, hn.laidOut hk⟩

def scatteredCones : ConicData Extended where
  cost := .ofList [.finite 1, .finite 1]
  matrix := .compressed
    ⟨2, [[(0, .finite 1)], [(1, .finite 2)], [], [(0, .finite 3), (1, .finite 4)]]⟩
  rightHand := .ofList [.finite 5, .finite 6, .finite 7, .finite 8]
  constraintCones := [⟨.zero, [2]⟩, ⟨.secondOrder, [3, 0]⟩, ⟨.secondOrder, []⟩, ⟨.nonneg, [1, 2]⟩,
    ⟨.secondOrder, [1]⟩, ⟨.free, [0]⟩, ⟨.secondOrder, [2, 2, 0]⟩]
  variableCones := [⟨.secondOrder, [1, 0]⟩, ⟨.nonpos, [0]⟩]

def scatteredNumbers : Numbers Extended where
  cost := [.finite 1, .finite 1]
  matrix := ⟨2, [[(0, .finite 1)], [(1, .finite 2)], [], [(0, .finite 3), (1, .finite 4)]]⟩
  rightHand := [.finite 5, .finite 6, .finite 7, .finite 8]

theorem build_arranged_scattered :
    ∃ p, build scatteredCones = .ok p ∧
      p.Arranged scatteredNumbers scatteredCones.constraintCones ∧
      p.numOrig = 2 ∧ p.numAux = 6 ∧ p.numLinear = 4 ∧
      p.columns.lower.drop 2 = [0, .negInfinity, 0, 0, .negInfinity, .negInfinity] ∧
      p.matrix.rows.drop 4 = [[(0, .finite 3), (1, .finite 4), (2, 1)], [(0, .finite 1), (3, 1)],
        [(1, .finite 2), (4, 1)], [(5, 1)], [(6, 1)], [(0, .finite 1), (7, 1)]] := by
  have hread : readNumbers scatteredCones = .ok scatteredNumbers := by decide +kernel
  have hfits : scatteredNumbers.Fits scatteredCones.constraintCones
      scatteredCones.variableCones :=
    ⟨by decide, by decide, by decide, by decide, by decide⟩
  obtain ⟨p, hbuild, harranged⟩ := build_arranged hread (by decide) hfits
  have hlift : build scatteredCones = .ok (scatteredNumbers.lift scatteredCones.constraintCones
      scatteredCones.variableCones) := by decide +kernel
  obtain rfl := Except.ok.inj (hlift.symm.trans hbuild)
  exact ⟨_, hlift, harranged, rfl, rfl, rfl, by decide +kernel, by decide +kernel⟩

end Lifted

end ConeLift
