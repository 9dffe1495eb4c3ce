import ConeLift.Proofs.Documents
import ConeLift.Proofs.Drafts
import ConeLift.Proofs.ExponentBounds

namespace ConeLift

namespace Problem

section

variable {α : Type}

def lengthRows (P : Problem α) : List ℕ :=
  (P.constraintCones.filter Cone.isSecondOrder).flatMap fun k => k.indices.tail

/-- The cones list every row and every variable once, and one of them is of second order and has
the given size. -/
structure Covered (P : Problem α) (size : ℤ) : Prop where
  rows : P.constraintCones.flatMap Cone.indices = List.range P.rightHand.length
  columns : P.variableCones.flatMap Cone.indices = List.range P.cost.length
  secondOrder : ∃ k ∈ P.constraintCones, (k.size : ℤ) = size ∧
    (P.constraintCones ++ P.variableCones).filter Cone.isSecondOrder = [k]

end

/-- The points that a random problem is made for: every entry but the first one lies between zero
and one, and the first one is at least as large as the length of what the rows of the cone leave. -/
structure Bounded (P : Problem ℚ) (t : ℚ) (x : List ℚ) : Prop where
  length : x.length + 1 = P.cost.length
  unit : ∀ v ∈ x, 0 ≤ v ∧ v ≤ 1
  nonneg : 0 ≤ t
  reach : (P.lengthRows.map fun i => coord (P.numbers.slack (t :: x)) i ^ 2).sum ≤ t ^ 2

theorem numbers_of_rows {P : Problem ℚ} {A : RowMatrix ℚ} (h : P.matrix = .ofRows A) :
    P.numbers = ⟨P.cost, A, P.rightHand⟩ := by
  have hentries : P.matrix.entriesOf = (A.rows.getD · []) := by
    rw [h]
    exact funext (Triplets.entriesOf_ofRows A)
  have hnumRows : P.matrix.numRows = A.numRows := by rw [h, Triplets.ofRows]
  have hnumCols : P.matrix.numCols = A.numCols := by rw [h, Triplets.ofRows]
  rw [numbers, hentries, hnumRows, hnumCols, Int.toNat_natCast, Int.toNat_natCast,
    RowMatrix.numRows, ← eq_map_range]

end Problem

def Triplets.map {α β : Type} (f : α → β) (T : Triplets α) : Triplets β :=
  ⟨T.numRows, T.numCols, T.rows, T.cols, T.vals.map f⟩

namespace Problem

def map {α β : Type} (f : α → β) (P : Problem α) : Problem β where
  name := P.name
  cost := P.cost.map f
  matrix := P.matrix.map f
  rightHand := P.rightHand.map f
  constraintCones := P.constraintCones
  variableCones := P.variableCones

def Denotes (P : Problem Float) (Q : Problem ℚ) : Prop := P.map exactValue? = Q.map some

instance (P : Problem Float) (Q : Problem ℚ) : Decidable (P.Denotes Q) :=
  inferInstanceAs (Decidable (P.map exactValue? = Q.map some))

theorem Denotes.eq_map {P : Problem Float} {Q : Problem ℚ} (h : P.Denotes Q) :
    Q = (P.map exactValue?).map (·.getD 0) := by
  have hundo : (Q.map some).map (·.getD 0) = Q := by
    simp [map, Triplets.map, Function.comp_def]
  rw [show P.map exactValue? = Q.map some from h, hundo]

end Problem

theorem Triplets.map_ofRows {α β : Type} (f : α → β) (A : RowMatrix α) :
    (ofRows A).map f = ofRows ⟨A.numCols, A.rows.map (List.map fun e => (e.1, f e.2))⟩ := by
  simp [Triplets.map, ofRows, RowMatrix.numRows, List.zip_map_left, List.flatMap_map,
    List.map_flatMap, Function.comp_def]

namespace Instance

section

variable {α : Type}

def drawnRows (others free : ℕ) (one negOne : α) (coef : ℕ → ℕ → α) : List (List (ℕ × α)) :=
  (List.range others).map (fun i => [(i + 1, one)]) ++
    [(0, negOne)] ::
      (List.range free).map fun r => (List.range others).map fun j => (j + 1, coef r j)

def drawn (others free : ℕ) (zero one negOne : α) (coef : ℕ → ℕ → α) (right : ℕ → α) :
    Problem α where
  name := "random-socp"
  cost := one :: List.replicate others zero
  matrix := .ofRows ⟨others + 1, drawnRows others free one negOne coef⟩
  rightHand := List.replicate others one ++ zero :: (List.range free).map right
  constraintCones := [⟨.nonneg, List.range others⟩,
    ⟨.secondOrder, (List.range (free + 1)).map (others + ·)⟩]
  variableCones := [⟨.free, [0]⟩, ⟨.nonneg, (List.range others).map (· + 1)⟩]

theorem map_add_range_succ (a m : ℕ) :
    (List.range (m + 1)).map (a + ·) = a :: (List.range m).map (a + 1 + ·) := by
  rw [List.range_succ_eq_map, List.map_cons, List.map_map]
  simp only [Function.comp_def, Nat.succ_eq_add_one, Nat.add_zero, Nat.add_assoc, Nat.add_comm 1]

theorem numRows_drawnRows (others free : ℕ) (one negOne : α) (coef : ℕ → ℕ → α) :
    (RowMatrix.mk (others + 1) (drawnRows others free one negOne coef)).numRows =
      others + (free + 1) := by
  simp [RowMatrix.numRows, drawnRows]

theorem problem_eq_drawn [Scalar α] {n : ℤ} (h : 1 ≤ n) (coneSize : ℤ) (u : ℕ → α) :
    problem n coneSize u = drawn (n - 1).toNat (coneSize - 1).toNat 0 1 (-1)
      (fun r j => symmetric coefRange (u (r * ((n - 1).toNat + 1) + j)))
      (fun r => symmetric rightHandRange (u (r * ((n - 1).toNat + 1) + (n - 1).toNat))) := by
  have hn : (((n - 1).toNat + 1 : ℕ) : ℤ) = n := by omega
  have hcapped := (Draft.holds_blank (α := α) ((n - 1).toNat + 1)).caps (n - 1).toNat
  have hlead := hcapped.write [(0, -1)] 0 0
  rw [← Draft.lead_eq_write] at hlead
  have hdraft := hlead.drawRows u (n - 1).toNat (coneSize - 1).toNat
  have hnumLinear := hcapped.next
  have hnumRows := hdraft.next
  have hmatrix := hdraft.matrix
  rw [hn] at hmatrix
  simp only [List.nil_append, List.append_assoc, List.singleton_append, List.length_append,
    List.length_cons, List.length_map, List.length_range, Nat.zero_add] at *
  simp only [problem, others, hmatrix, hdraft.rightHand, hnumLinear, hnumRows, drawn, drawnRows,
    Nat.add_sub_cancel_left, List.range'_eq_map_range, List.map_map, Function.comp_def,
    Int.toNat_natCast_add_one]

theorem map_drawn {β : Type} (f : α → β) (others free : ℕ) (zero one negOne : α)
    (coef : ℕ → ℕ → α) (right : ℕ → α) :
    (drawn others free zero one negOne coef right).map f =
      drawn others free (f zero) (f one) (f negOne) (fun r j => f (coef r j))
        fun r => f (right r) := by
  simp [drawn, Problem.map, Triplets.map_ofRows, drawnRows, Function.comp_def]

theorem drawn_congr (others free : ℕ) (zero one negOne : α) {coef coef' : ℕ → ℕ → α}
    {right right' : ℕ → α} (hcoef : ∀ r < free, ∀ j < others, coef r j = coef' r j)
    (hright : ∀ r < free, right r = right' r) :
    drawn others free zero one negOne coef right =
      drawn others free zero one negOne coef' right' := by
  have hrows : drawnRows others free one negOne coef = drawnRows others free one negOne coef' := by
    rw [drawnRows, drawnRows]
    congr 2
    apply List.map_congr_left
    intro r hr
    apply List.map_congr_left
    intro j hj
    rw [hcoef r (List.mem_range.mp hr) j (List.mem_range.mp hj)]
  have hrights : (List.range free).map right = (List.range free).map right' :=
    List.map_congr_left fun r hr => hright r (List.mem_range.mp hr)
  rw [drawn, drawn, hrows, hrights]

theorem valid_drawn (others free : ℕ) (zero one negOne : α) (coef : ℕ → ℕ → α) (right : ℕ → α) :
    (drawn others free zero one negOne coef right).Valid := by
  have hfit : (RowMatrix.mk (others + 1) (drawnRows others free one negOne coef)).EntriesFit := by
    intro row hrow e he
    simp only [drawnRows, List.mem_append, List.mem_cons, List.mem_map, List.mem_range] at hrow
    rcases hrow with ⟨i, hi, rfl⟩ | rfl | ⟨r, _, rfl⟩
    · obtain rfl := List.mem_singleton.mp he
      exact Nat.succ_lt_succ hi
    · obtain rfl := List.mem_singleton.mp he
      exact Nat.succ_pos others
    · obtain ⟨j, hj, rfl⟩ := List.mem_map.mp he
      exact Nat.succ_lt_succ (List.mem_range.mp hj)
  refine ⟨Triplets.consistent_ofRows hfit, ?_⟩
  simp [Problem.inconsistency?, drawn, Triplets.ofRows, numRows_drawnRows]

theorem length_cost_drawn (others free : ℕ) (zero one negOne : α) (coef : ℕ → ℕ → α)
    (right : ℕ → α) : (drawn others free zero one negOne coef right).cost.length = others + 1 := by
  simp [drawn]

theorem covered_drawn (others free : ℕ) (zero one negOne : α) (coef : ℕ → ℕ → α)
    (right : ℕ → α) : (drawn others free zero one negOne coef right).Covered (free + 1) := by
  constructor
  · simp [drawn, List.range_add]
  · simp [drawn, List.range_succ_eq_map]
  · refine ⟨⟨.secondOrder, (List.range (free + 1)).map (others + ·)⟩, ?_, ?_, ?_⟩
    · simp [drawn]
    · simp [Cone.size]
    · simp [drawn, Cone.isSecondOrder]

end

section

variable (others free : ℕ) (coef : ℕ → ℕ → ℚ) (right : ℕ → ℚ)

def residual (x : List ℚ) (r : ℕ) : ℚ :=
  right r - ((List.range others).map fun j => coef r j * coord x j).sum

theorem slack_drawn (t : ℚ) (x : List ℚ) :
    (drawn others free 0 1 (-1) coef right).numbers.slack (t :: x) =
      ((List.range others).map fun i => 1 - coord x i) ++
        t :: (List.range free).map (residual others coef right x) := by
  have hones : List.replicate others (1 : ℚ) = (List.range others).map fun _ => 1 := by simp
  rw [Problem.numbers_of_rows (P := drawn others free 0 1 (-1) coef right) rfl, Numbers.slack]
  simp only [drawn, RowMatrix.apply, drawnRows, List.map_append, List.map_cons, List.map_map]
  rw [List.zipWith_append (by simp), List.zipWith_cons_cons, hones, List.zipWith_map,
    List.zipWith_map, List.zipWith_self, List.zipWith_self]
  simp [rowValue, residual, coord, Function.comp_def]

theorem map_coord_slack (t : ℚ) (x : List ℚ) :
    ((List.range (free + 1)).map (others + ·)).map
        (coord ((drawn others free 0 1 (-1) coef right).numbers.slack (t :: x))) =
      t :: (List.range free).map (residual others coef right x) := by
  have hlength : (t :: (List.range free).map (residual others coef right x)).length = free + 1 := by
    simp
  -- The rows of the cone are those behind the rows of the other variables.
  have hentry (k : ℕ) : coord ((drawn others free 0 1 (-1) coef right).numbers.slack (t :: x))
      (others + k) = coord (t :: (List.range free).map (residual others coef right x)) k := by
    have happend := coord_append_right ((List.range others).map fun i => 1 - coord x i)
      (t :: (List.range free).map (residual others coef right x)) k
    rwa [List.length_map, List.length_range, ← slack_drawn] at happend
  rw [List.map_map, Function.comp_def]
  simp only [hentry]
  rw [← hlength]
  exact (eq_map_range _ 0).symm

variable {others free coef right}

theorem coord_slack_of_lt (t : ℚ) (x : List ℚ) {i : ℕ} (h : i < others) :
    coord ((drawn others free 0 1 (-1) coef right).numbers.slack (t :: x)) i = 1 - coord x i := by
  rw [slack_drawn, coord_append_left _ (by simpa using h), coord, getD_map_range _ _ _ h]

theorem contains_caps_iff (t : ℚ) (x : List ℚ) :
    Cone.Contains ⟨.nonneg, List.range others⟩
        (coord ((drawn others free 0 1 (-1) coef right).numbers.slack (t :: x))) ↔
      ∀ i < others, coord x i ≤ 1 := by
  simp only [Cone.Contains, Cone.isSecondOrder, Kind.Allows, reduceCtorEq, decide_false,
    Bool.false_eq_true, if_false, List.mem_range]
  apply forall₂_congr
  intro i hi
  rw [coord_slack_of_lt t x hi, sub_nonneg]

theorem contains_secondOrder_iff (t : ℚ) (x : List ℚ) :
    Cone.Contains ⟨.secondOrder, (List.range (free + 1)).map (others + ·)⟩
        (coord ((drawn others free 0 1 (-1) coef right).numbers.slack (t :: x))) ↔
      0 ≤ t ∧ ((List.range free).map fun r => residual others coef right x r ^ 2).sum ≤ t ^ 2 := by
  simp only [Cone.Contains, Cone.isSecondOrder, decide_true, if_true]
  rw [map_coord_slack, InSecondOrder, List.map_map]
  rfl

theorem contains_others_iff (t : ℚ) (x : List ℚ) :
    Cone.Contains ⟨.nonneg, (List.range others).map (· + 1)⟩ (coord (t :: x)) ↔
      ∀ i < others, 0 ≤ coord x i := by
  simp [Cone.Contains, Cone.isSecondOrder, Kind.Allows, coord]

theorem feasible_drawn_iff (t : ℚ) (x : List ℚ) :
    (drawn others free 0 1 (-1) coef right).Feasible (t :: x) ↔
      x.length = others ∧ (∀ v ∈ x, 0 ≤ v ∧ v ≤ 1) ∧ 0 ≤ t ∧
        ((List.range free).map fun r => residual others coef right x r ^ 2).sum ≤ t ^ 2 := by
  have hlength : (t :: x).length =
      (drawn others free 0 1 (-1) coef right).numbers.cost.length ↔ x.length = others := by
    simp [Problem.numbers, drawn]
  rw [forall_mem_iff_coord]
  constructor
  · rintro ⟨hsize, hconstraint, hvariable⟩
    obtain rfl := hlength.mp hsize
    have hle := (contains_caps_iff t x).mp (hconstraint _ List.mem_cons_self)
    have hreach := (contains_secondOrder_iff t x).mp
      (hconstraint _ (List.mem_cons_of_mem _ List.mem_cons_self))
    have hge := (contains_others_iff t x).mp
      (hvariable _ (List.mem_cons_of_mem _ List.mem_cons_self))
    exact ⟨rfl, fun i hi => ⟨hge i hi, hle i hi⟩, hreach⟩
  · rintro ⟨rfl, hunit, hreach⟩
    refine ⟨hlength.mpr rfl, ?_, ?_⟩
    · intro k hk
      rcases List.mem_pair.mp hk with rfl | rfl
      · exact (contains_caps_iff t x).mpr fun i hi => (hunit i hi).2
      · exact (contains_secondOrder_iff t x).mpr hreach
    · intro k hk
      rcases List.mem_pair.mp hk with rfl | rfl
      · simp [Cone.Contains, Cone.isSecondOrder, Kind.Allows]
      · exact (contains_others_iff t x).mpr fun i hi => (hunit i hi).1

theorem map_lengthRows_drawn (t : ℚ) (x : List ℚ) :
    ((drawn others free 0 1 (-1) coef right).lengthRows.map fun i =>
        coord ((drawn others free 0 1 (-1) coef right).numbers.slack (t :: x)) i ^ 2) =
      (List.range free).map fun r => residual others coef right x r ^ 2 := by
  have hrows : (drawn others free 0 1 (-1) coef right).lengthRows =
      (List.range free).map (others + 1 + ·) := by
    simp [Problem.lengthRows, drawn, Cone.isSecondOrder, map_add_range_succ]
  have hentries := map_coord_slack others free coef right t x
  rw [map_add_range_succ, List.map_cons, List.cons.injEq] at hentries
  have hsquares := congrArg (List.map (· ^ 2)) hentries.2
  rw [← hrows, List.map_map, List.map_map] at hsquares
  exact hsquares

theorem bounded_drawn_iff (t : ℚ) (x : List ℚ) :
    (drawn others free 0 1 (-1) coef right).Bounded t x ↔
      (drawn others free 0 1 (-1) coef right).Feasible (t :: x) := by
  have hlength : x.length + 1 = (drawn others free 0 1 (-1) coef right).cost.length ↔
      x.length = others := by
    simp [drawn]
  rw [feasible_drawn_iff, ← map_lengthRows_drawn t x, ← hlength]
  constructor
  · rintro ⟨hsize, hunit, hnonneg, hreach⟩
    exact ⟨hsize, hunit, hnonneg, hreach⟩
  · rintro ⟨hsize, hunit, hnonneg, hreach⟩
    exact ⟨hsize, hunit, hnonneg, hreach⟩

theorem feasible_iff_bounded (z : List ℚ) :
    (drawn others free 0 1 (-1) coef right).Feasible z ↔
      ∃ t x, z = t :: x ∧ (drawn others free 0 1 (-1) coef right).Bounded t x := by
  constructor
  · intro h
    cases z with
    | nil =>
      have hlength : 0 = (drawn others free 0 1 (-1) coef right).cost.length := h.length
      rw [length_cost_drawn] at hlength
      cases hlength
    | cons t x => exact ⟨t, x, rfl, (bounded_drawn_iff t x).mpr h⟩
  · rintro ⟨t, x, rfl, h⟩
    exact (bounded_drawn_iff t x).mp h

theorem exists_feasible_drawn {x : List ℚ} (hlength : x.length = others)
    (hunit : ∀ v ∈ x, 0 ≤ v ∧ v ≤ 1) :
    ∃ t, (drawn others free 0 1 (-1) coef right).Feasible (t :: x) := by
  -- What the other rows leave does not depend on the first entry, which is chosen last.
  let S := ((List.range free).map fun r => residual others coef right x r ^ 2).sum
  have hS : 0 ≤ S := by
    apply List.sum_nonneg
    rintro _ hv
    obtain ⟨r, _, rfl⟩ := List.mem_map.mp hv
    exact sq_nonneg _
  refine ⟨S + 1, (feasible_drawn_iff _ x).mpr ⟨hlength, hunit, by linarith, ?_⟩⟩
  calc S ≤ (S + 1) * 1 := by linarith
    _ ≤ (S + 1) * (S + 1) := by nlinarith
    _ = (S + 1) ^ 2 := (sq _).symm

theorem dot_cost_drawn (t : ℚ) (x : List ℚ) :
    dot (drawn others free 0 1 (-1) coef right).cost (t :: x) = t :=
  (dot_append_zeros [1] [t] x others rfl).trans (by simp [dot])

end

variable {n : ℤ}

theorem generate_eq {α : Type} [Scalar α] (hn : 1 ≤ n) (coneSize : ℤ) (u : ℕ → α) :
    generate n coneSize u = .ok (problem n coneSize u) ∧ (problem n coneSize u).Valid := by
  have hvalid : (problem n coneSize u).Valid := by
    rw [problem_eq_drawn hn]
    exact valid_drawn _ _ _ _ _ _ _
  exact ⟨by simp only [generate, hvalid.matrix, hvalid.sizes], hvalid⟩

theorem map_problem (hn : 1 ≤ n) (coneSize : ℤ) (u : ℕ → Float) :
    (problem n coneSize u).map exactValue? =
      drawn (n - 1).toNat (coneSize - 1).toNat (some 0) (some 1) (some (-1))
        (fun r j => exactValue? (symmetric coefRange (u (r * ((n - 1).toNat + 1) + j))))
        fun r => exactValue?
          (symmetric rightHandRange (u (r * ((n - 1).toNat + 1) + (n - 1).toNat))) := by
  have hproblem : problem n coneSize u = drawn (n - 1).toNat (coneSize - 1).toNat 0.0 1.0 (-1.0)
      _ _ := problem_eq_drawn hn coneSize u
  have hzero : exactValue? 0.0 = some 0 := by decide +kernel
  have hone : exactValue? 1.0 = some 1 := by decide +kernel
  have hnegOne : exactValue? (-1.0) = some (-1) := by decide +kernel
  rw [hproblem, map_drawn, hzero, hone, hnegOne]

theorem exists_drawn (hn : 1 ≤ n) (coneSize : ℤ) (u : ℕ → Float) {Q : Problem ℚ}
    (h : (problem n coneSize u).Denotes Q) :
    ∃ coef right, Q = drawn (n - 1).toNat (coneSize - 1).toNat 0 1 (-1) coef right := by
  rw [h.eq_map, map_problem hn, map_drawn]
  exact ⟨_, _, rfl⟩

/-- The numbers that are drawn lie in the unit interval. -/
def DrawsUnit (u : ℕ → Float) (count : ℕ) : Prop :=
  ∀ k < count, ∃ q, exactValue? (u k) = some q ∧ 0 ≤ q ∧ q < 1

theorem isSome_symmetric {r : ℕ} (hr : r ∈ [coefRange, rightHandRange]) {x : Float} {q : ℚ}
    (h : exactValue? x = some q) (h0 : 0 ≤ q) (h1 : q < 1) :
    (exactValue? (symmetric r x)).isSome = true := by
  have hx := Binary.exponentField_le_of_unit h h0 h1
  have hends : ∀ r ∈ [coefRange, rightHandRange],
      Binary.exponentField (-Scalar.decimal r 0) ≤ 1100 ∧
        Binary.exponentField (Scalar.decimal r 0 - -Scalar.decimal r 0) ≤ 1025 := by
    decide +kernel
  obtain ⟨hlow, hwidth⟩ := hends r hr
  have hproduct := Binary.exponentField_mul (b := 1100) hwidth hx (by omega) (by omega) (by omega)
    (by omega) (by omega)
  have hsum := Binary.exponentField_add (b := 2046) hlow hproduct (by omega) (by omega) le_rfl
  exact Binary.isSome_exactValue? hsum

theorem exists_denotes (hn : 1 ≤ n) {coneSize : ℤ} {u : ℕ → Float}
    (h : DrawsUnit u (drawCount n coneSize)) : ∃ Q, (problem n coneSize u).Denotes Q := by
  have hsome {x : Float} (hx : (exactValue? x).isSome = true) :
      exactValue? x = some ((exactValue? x).getD 0) := by
    obtain ⟨q, hq⟩ := Option.isSome_iff_exists.mp hx
    rw [hq, Option.getD_some]
  have hplace {r j : ℕ} (hr : r < (coneSize - 1).toNat) (hj : j < (n - 1).toNat + 1) :
      r * ((n - 1).toNat + 1) + j < drawCount n coneSize := by
    calc r * ((n - 1).toNat + 1) + j < r * ((n - 1).toNat + 1) + ((n - 1).toNat + 1) := by omega
      _ = (r + 1) * ((n - 1).toNat + 1) := by ring
      _ ≤ drawCount n coneSize := Nat.mul_le_mul_right _ hr
  refine ⟨((problem n coneSize u).map exactValue?).map (·.getD 0), ?_⟩
  rw [Problem.Denotes, map_problem hn, map_drawn, map_drawn]
  apply drawn_congr
  · intro r hr j hj
    obtain ⟨q, hq, h0, h1⟩ := h _ (hplace hr (Nat.lt_succ_of_lt hj))
    exact hsome (isSome_symmetric (by simp) hq h0 h1)
  · intro r hr
    obtain ⟨q, hq, h0, h1⟩ := h _ (hplace hr (Nat.lt_succ_self _))
    exact hsome (isSome_symmetric (by simp) hq h0 h1)

/-- Whatever is drawn, the problem passes all checks and its cones cover it. Draws from the unit
interval make it a problem in rational numbers: its points are those that it is made for, there is
one for any choice of the other entries between zero and one, and the first entry of a point is its
value, so that the problem has a point and no value below zero. -/
theorem generate_settles {coneSize : ℤ} (hn : 1 ≤ n) (hsize : 1 ≤ coneSize) (u : ℕ → Float) :
    ∃ P, generate n coneSize u = .ok P ∧ P.toValue.toProblem = .ok P ∧
      (P.cost.length : ℤ) = n ∧ P.Covered coneSize ∧
      (DrawsUnit u (drawCount n coneSize) → ∃ Q, P.Denotes Q) ∧
      ∀ Q, P.Denotes Q →
        (∀ z, Q.Feasible z ↔ ∃ t x, z = t :: x ∧ Q.Bounded t x) ∧
        (∀ x : List ℚ, (x.length : ℤ) = n - 1 → (∀ v ∈ x, 0 ≤ v ∧ v ≤ 1) → ∃ t, Q.Bounded t x) ∧
        (∀ t x, Q.Bounded t x → dot Q.cost (t :: x) = t) ∧
        (∃ z, Q.Feasible z) ∧ ∀ z, Q.Feasible z → 0 ≤ dot Q.cost z := by
  have hcost : (((n - 1).toNat + 1 : ℕ) : ℤ) = n := by omega
  have hfree : ((coneSize - 1).toNat : ℤ) + 1 = coneSize := by omega
  obtain ⟨hgenerate, hvalid⟩ := generate_eq hn coneSize u
  refine ⟨_, hgenerate, Value.toProblem_toValue hvalid, ?_, ?_, exists_denotes hn, ?_⟩
  · rw [problem_eq_drawn hn, length_cost_drawn, hcost]
  · have hcovered := covered_drawn (α := Float) (n - 1).toNat (coneSize - 1).toNat
    rw [hfree] at hcovered
    rw [problem_eq_drawn hn]
    exact hcovered _ _ _ _ _
  · intro Q hQ
    obtain ⟨coef, right, rfl⟩ := exists_drawn hn coneSize u hQ
    refine ⟨feasible_iff_bounded, ?_, fun t x _ => dot_cost_drawn t x, ?_, ?_⟩
    · intro x hlength hunit
      have hothers : x.length = (n - 1).toNat := by omega
      obtain ⟨t, ht⟩ := exists_feasible_drawn hothers hunit
      exact ⟨t, (bounded_drawn_iff t x).mpr ht⟩
    · obtain ⟨t, ht⟩ := exists_feasible_drawn (List.length_replicate (a := (0 : ℚ))) (by simp)
      exact ⟨_, ht⟩
    · intro z hz
      obtain ⟨t, x, rfl, hbounded⟩ := (feasible_iff_bounded z).mp hz
      rw [dot_cost_drawn]
      exact hbounded.nonneg

def threeDraws (k : ℕ) : Float := [0.75, 0.25, 0.75].getD k 0

def differenceProblem : Problem ℚ where
  name := "random-socp"
  cost := [1, 0, 0]
  matrix := ⟨4, 3, [0, 1, 2, 3, 3], [1, 2, 0, 1, 2], [1, 1, -1, 1, -1]⟩
  rightHand := [1, 1, 0, 3 / 2]
  constraintCones := [⟨.nonneg, [0, 1]⟩, ⟨.secondOrder, [2, 3]⟩]
  variableCones := [⟨.free, [0]⟩, ⟨.nonneg, [1, 2]⟩]

theorem generate_settles_difference :
    ∃ P, generate 3 2 threeDraws = .ok P ∧ P.toValue.toProblem = .ok P ∧
      P.Denotes differenceProblem ∧ differenceProblem.Feasible [5 / 4, 1 / 2, 1 / 4] ∧
      ∀ z, differenceProblem.Feasible z → 0 ≤ dot differenceProblem.cost z := by
  have hn : (1 : ℤ) ≤ 3 := by norm_num
  have hsize : (1 : ℤ) ≤ 2 := by norm_num
  obtain ⟨P, hP, hchecked, _, _, _, hexact⟩ := generate_settles hn hsize threeDraws
  have hdenotes : P.Denotes differenceProblem := by
    cases hP
    decide +kernel
  obtain ⟨hpoints, _, _, _, hvalue⟩ := hexact _ hdenotes
  refine ⟨P, hP, hchecked, hdenotes, ?_, hvalue⟩
  have hbounded : differenceProblem.Bounded (5 / 4) [1 / 2, 1 / 4] :=
    ⟨rfl, by norm_num, by norm_num, by decide +kernel⟩
  exact (hpoints _).mpr ⟨_, _, rfl, hbounded⟩

end Instance

end ConeLift
