import ConeLift.Answer.Basic
import ConeLift.Proofs.Documents
import ConeLift.Proofs.Lift.Outcome

/-!
Lifted problems as they are shown. A bound that is left out is an infinity, which one depends on
its side alone, so that a lifted problem can be read back from what is shown of it. A number that
is not finite is shown only as a cost, or as the sum of what is listed for one place of the matrix.
-/

namespace ConeLift

section

variable {α : Type} [Scalar α]

def LiftedView.restore (v : LiftedView α) : Except Error (Lifted α) := do
  let A ← v.matrix.toRows
  return {
    cost := v.cost
    columns := ⟨v.lower.map (·.getD (-Scalar.infinity)), v.upper.map (·.getD Scalar.infinity)⟩
    matrix := A
    rows := ⟨v.rowLower.map (·.getD (-Scalar.infinity)), v.rowUpper.map (·.getD Scalar.infinity)⟩
    numOrig := v.numOrig
    numAux := v.numAux
    numLinear := v.numLinear
    quadratics := v.quadratics }

def FiniteOr (unbounded : α) (xs : List α) : Prop :=
  ∀ x ∈ xs, Scalar.isFinite x = true ∨ x = unbounded

theorem map_getD_finite? {unbounded : α} {xs : List α} (h : FiniteOr unbounded xs) :
    (xs.map finite?).map (·.getD unbounded) = xs := by
  rw [List.map_map]
  conv_rhs => rw [← List.map_id xs]
  apply List.map_congr_left
  intro x hx
  simp only [Function.comp_apply, finite?]
  split_ifs with hfinite
  · rfl
  · exact ((h x hx).resolve_left hfinite).symm

theorem finiteOr_append {unbounded : α} {xs ys : List α} :
    FiniteOr unbounded (xs ++ ys) ↔ FiniteOr unbounded xs ∧ FiniteOr unbounded ys :=
  List.forall_mem_append

structure Lifted.Legible (p : Lifted α) : Prop where
  lower : FiniteOr (-Scalar.infinity) p.columns.lower
  upper : FiniteOr Scalar.infinity p.columns.upper
  rowLower : FiniteOr (-Scalar.infinity) p.rows.lower
  rowUpper : FiniteOr Scalar.infinity p.rows.upper
  matrix : p.matrix.Ordered

theorem Lifted.restore_view {p : Lifted α} (h : p.Legible) : p.view.restore = .ok p := by
  simp only [LiftedView.restore, Lifted.view, Triplets.toRows_ofRows h.matrix, bind, Except.bind,
    pure, Except.pure, map_getD_finite? h.lower, map_getD_finite? h.upper,
    map_getD_finite? h.rowLower, map_getD_finite? h.rowUpper]

structure Scalar.FiniteUnits (α : Type) [Scalar α] : Prop where
  zero : isFinite (0 : α) = true
  one : isFinite (1 : α) = true
  negOne : isFinite (-1 : α) = true

theorem Scalar.finiteUnits_float : FiniteUnits Float := ⟨by decide, by decide, by decide⟩

omit [Scalar α] in
theorem Triplets.forall_vals_ofRows_iff (A : RowMatrix α) (p : α → Prop) :
    (∀ x ∈ (ofRows A).vals, p x) ↔ ∀ row ∈ A.rows, ∀ e ∈ row, p e.2 := by
  simp only [ofRows, List.forall_mem_map, List.forall_mem_flatMap]
  have hzip : A.rows = (A.rows.zip (List.range A.numRows)).map Prod.fst := by
    rw [List.map_fst_zip (by simp [RowMatrix.numRows])]
  conv_rhs => rw [hzip, List.forall_mem_map]

namespace Numbers

theorem forall_rows_lift_iff (n : Numbers α) (constraintCones variableCones : List Cone)
    (p : List (ℕ × α) → Prop) :
    (∀ row ∈ (n.lift constraintCones variableCones).matrix.rows, p row) ↔
      (∀ r ∈ (Partition.ofCones constraintCones).linear, p (n.matrix.rows.getD r.1 [])) ∧
        ∀ r ∈ (Partition.ofCones constraintCones).secondOrder.zip
            (List.range (Partition.ofCones constraintCones).numAux),
          p (n.matrix.rows.getD r.1 [] ++ [(n.matrix.numCols + r.2, 1)]) := by
  have hrows : (n.lift constraintCones variableCones).matrix.rows =
      linearRows n.matrix (Partition.ofCones constraintCones) ++
        auxiliaryRows n.matrix (Partition.ofCones constraintCones) := rfl
  rw [hrows, List.forall_mem_append, linearRows, List.forall_mem_map, auxiliaryRows,
    List.forall_mem_map]

theorem ordered_lift {n : Numbers α} (h : n.matrix.Ordered)
    (constraintCones variableCones : List Cone) :
    (n.lift constraintCones variableCones).matrix.Ordered := by
  have hincreasing (i : ℕ) : RowMatrix.Increasing (n.matrix.rows.getD i []) :=
    getD_of_forall n.matrix.rows [] i h.increasing .nil
  have hfit := h.fit.getD
  constructor
  · rw [forall_rows_lift_iff]
    refine ⟨fun r _ => hincreasing r.1, ?_⟩
    intro r _
    apply RowMatrix.SortedBy.concat (fun _ _ => id) (hincreasing r.1)
    exact fun e he => Nat.lt_add_right r.2 (hfit r.1 e he)
  · rw [RowMatrix.EntriesFit, forall_rows_lift_iff]
    constructor
    · intro r _ e he
      exact Nat.lt_add_right _ (hfit r.1 e he)
    · intro r hr e he
      rcases List.mem_append.mp he with he | he
      · exact Nat.lt_add_right _ (hfit r.1 e he)
      · obtain rfl := List.mem_singleton.mp he
        exact Nat.add_lt_add_left (List.mem_range.mp (List.of_mem_zip hr).2) _

theorem forall_vals_lift_iff (n : Numbers α) (constraintCones variableCones : List Cone)
    {p : α → Prop} (hone : p 1) :
    (∀ x ∈ (Triplets.ofRows (n.lift constraintCones variableCones).matrix).vals, p x) ↔
      ∀ k ∈ constraintCones, ∀ i ∈ k.indices, ∀ e ∈ n.matrix.rows.getD i [], p e.2 := by
  have hzip : (Partition.ofCones constraintCones).secondOrder =
      ((Partition.ofCones constraintCones).secondOrder.zip
        (List.range (Partition.ofCones constraintCones).numAux)).map Prod.fst := by
    rw [List.map_fst_zip (by simp [Partition.numAux])]
  rw [Triplets.forall_vals_ofRows_iff, forall_rows_lift_iff, ← forall_parts_iff]
  apply and_congr_right
  intro _
  conv_rhs => rw [hzip, List.forall_mem_map]
  simp only [List.forall_mem_append, List.forall_mem_singleton, hone, and_true]

theorem legible_lift (hunits : Scalar.FiniteUnits α) {n : Numbers α}
    (hmatrix : n.matrix.Ordered) (hright : ∀ x ∈ n.rightHand, Scalar.isFinite x = true)
    (constraintCones variableCones : List Cone) :
    (n.lift constraintCones variableCones).Legible := by
  have hentry (i : ℕ) : Scalar.isFinite (n.rightHand.getD i 0) = true :=
    getD_of_forall (p := fun x => Scalar.isFinite x = true) _ _ i hright hunits.zero
  have hfixed (unbounded : α) : FiniteOr unbounded
      ((Partition.ofCones constraintCones).secondOrder.map (n.rightHand.getD · 0)) := by
    intro x hx
    obtain ⟨i, _, rfl⟩ := List.mem_map.mp hx
    exact .inl (hentry i)
  -- A row is bounded by a number of the right-hand side or, on a side that its cone leaves open,
  -- not at all.
  have hlinear (unbounded : α) (bounds : Kind → Bool) : FiniteOr unbounded
      ((Partition.ofCones constraintCones).linear.map fun r =>
        if bounds r.2 then n.rightHand.getD r.1 0 else unbounded) := by
    intro x hx
    obtain ⟨r, _, rfl⟩ := List.mem_map.mp hx
    split_ifs
    · exact .inl (hentry r.1)
    · exact .inr rfl
  constructor
  · intro x hx
    obtain ⟨j, _, rfl⟩ := List.mem_map.mp hx
    have hside := (columnBounds_sides (α := α) variableCones constraintCones n.cost.length j).1
    rcases List.mem_pair.mp hside with hx | hx
    · exact .inr hx
    · exact .inl (hx ▸ hunits.zero)
  · intro x hx
    obtain ⟨j, _, rfl⟩ := List.mem_map.mp hx
    have hside := (columnBounds_sides (α := α) variableCones constraintCones n.cost.length j).2
    rcases List.mem_pair.mp hside with hx | hx
    · exact .inl (hx ▸ hunits.zero)
    · exact .inr hx
  · exact finiteOr_append.mpr ⟨hlinear _ Kind.boundsBelow, hfixed _⟩
  · exact finiteOr_append.mpr ⟨hlinear _ Kind.boundsAbove, hfixed _⟩
  · exact ordered_lift hmatrix _ _

end Numbers

end

namespace Value

open Checked

inductive AllFinite : Value → Prop
  | null : AllFinite .null
  | bool (b : Bool) : AllFinite (.bool b)
  | int (i : ℤ) : AllFinite (.int i)
  | real (x : Float) (h : Scalar.isFinite x = true) : AllFinite (.real x)
  | text (s : String) : AllFinite (.text s)
  | list (xs : List Value) (h : ∀ v ∈ xs, AllFinite v) : AllFinite (.list xs)
  | record (fields : List (String × Value)) (h : ∀ f ∈ fields, AllFinite f.2) :
      AllFinite (.record fields)

theorem allFinite_real_iff (x : Float) : (real x).AllFinite ↔ Scalar.isFinite x = true := by
  constructor
  · rintro ⟨⟩
    assumption
  · exact .real x

theorem allFinite_list_iff (xs : List Value) :
    (Value.list xs).AllFinite ↔ ∀ v ∈ xs, v.AllFinite := by
  constructor
  · rintro ⟨⟩
    assumption
  · exact .list xs

theorem allFinite_record_iff (fields : List (String × Value)) :
    (record fields).AllFinite ↔ ∀ f ∈ fields, f.2.AllFinite := by
  constructor
  · rintro ⟨⟩
    assumption
  · exact .record fields

theorem allFinite_ofReals_iff (xs : List Float) :
    (ofReals xs).AllFinite ↔ ∀ x ∈ xs, Scalar.isFinite x = true := by
  simp only [ofReals, allFinite_list_iff, List.forall_mem_map, allFinite_real_iff]

theorem allFinite_ofInts (is : List ℤ) : (ofInts is).AllFinite :=
  (allFinite_list_iff _).mpr (List.forall_mem_map.mpr fun i _ => .int i)

theorem allFinite_ofOptionalReals (xs : List Float) :
    (ofOptionalReals (xs.map finite?)).AllFinite := by
  rw [ofOptionalReals, allFinite_list_iff, List.forall_mem_map, List.forall_mem_map]
  intro x _
  cases hx : finite? x with
  | none => exact .null
  | some y =>
    obtain ⟨hfinite, rfl⟩ := (finite?_eq_some_iff x y).mp hx
    exact .real x hfinite

theorem allFinite_triplets_iff (T : Triplets Float) :
    T.toValue.AllFinite ↔ ∀ x ∈ T.vals, Scalar.isFinite x = true := by
  simp only [Triplets.toValue, allFinite_record_iff, List.forall_mem_cons, allFinite_list_iff,
    allFinite_ofReals_iff, allFinite_ofInts, AllFinite.int, List.not_mem_nil, false_implies,
    implies_true, and_true, true_and]

theorem allFinite_ofColumns (columns : List ℕ) :
    (QuadraticRow.ofColumns columns : QuadraticRow Float).toValue.AllFinite := by
  have hunits := Scalar.finiteUnits_float
  simp only [QuadraticRow.toValue, QuadraticRow.leftFields, QuadraticRow.ofColumns,
    QuadraticRow.ofCone, allFinite_record_iff, List.forall_mem_append, List.forall_mem_cons,
    allFinite_ofReals_iff, allFinite_ofInts, allFinite_real_iff, AllFinite.text, hunits.zero,
    hunits.negOne, List.mem_replicate, List.not_mem_nil, false_implies, implies_true, and_true,
    true_and]
  rintro _ ⟨_, rfl⟩
  exact hunits.one

theorem allFinite_view_iff (p : Lifted Float) :
    p.view.toValue.AllFinite ↔ (ofReals p.cost).AllFinite ∧
      (Triplets.ofRows p.matrix).toValue.AllFinite ∧
      ∀ q ∈ p.quadratics, q.toValue.AllFinite := by
  simp only [LiftedView.toValue, Lifted.view, allFinite_record_iff, List.forall_mem_cons,
    allFinite_ofOptionalReals, allFinite_list_iff, List.forall_mem_map, AllFinite.text,
    AllFinite.int, List.not_mem_nil, false_implies, implies_true, and_true, true_and]

theorem allFinite_cost_lift_iff (n : Numbers Float) (constraintCones variableCones : List Cone) :
    (ofReals (n.lift constraintCones variableCones).cost).AllFinite ↔
      ∀ x ∈ n.cost, Scalar.isFinite x = true := by
  rw [allFinite_ofReals_iff, Numbers.lift, List.forall_mem_append]
  apply and_iff_left
  intro x hx
  rw [(List.mem_replicate.mp hx).2]
  exact Scalar.finiteUnits_float.zero

theorem allFinite_matrix_lift_iff (n : Numbers Float) (constraintCones variableCones : List Cone) :
    (Triplets.ofRows (n.lift constraintCones variableCones).matrix).toValue.AllFinite ↔
      ∀ k ∈ constraintCones, ∀ i ∈ k.indices, ∀ e ∈ n.matrix.rows.getD i [],
        Scalar.isFinite e.2 = true := by
  rw [allFinite_triplets_iff]
  exact n.forall_vals_lift_iff _ _ (p := fun x => Scalar.isFinite x = true)
    Scalar.finiteUnits_float.one

theorem allFinite_quadratics_lift (n : Numbers Float) (constraintCones variableCones : List Cone) :
    ∀ q ∈ (n.lift constraintCones variableCones).quadratics, q.toValue.AllFinite := by
  intro q hq
  obtain ⟨columns, _, rfl⟩ := List.mem_map.mp hq
  exact allFinite_ofColumns columns

theorem allFinite_view_lift_iff (n : Numbers Float) (constraintCones variableCones : List Cone) :
    (n.lift constraintCones variableCones).view.toValue.AllFinite ↔
      (∀ x ∈ n.cost, Scalar.isFinite x = true) ∧
        ∀ k ∈ constraintCones, ∀ i ∈ k.indices, ∀ e ∈ n.matrix.rows.getD i [],
          Scalar.isFinite e.2 = true := by
  rw [allFinite_view_iff, allFinite_cost_lift_iff, allFinite_matrix_lift_iff]
  exact and_congr_right' (and_iff_left (allFinite_quadratics_lift n _ _))

def toBound : Value → Checked (Option Float)
  | .null => .ok none
  | v => v.toReal.map some

def toSense : Value → Checked Sense
  | .text s =>
    match Sense.ofText? s with
    | some d => .ok d
    | none => fail .notListed
  | _ => fail .notListed

def toRelation : Value → Checked Unit
  | .text s => if s = QuadraticRow.relation then .ok () else fail .notListed
  | _ => fail .notListed

def quadraticOfFields (fields : List (String × Value)) : Checked (QuadraticRow Float) :=
  (both (required fields "linear_idx" (toList toInt)) <|
    both (required fields "linear_coef" (toList toReal)) <|
      both (required fields "quad_row_idx" (toList toInt)) <|
        both (required fields "quad_col_idx" (toList toInt)) <|
          both (required fields "quad_coef" (toList toReal)) <|
            both (required fields "sense" toRelation) (required fields "rhs" toReal)).map
    fun (linearIndex, linearCoef, rowIndex, colIndex, coef, _, bound) =>
      { linearIndex, linearCoef, rowIndex, colIndex, coef, bound }

def toQuadratic (v : Value) : Checked (QuadraticRow Float) := do quadraticOfFields (← v.toRecord)

def viewOfFields (fields : List (String × Value)) : Checked (LiftedView Float) :=
  (both (required fields "sense" toSense) <|
    both (required fields "c" (toList toReal)) <|
      both (required fields "l" (toList toBound)) <|
        both (required fields "u" (toList toBound)) <|
          both (required fields "A" toTriplets) <|
            both (required fields "lb" (toList toBound)) <|
              both (required fields "ub" (toList toBound)) <|
                both (required fields "num_orig" toNat) <|
                  both (required fields "num_aux" toNat) <|
                    both (required fields "num_linear" toNat) <|
                      required fields "quad_constraints" (toList toQuadratic)).map
    fun (sense, cost, lower, upper, matrix, rowLower, rowUpper, numOrig, numAux, numLinear,
        quadratics) =>
      { sense, cost, lower, upper, matrix, rowLower, rowUpper, numOrig, numAux, numLinear,
        quadratics }

def toView (v : Value) : Checked (LiftedView Float) := do viewOfFields (← v.toRecord)

def toLifted (v : Value) : Except Error (Lifted Float) := do
  let view ← orInvalid (do required (← v.toRecord) "problem" toView)
  view.restore

theorem toBound_ofOption (x : Option Float) : (ofOption real x).toBound = .ok x := by
  cases x <;> rfl

theorem toList_ofReals (xs : List Float) : (ofReals xs).toList toReal = .ok xs :=
  toList_map fun _ _ => rfl

theorem toList_ofInts (is : List ℤ) : (ofInts is).toList toInt = .ok is :=
  toList_map fun _ _ => rfl

theorem toList_ofOptionalReals (xs : List (Option Float)) :
    (ofOptionalReals xs).toList toBound = .ok xs :=
  toList_map fun x _ => toBound_ofOption x

theorem toNat_ofNat (n : ℕ) : (Value.int n).toNat = .ok n := (toNat_eq_ok_iff _ n).mpr rfl

theorem toSense_text (d : Sense) : (Value.text d.text).toSense = .ok d := by
  cases d <;> rfl

theorem toQuadratic_toValue (q : QuadraticRow Float) : q.toValue.toQuadratic = .ok q := by
  have hread : quadraticOfFields (q.leftFields ++
      [("sense", .text QuadraticRow.relation), ("rhs", .real q.bound)]) = .ok q := by
    rw [quadraticOfFields, map_eq_ok_iff]
    refine ⟨(q.linearIndex, q.linearCoef, q.rowIndex, q.colIndex, q.coef, (), q.bound), ?_, rfl⟩
    simp only [both_eq_ok_iff, required_eq_ok_iff]
    exact ⟨⟨_, rfl, toList_ofInts _⟩, ⟨_, rfl, toList_ofReals _⟩, ⟨_, rfl, toList_ofInts _⟩,
      ⟨_, rfl, toList_ofInts _⟩, ⟨_, rfl, toList_ofReals _⟩, ⟨_, rfl, rfl⟩, ⟨_, rfl, rfl⟩⟩
  exact hread

theorem toView_toValue {v : LiftedView Float} (h : v.matrix.inconsistency? = none) :
    v.toValue.toView = .ok v := by
  have hquadratics : (Value.list (v.quadratics.map QuadraticRow.toValue)).toList toQuadratic =
      .ok v.quadratics := toList_map fun q _ => toQuadratic_toValue q
  apply map_eq_ok_iff.mpr
  refine ⟨(v.sense, v.cost, v.lower, v.upper, v.matrix, v.rowLower, v.rowUpper, v.numOrig,
    v.numAux, v.numLinear, v.quadratics), ?_, rfl⟩
  simp only [both_eq_ok_iff, required_eq_ok_iff]
  exact ⟨⟨_, rfl, toSense_text _⟩, ⟨_, rfl, toList_ofReals _⟩, ⟨_, rfl, toList_ofOptionalReals _⟩,
    ⟨_, rfl, toList_ofOptionalReals _⟩, ⟨_, rfl, toTriplets_toValue h⟩,
    ⟨_, rfl, toList_ofOptionalReals _⟩, ⟨_, rfl, toList_ofOptionalReals _⟩, ⟨_, rfl, toNat_ofNat _⟩,
    ⟨_, rfl, toNat_ofNat _⟩, ⟨_, rfl, toNat_ofNat _⟩, ⟨_, rfl, hquadratics⟩⟩

theorem toLifted_view {p : Lifted Float} (h : p.Legible) :
    (record [("problem", p.view.toValue)]).toLifted = .ok p := by
  have hconsistent : p.view.matrix.inconsistency? = none :=
    Triplets.consistent_ofRows h.matrix.fit
  have hview : required [("problem", p.view.toValue)] "problem" toView = .ok p.view :=
    (required_eq_ok_iff _ _ _ _).mpr ⟨_, rfl, toView_toValue hconsistent⟩
  simp only [toLifted, toRecord, hview, bind, Except.bind, orInvalid, Lifted.restore_view h]

end Value

namespace Problem

section

variable {α : Type} [Scalar α]

theorem build_of_fit {P : Problem α} (h : P.Valid)
    (hfit : ConesFit P.rightHand.length P.cost.length P.constraintCones P.variableCones) :
    P.toData.bind Lifted.build = .ok (P.summed.lift P.constraintCones P.variableCones) := by
  rw [toData_of_valid h]
  apply (Lifted.build_eq_ok_iff _ _).mpr
  exact ⟨hfit.supported, _, P.readNumbers_summedData, liftable_summed h hfit.rows hfit.columns, rfl⟩

end

structure Regular (P : Problem Float) : Prop where
  valid : P.Valid
  cones : ConesFit P.rightHand.length P.cost.length P.constraintCones P.variableCones
  cost : ∀ x ∈ P.cost, Scalar.isFinite x = true
  vals : ∀ x ∈ P.matrix.vals, Scalar.isFinite x = true
  rightHand : ∀ x ∈ P.rightHand, Scalar.isFinite x = true

def SumsFinite (P : Problem Float) : Prop :=
  ∀ k ∈ P.constraintCones, ∀ i ∈ k.indices, ∀ e ∈ P.matrix.row i, Scalar.isFinite e.2 = true

theorem sums_finite_iff {P : Problem Float} (h : P.Valid)
    (hrows : ∀ k ∈ P.constraintCones, ∀ i ∈ k.indices, i < P.rightHand.length) :
    (∀ k ∈ P.constraintCones, ∀ i ∈ k.indices, ∀ e ∈ P.summed.matrix.rows.getD i [],
      Scalar.isFinite e.2 = true) ↔ P.SumsFinite := by
  apply forall₂_congr
  intro k hk
  apply forall₂_congr
  intro i hi
  have hrow : i < P.matrix.numRows.toNat := by
    have hlt := hrows k hk i hi
    have hright := (sizes_of_valid h).2
    omega
  rw [summed, Triplets.getD_rows_summed hrow]

def reformulation (P : Problem Float) : Except Error Value :=
  P.reformulate.map (Answer.toValue "problem" LiftedView.toValue)

theorem reformulation_of_build {P : Problem Float} {p : Lifted Float}
    (h : P.toData.bind Lifted.build = .ok p) :
    P.reformulation = .ok (.record [("problem", p.view.toValue)]) := by
  rw [reformulation, reformulate, h]
  rfl

theorem reformulation_of_regular {P : Problem Float} (h : P.Regular) :
    ∃ p v, P.toData.bind Lifted.build = .ok p ∧ P.reformulation = .ok v ∧ v.toLifted = .ok p ∧
      (v.AllFinite ↔ P.SumsFinite) := by
  have hbuild := build_of_fit h.valid h.cones
  have hordered := Triplets.ordered_summed (readable_of_valid h.valid)
  have hlegible := P.summed.legible_lift Scalar.finiteUnits_float hordered h.rightHand
    P.constraintCones P.variableCones
  refine ⟨_, _, hbuild, reformulation_of_build hbuild, Value.toLifted_view hlegible, ?_⟩
  rw [Value.allFinite_record_iff, List.forall_mem_singleton, Value.allFinite_view_lift_iff]
  exact (and_iff_right h.cost).trans (sums_finite_iff h.valid h.cones.rows)

/-- Every built problem is read back from the document that shows it, infinite bounds and stored
zeros included, so that what is shown in the same way is the same. The numbers shown are finite, or
left out, exactly if no sum of numbers at one place overflows. -/
theorem reformulation_reads_back {P : Problem Float} (h : P.Regular) :
    ∃ p v, P.toData.bind Lifted.build = .ok p ∧ P.reformulation = .ok v ∧ v.toLifted = .ok p ∧
      (∀ P' : Problem Float, P'.Regular → P'.reformulation = .ok v →
        P'.toData.bind Lifted.build = .ok p) ∧
      (v.AllFinite ↔ P.SumsFinite) := by
  obtain ⟨p, v, hbuild, hshown, hback, hfinite⟩ := reformulation_of_regular h
  refine ⟨p, v, hbuild, hshown, hback, ?_, hfinite⟩
  intro P' h' hsame
  obtain ⟨p', v', hbuild', hshown', hback', _⟩ := reformulation_of_regular h'
  rw [hshown', Except.ok.injEq] at hsame
  rw [hsame, hback, Except.ok.injEq] at hback'
  rw [hbuild', hback']

def twofold : Problem Float where
  name := "problem"
  cost := [1.0, 0.5]
  matrix := ⟨2, 2, [1, 0, 0], [0, 1, 1], [0.0, 2.5, 1.5]⟩
  rightHand := [3.0, 4.0]
  constraintCones := [⟨.nonneg, [0]⟩, ⟨.secondOrder, [1]⟩]
  variableCones := [⟨.nonneg, [0]⟩]

def twofoldReordered : Problem Float :=
  { twofold with matrix := ⟨2, 2, [0, 1, 0], [1, 0, 1], [2.5, 0.0, 1.5]⟩ }

theorem reformulation_reads_back_twofold :
    ∃ p v, twofold.reformulation = .ok v ∧ v.toLifted = .ok p ∧ v.AllFinite ∧
      twofoldReordered.toData.bind Lifted.build = .ok p := by
  have hregular : twofold.Regular :=
    ⟨⟨by decide, by decide⟩, ⟨by decide, by decide, by decide⟩, by decide, by decide, by decide⟩
  have hreordered : twofoldReordered.Regular :=
    ⟨⟨by decide, by decide⟩, ⟨by decide, by decide, by decide⟩, by decide, by decide, by decide⟩
  have hsums : twofold.SumsFinite := by
    unfold SumsFinite
    decide
  have hrows : twofoldReordered.matrix.toRows = twofold.matrix.toRows := by
    simp [twofoldReordered, twofold, Triplets.toRows, Triplets.inconsistency?, Triplets.row,
      Triplets.entries, Triplets.insert, List.range_succ]
  have hsame : twofoldReordered.reformulation = twofold.reformulation := by
    simp only [reformulation, reformulate, toData, hrows]
    rfl
  obtain ⟨p, v, _, hv, hback, hunique, hfinite⟩ := reformulation_reads_back hregular
  exact ⟨p, v, hv, hback, hfinite.mpr hsums,
    hunique twofoldReordered hreordered (hsame.trans hv)⟩

def overflowing : Problem Float where
  name := "problem"
  cost := [1.0]
  matrix := ⟨1, 1, [0, 0], [0, 0],
    [Float.ofBits 0x7FE1CCF385EBC8A0, Float.ofBits 0x7FE1CCF385EBC8A0]⟩
  rightHand := [1.0]
  constraintCones := [⟨.nonneg, [0]⟩]
  variableCones := []

theorem reformulation_of_overflowing :
    overflowing.Regular ∧ overflowing.matrix.row 0 = [(0, Scalar.infinity)] ∧
      ∃ v, overflowing.reformulation = .ok v ∧ ¬v.AllFinite := by
  have hregular : overflowing.Regular :=
    ⟨⟨by decide, by decide⟩, ⟨by decide, by decide, by decide⟩, by decide, by decide, by decide⟩
  have hrow : overflowing.matrix.row 0 = [(0, Scalar.infinity)] := by rfl
  have hsums : ¬overflowing.SumsFinite := by
    unfold SumsFinite
    decide
  obtain ⟨_, v, _, hv, _, hfinite⟩ := reformulation_of_regular hregular
  exact ⟨hregular, hrow, v, hv, fun h => hsums (hfinite.mp h)⟩

theorem eq_view_of_found {P : Problem Float} (h : P.Valid) {w : LiftedView Float}
    (hfound : P.reformulate = .ok (.found w)) :
    P.summed.Liftable P.constraintCones P.variableCones ∧
      w = (P.summed.lift P.constraintCones P.variableCones).view := by
  rw [reformulate] at hfound
  cases hbuild : P.toData.bind Lifted.build with
  | error e =>
    rw [hbuild] at hfound
    simp only at hfound
    split_ifs at hfound
    cases hfound
  | ok p =>
    rw [hbuild] at hfound
    cases hfound
    rw [toData_of_valid h] at hbuild
    obtain ⟨_, n, hn, hliftable, rfl⟩ := (Lifted.build_eq_ok_iff _ _).mp hbuild
    rw [readNumbers_summedData, Except.ok.injEq] at hn
    exact ⟨hn ▸ hliftable, hn ▸ rfl⟩

/-- Whatever is not finite in a checked problem, the bounds and the quadratic rows of its answer
show finite numbers only, and so its right-hand side does not matter. Costs, and the sums of what is
listed for one place of the matrix, are shown as they are. -/
theorem allFinite_found_iff {P : Problem Float} (h : P.Valid) {w : LiftedView Float}
    (hfound : P.reformulate = .ok (.found w)) :
    (∀ bounds ∈ [w.lower, w.upper, w.rowLower, w.rowUpper],
        (Value.ofOptionalReals bounds).AllFinite) ∧
      (∀ q ∈ w.quadratics, q.toValue.AllFinite) ∧
      ((Value.ofReals w.cost).AllFinite ↔ ∀ x ∈ P.cost, Scalar.isFinite x = true) ∧
      (w.matrix.toValue.AllFinite ↔ P.SumsFinite) ∧
      ((Answer.toValue "problem" LiftedView.toValue (.found w)).AllFinite ↔
        (∀ x ∈ P.cost, Scalar.isFinite x = true) ∧ P.SumsFinite) := by
  obtain ⟨hliftable, rfl⟩ := eq_view_of_found h hfound
  have hsums := sums_finite_iff h hliftable.constraint
  have hcost := Value.allFinite_cost_lift_iff P.summed P.constraintCones P.variableCones
  have hmatrix := Value.allFinite_matrix_lift_iff P.summed P.constraintCones P.variableCones
  have hquadratics := Value.allFinite_quadratics_lift P.summed P.constraintCones P.variableCones
  refine ⟨?_, hquadratics, hcost, hmatrix.trans hsums, ?_⟩
  · simp only [Lifted.view, List.forall_mem_cons, Value.allFinite_ofOptionalReals,
      List.not_mem_nil, false_implies, implies_true, and_true]
  · rw [Answer.toValue, Value.allFinite_record_iff, List.forall_mem_singleton,
      Value.allFinite_view_lift_iff, hsums]
    rfl

def openEnded (cost : Float) : Problem Float where
  name := "problem"
  cost := [cost]
  matrix := ⟨1, 1, [0], [0], [1.0]⟩
  rightHand := [Scalar.infinity]
  constraintCones := [⟨.nonneg, [0]⟩]
  variableCones := []

theorem valid_openEnded (cost : Float) : (openEnded cost).Valid := ⟨rfl, rfl⟩

theorem exists_found_openEnded (cost : Float) :
    ∃ w, (openEnded cost).reformulate = .ok (.found w) ∧ w.cost = [cost] := by
  have hcones : ConesFit 1 1 [⟨.nonneg, [0]⟩] [] := ⟨by decide, by decide, by decide⟩
  have hbuild := build_of_fit (valid_openEnded cost) hcones
  exact ⟨_, by rw [reformulate, hbuild], rfl⟩

theorem allFinite_found_openEnded :
    ∃ w, (openEnded 1.0).reformulate = .ok (.found w) ∧
      (Answer.toValue "problem" LiftedView.toValue (.found w)).AllFinite := by
  obtain ⟨w, hfound, _⟩ := exists_found_openEnded 1.0
  have hsums : (openEnded 1.0).SumsFinite := by
    unfold SumsFinite
    decide
  have hfinite := (allFinite_found_iff (valid_openEnded 1.0) hfound).2.2.2.2
  exact ⟨w, hfound, hfinite.mpr ⟨by decide, hsums⟩⟩

theorem not_allFinite_infiniteCost :
    (openEnded Scalar.infinity).Valid ∧
      ∃ w, (openEnded Scalar.infinity).reformulate = .ok (.found w) ∧
        ¬(Answer.toValue "problem" LiftedView.toValue (.found w)).AllFinite := by
  obtain ⟨w, hfound, hcost⟩ := exists_found_openEnded Scalar.infinity
  refine ⟨valid_openEnded _, w, hfound, ?_⟩
  rw [Answer.toValue, Value.allFinite_record_iff, List.forall_mem_singleton, LiftedView.toValue,
    Value.allFinite_record_iff]
  intro hfinite
  have hshown := hfinite ("c", .ofReals w.cost) (by simp)
  rw [hcost, Value.allFinite_ofReals_iff, List.forall_mem_singleton] at hshown
  exact absurd hshown (by decide)

end Problem

end ConeLift
