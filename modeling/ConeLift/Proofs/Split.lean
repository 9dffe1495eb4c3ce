import ConeLift.Model.Split
import ConeLift.Proofs.Compressed
import ConeLift.Proofs.Extremes
import ConeLift.Proofs.Lift.Columns
import ConeLift.Proofs.Negation
import ConeLift.Proofs.Points

namespace ConeLift

theorem Vec.positions_map_range (m : ℕ) (p : ℕ → Bool) :
    Vec.positions ((List.range m).map p) = (List.range m).filter p := by
  have hlength : ((List.range m).map p).length = m := by simp
  rw [Vec.positions, hlength]
  apply List.filter_congr
  intro i hi
  have him : i < m := List.mem_range.mp hi
  cases h : p i <;> simp [him, h]

theorem Vec.gather_map_range {β : Type} (m : ℕ) (g : ℕ → β) (is : List ℕ)
    (h : ∀ i ∈ is, i < m) : Vec.gather ((List.range m).map g) (indices is) = .ok (is.map g) := by
  have hgather := Vec.gather_ofNat ((List.range m).map g) (g 0) is (by simpa using h)
  rw [indices, hgather]
  congr 1
  apply List.map_congr_left
  intro i hi
  exact getD_map_range m g (g 0) (h i hi)

section

variable {α : Type} [Scalar α]

namespace Bounds

def pair (B : Bounds α) (i : ℕ) : α × α := (B.lower.getD i 0, B.upper.getD i 0)

theorem pair_tabulate {m : ℕ} (f : ℕ → α × α) {j : ℕ} (hj : j < m) :
    (tabulate m f).pair j = f j := by
  rw [pair, tabulate]
  simp only [getD_map_range m _ _ hj]

theorem eq_tabulate (B : Bounds α) {m : ℕ} (hlower : B.lower.length = m)
    (hupper : B.upper.length = m) : B = tabulate m B.pair := by
  have hl := eq_map_range B.lower 0
  have hu := eq_map_range B.upper 0
  rw [hlower] at hl
  rw [hupper] at hu
  simp only [tabulate, pair, ← hl, ← hu]

end Bounds

namespace RowClasses

def ofPairs (m : ℕ) (b : ℕ → α × α) : RowClasses where
  equal := (List.range m).filter fun i => isEqual (b i).1 (b i).2
  above := (List.range m).filter fun i => Scalar.isFinite (b i).2 && !isEqual (b i).1 (b i).2
  below := (List.range m).filter fun i => Scalar.isFinite (b i).1 && !isEqual (b i).1 (b i).2

theorem ofBounds_tabulate (m : ℕ) (b : ℕ → α × α) :
    ofBounds (Bounds.tabulate m b) = .ok (ofPairs m b) := by
  have hzip (f : α → α → Bool) : Vec.zip f ((List.range m).map fun j => (b j).1)
      ((List.range m).map fun j => (b j).2) =
        .ok ((List.range m).map fun j => f (b j).1 (b j).2) := by
    rw [Vec.zip_of_length_eq _ (by simp), List.zipWith_map, List.zipWith_self]
  have hflag (g : ℕ → α) : Vec.zip (fun x e => Scalar.isFinite x && !e) ((List.range m).map g)
      ((List.range m).map fun j => isEqual (b j).1 (b j).2) =
        .ok ((List.range m).map fun j => Scalar.isFinite (g j) && !isEqual (b j).1 (b j).2) := by
    rw [Vec.zip_of_length_eq _ (by simp), List.zipWith_map, List.zipWith_self]
  simp only [ofBounds, Bounds.tabulate, hzip, hflag, bind, Except.bind, pure, Except.pure,
    Vec.positions_map_range, ofPairs]

theorem lt_of_mem (m : ℕ) (b : ℕ → α × α) :
    (∀ i ∈ (ofPairs m b).equal, i < m) ∧ (∀ i ∈ (ofPairs m b).above, i < m) ∧
      ∀ i ∈ (ofPairs m b).below, i < m := by
  have hfilter (p : ℕ → Bool) : ∀ i ∈ (List.range m).filter p, i < m := by
    intro i hi
    exact List.mem_range.mp (List.mem_of_mem_filter hi)
  exact ⟨hfilter _, hfilter _, hfilter _⟩

end RowClasses

namespace SplitRows

theorem rightHand_tabulate (m : ℕ) (b : ℕ → α × α) :
    rightHand (Bounds.tabulate m b) (RowClasses.ofPairs m b) =
      .ok ((RowClasses.ofPairs m b).above.map (fun i => (b i).2) ++
        (RowClasses.ofPairs m b).below.map fun i => -(b i).1) := by
  obtain ⟨_, habove, hbelow⟩ := RowClasses.lt_of_mem m b
  have hhi := Vec.gather_map_range m (fun j => (b j).2) _ habove
  have hlo := Vec.gather_map_range m (fun j => (b j).1) _ hbelow
  simp only [rightHand, Bounds.tabulate, hhi, hlo, bind, Except.bind, pure, Except.pure,
    List.map_map]
  rfl

def ofClasses (k : RowClasses) (row : ℕ → List α) (b : ℕ → α × α) :
    SplitRows (List (List α)) α where
  matrix := k.above.map row ++ k.below.map fun i => (row i).map fun x => -x
  bound := k.above.map (fun i => (b i).2) ++ k.below.map fun i => -(b i).1
  equations := k.equal.map row
  values := k.equal.map fun i => (b i).1

theorem dense_tabulate (m : ℕ) (row : ℕ → List α) (b : ℕ → α × α) :
    dense ((List.range m).map row) (Bounds.tabulate m b) =
      .ok (ofClasses (RowClasses.ofPairs m b) row b) := by
  obtain ⟨hequal, habove, hbelow⟩ := RowClasses.lt_of_mem m b
  have hgatherAbove := Vec.gather_map_range m row _ habove
  have hgatherBelow := Vec.gather_map_range m row _ hbelow
  have hgatherEqual := Vec.gather_map_range m row _ hequal
  have hvalues : Vec.gather (Bounds.tabulate m b).lower
      (indices (RowClasses.ofPairs m b).equal) = _ :=
    Vec.gather_map_range m (fun j => (b j).1) _ hequal
  simp only [dense, RowClasses.ofBounds_tabulate, hgatherAbove, hgatherBelow, hgatherEqual,
    hvalues, rightHand_tabulate, bind, Except.bind, pure, Except.pure, List.map_map]
  rfl

end SplitRows

end

namespace SplitRows

theorem scaleRow_one (row : List (ℕ × Extended)) : Compressed.scaleRow row 1 = row := by
  simp only [Compressed.scaleRow, Extended.mul_one, List.map_id']

theorem scaleRow_neg_one (row : List (ℕ × Extended)) :
    Compressed.scaleRow row (-1) = RowMatrix.negRow row := by
  simp only [Compressed.scaleRow, Extended.mul_neg_one, RowMatrix.negRow]

theorem scale_signs (k : RowClasses) (row : ℕ → List (ℕ × Extended)) :
    List.zipWith Compressed.scaleRow ((k.above ++ k.below).map row) (signs k) =
      k.above.map row ++ k.below.map fun i => RowMatrix.negRow (row i) := by
  have hconst (is : List ℕ) (factor : Extended) :
      List.zipWith Compressed.scaleRow (is.map row) (List.replicate is.length factor) =
        is.map fun i => Compressed.scaleRow (row i) factor := by
    rw [← List.map_const', List.zipWith_map, List.zipWith_self]
  rw [signs, List.map_append, List.zipWith_append (by simp), hconst, hconst]
  simp only [scaleRow_one, scaleRow_neg_one]

theorem sparse_tabulate (A : RowMatrix Extended) (b : ℕ → Extended × Extended) :
    sparse A (Bounds.tabulate A.numRows b) = .ok
      { matrix := ⟨A.numCols, (RowClasses.ofPairs A.numRows b).above.map (A.rows.getD · []) ++
          (RowClasses.ofPairs A.numRows b).below.map fun i => RowMatrix.negRow (A.rows.getD i [])⟩
        bound := (RowClasses.ofPairs A.numRows b).above.map (fun i => (b i).2) ++
          (RowClasses.ofPairs A.numRows b).below.map fun i => -(b i).1
        equations := ⟨A.numCols, (RowClasses.ofPairs A.numRows b).equal.map (A.rows.getD · [])⟩
        values := (RowClasses.ofPairs A.numRows b).equal.map fun i => (b i).1 } := by
  obtain ⟨hequal, habove, hbelow⟩ := RowClasses.lt_of_mem A.numRows b
  have hpicked := RowMatrix.select_ofNat A _ (List.forall_mem_append.mpr ⟨habove, hbelow⟩)
  have hselectEqual := RowMatrix.select_ofNat A _ hequal
  have hvalues : Vec.gather (Bounds.tabulate A.numRows b).lower
      (indices (RowClasses.ofPairs A.numRows b).equal) = _ :=
    Vec.gather_map_range A.numRows (fun j => (b j).1) _ hequal
  have hscaled := Compressed.toRows_scaleRows
    ⟨A.numCols, ((RowClasses.ofPairs A.numRows b).above ++
      (RowClasses.ofPairs A.numRows b).below).map (A.rows.getD · [])⟩
    (signs (RowClasses.ofPairs A.numRows b)) (by simp [signs])
  rw [scale_signs] at hscaled
  rw [indices] at hvalues
  simp only [sparse, RowClasses.ofBounds_tabulate, indices, hpicked, hselectEqual, hvalues,
    rightHand_tabulate, bind, Except.bind, pure, Except.pure, hscaled]

end SplitRows

namespace RowClasses

theorem isFinite_iff (x : Extended) : Scalar.isFinite x = true ↔ ∃ q, x = .finite q := by
  cases x <;> simp [Scalar.isFinite, Extended.isFinite]

theorem isEqual_iff (b : Extended × Extended) :
    isEqual b.1 b.2 = true ↔ ∃ q, b = (.finite q, .finite q) := by
  simp only [isEqual, Bool.and_eq_true, isFinite_iff]
  constructor
  · rintro ⟨⟨⟨p, hp⟩, ⟨q, hq⟩⟩, heq⟩
    rw [hp, hq, Extended.eq_finite_iff] at heq
    exact ⟨p, Prod.ext hp (by rw [hq, heq])⟩
  · rintro ⟨q, rfl⟩
    exact ⟨⟨⟨q, rfl⟩, q, rfl⟩, (Extended.eq_finite_iff q q).mpr rfl⟩

end RowClasses

def Regular (b : Extended × Extended) : Prop :=
  b.1 ≠ .undefined ∧ b.1 ≠ .infinity ∧ b.2 ≠ .undefined ∧ b.2 ≠ .negInfinity

structure Bounds.Defined (B : Bounds Extended) : Prop where
  lower : ∀ l ∈ B.lower, l ≠ .undefined
  upper : ∀ u ∈ B.upper, u ≠ .undefined

theorem Bounds.defined_of_regular {B : Bounds Extended} {m : ℕ} (hlower : B.lower.length = m)
    (hupper : B.upper.length = m) (h : ∀ i < m, Regular (B.pair i)) : B.Defined := by
  constructor
  · intro l hl
    obtain ⟨i, hi, rfl⟩ := List.mem_iff_getElem.mp hl
    rw [← List.getD_eq_getElem B.lower 0 hi]
    exact (h i (hlower ▸ hi)).1
  · intro u hu
    obtain ⟨i, hi, rfl⟩ := List.mem_iff_getElem.mp hu
    rw [← List.getD_eq_getElem B.upper 0 hi]
    exact (h i (hupper ▸ hi)).2.2.1

structure Bounds.Proper (B : Bounds Extended) : Prop extends B.Defined where
  lower_lt : .infinity ∉ B.lower
  upper_gt : .negInfinity ∉ B.upper

theorem Bounds.Proper.regular {B : Bounds Extended} (h : B.Proper) (i : ℕ) :
    Regular (B.pair i) := by
  have hlower : (B.pair i).1 ≠ .undefined ∧ (B.pair i).1 ≠ .infinity := by
    apply getD_of_forall (p := fun l => l ≠ .undefined ∧ l ≠ .infinity) B.lower
    · intro l hl
      exact ⟨h.lower l hl, fun hinfinity => h.lower_lt (hinfinity ▸ hl)⟩
    · simp
  have hupper : (B.pair i).2 ≠ .undefined ∧ (B.pair i).2 ≠ .negInfinity := by
    apply getD_of_forall (p := fun u => u ≠ .undefined ∧ u ≠ .negInfinity) B.upper
    · intro u hu
      exact ⟨h.upper u hu, fun hinfinity => h.upper_gt (hinfinity ▸ hu)⟩
    · simp
  exact ⟨hlower.1, hlower.2, hupper⟩

@[mk_iff] structure MeetsFinite (b : Extended × Extended) (v : Extended) : Prop where
  lower : ∀ l : ℚ, b.1 = .finite l → Scalar.le (.finite l) v = true
  upper : ∀ u : ℚ, b.2 = .finite u → Scalar.le v (.finite u) = true

def OutOfReach (b : Extended × Extended) (v : Extended) : Prop :=
  (b.1 = .infinity ∧ v ≠ .infinity) ∨ (b.2 = .negInfinity ∧ v ≠ .negInfinity)

theorem within_iff_meetsFinite {b : Extended × Extended} {v : Extended} (hlower : b.1 ≠ .undefined)
    (hupper : b.2 ≠ .undefined) (hv : v ≠ .undefined) :
    Within b v ↔ MeetsFinite b v ∧ ¬OutOfReach b v := by
  have hbelow : Scalar.le b.1 v = true ↔
      (∀ l : ℚ, b.1 = .finite l → Scalar.le (.finite l) v = true) ∧
        (b.1 = .infinity → v = .infinity) := by
    cases hb : b.1 with
    | undefined => exact absurd hb hlower
    | _ => simp [hv]
  have habove : Scalar.le v b.2 = true ↔
      (∀ u : ℚ, b.2 = .finite u → Scalar.le v (.finite u) = true) ∧
        (b.2 = .negInfinity → v = .negInfinity) := by
    cases hb : b.2 with
    | undefined => exact absurd hb hupper
    | _ => simp [hv]
  rw [Within, hbelow, habove, meetsFinite_iff, OutOfReach, not_or, not_and_not_right,
    not_and_not_right, and_and_and_comm]

theorem Regular.within_iff {b : Extended × Extended} (hb : Regular b) (v : ℚ) :
    Within b (.finite v) ↔ MeetsFinite b (.finite v) := by
  obtain ⟨hlower, hlower', hupper, hupper'⟩ := hb
  rw [within_iff_meetsFinite hlower hupper (Extended.finite_ne_undefined v)]
  simp [OutOfReach, hlower', hupper']

theorem isFinite_finite (q : ℚ) : Scalar.isFinite (Extended.finite q) = true := rfl

theorem meetsFinite_iff_classes (b : Extended × Extended) (v : Extended) :
    MeetsFinite b v ↔
      (RowClasses.isEqual b.1 b.2 = true → Scalar.eq v b.1 = true) ∧
      ((Scalar.isFinite b.2 && !RowClasses.isEqual b.1 b.2) = true →
        Scalar.le v b.2 = true) ∧
      ((Scalar.isFinite b.1 && !RowClasses.isEqual b.1 b.2) = true →
        Scalar.le (-v) (-b.1) = true) := by
  have hfinite {x : Extended} {P : Extended → Prop} :
      (Scalar.isFinite x = true → P x) ↔ ∀ q : ℚ, x = .finite q → P (.finite q) := by
    rw [RowClasses.isFinite_iff]
    constructor
    · rintro h q rfl
      exact h ⟨q, rfl⟩
    · rintro h ⟨q, rfl⟩
      exact h q rfl
  rw [meetsFinite_iff, Extended.neg_le_neg_iff]
  by_cases hequal : RowClasses.isEqual b.1 b.2 = true
  · obtain ⟨q, rfl⟩ := (RowClasses.isEqual_iff b).mp hequal
    simp [hequal, Extended.eq_iff_le, and_comm]
  · rw [Bool.not_eq_true] at hequal
    simp only [hequal, Bool.false_eq_true, false_imp_iff, true_and, Bool.not_false, Bool.and_true]
    rw [hfinite (P := fun u => Scalar.le v u = true), hfinite (P := fun l => Scalar.le l v = true),
      and_comm]

theorem classes_hold_iff (m : ℕ) (b : ℕ → Extended × Extended) (v : ℕ → Extended) :
    (∀ i ∈ (RowClasses.ofPairs m b).equal, Scalar.eq (v i) (b i).1 = true) ∧
      (∀ i ∈ (RowClasses.ofPairs m b).above, Scalar.le (v i) (b i).2 = true) ∧
      (∀ i ∈ (RowClasses.ofPairs m b).below, Scalar.le (-(v i)) (-(b i).1) = true) ↔
    ∀ i < m, MeetsFinite (b i) (v i) := by
  simp only [RowClasses.ofPairs, List.mem_filter, List.mem_range, and_imp]
  constructor
  · rintro ⟨hequal, habove, hbelow⟩ i hi
    rw [meetsFinite_iff_classes]
    exact ⟨hequal i hi, habove i hi, hbelow i hi⟩
  · intro h
    have hclasses := fun i hi => (meetsFinite_iff_classes (b i) (v i)).mp (h i hi)
    exact ⟨fun i hi => (hclasses i hi).1, fun i hi => (hclasses i hi).2.1,
      fun i hi => (hclasses i hi).2.2⟩

theorem classes_hold_iff_rows_hold (A : RowMatrix ℚ) (b : ℕ → Extended × Extended) (x : List ℚ)
    (hb : ∀ i < A.numRows, Regular (b i)) :
    ((∀ i ∈ (RowClasses.ofPairs A.numRows b).equal,
        Scalar.eq (.finite (rowValue (A.rows.getD i []) x)) (b i).1 = true) ∧
      (∀ i ∈ (RowClasses.ofPairs A.numRows b).above,
        Scalar.le (.finite (rowValue (A.rows.getD i []) x)) (b i).2 = true) ∧
      ∀ i ∈ (RowClasses.ofPairs A.numRows b).below,
        Scalar.le (-(.finite (rowValue (A.rows.getD i []) x))) (-(b i).1) = true) ↔
      (Bounds.tabulate A.numRows b).Hold (A.finite.mulVec (finites x)) := by
  have hcoord (i : ℕ) : coord (A.apply x) i = rowValue (A.rows.getD i []) x :=
    List.getD_map A.rows [] (rowValue · x)
  have hlength : (A.apply x).length = A.numRows := by simp [RowMatrix.apply, RowMatrix.numRows]
  rw [mulVec_finite, Bounds.hold_tabulate,
    classes_hold_iff A.numRows b fun i => .finite (rowValue (A.rows.getD i []) x)]
  simp only [hlength, true_and, hcoord]
  exact forall₂_congr fun i hi => ((hb i hi).within_iff _).symm

end ConeLift
