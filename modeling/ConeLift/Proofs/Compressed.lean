import ConeLift.Matrix.Compressed
import ConeLift.Proofs.Lists

namespace ConeLift

namespace Compressed

variable {α β γ : Type}

theorem differences_pointersFrom (start : ℕ) (counts : List ℕ) :
    differences (pointersFrom start counts) = counts := by
  induction counts generalizing start with
  | nil => rfl
  | cons n counts ih =>
    obtain ⟨rest, hrest⟩ : ∃ rest, pointersFrom (start + n) counts = (start + n) :: rest := by
      cases counts with
      | nil => exact ⟨[], rfl⟩
      | cons k counts => exact ⟨_, rfl⟩
    have htail := ih (start + n)
    rw [hrest, differences, List.tail_cons] at htail
    rw [pointersFrom, differences, List.tail_cons, hrest, List.zipWith_cons_cons,
      Nat.add_sub_cancel_left, htail]

theorem counts_ofRows (A : RowMatrix α) : (ofRows A).counts = A.rows.map List.length :=
  differences_pointersFrom 0 _

theorem pieces_flatten (rows : List (List β)) :
    pieces (rows.map List.length) rows.flatten = rows := by
  induction rows with
  | nil => rfl
  | cons row rows ih =>
    rw [List.map_cons, List.flatten_cons, pieces, List.take_left' rfl, List.drop_left' rfl, ih]

theorem pieces_map (f : β → γ) (counts : List ℕ) (xs : List β) :
    pieces counts (xs.map f) = (pieces counts xs).map (List.map f) := by
  induction counts generalizing xs with
  | nil => rfl
  | cons n counts ih => rw [pieces, pieces, ← List.map_take, ← List.map_drop, ih, List.map_cons]

theorem pieces_map_flatten (f : β → γ) (rows : List (List β)) :
    pieces (rows.map List.length) (rows.flatten.map f) = rows.map (List.map f) := by
  rw [pieces_map, pieces_flatten]

theorem pieces_ones (n : ℕ) (f : ℕ → β) :
    pieces (List.replicate n 1) ((List.range n).map f) = (List.range n).map fun k => [f k] := by
  have hcounts : List.replicate n 1 = ((List.range n).map fun k => [f k]).map List.length := by
    simp [Function.comp_def]
  have hflatten : (List.range n).map f = ((List.range n).map fun k => [f k]).flatten := by
    rw [← List.flatMap_def, List.map_eq_flatMap]
  rw [hcounts, hflatten, pieces_flatten]

theorem toRows_ofRows (A : RowMatrix α) : (ofRows A).toRows = A := by
  have hzip : (ofRows A).columns.zip (ofRows A).values = A.rows.flatten := by
    simp only [ofRows, List.zip_map', Prod.mk.eta, List.map_id']
  rw [toRows, counts_ofRows, hzip, pieces_flatten]
  rfl

theorem ofRows_widen (A : RowMatrix α) (extra : ℕ) :
    (ofRows A).widen extra = ofRows (A.widen extra) := rfl

theorem pointersFrom_add (offset start : ℕ) (counts : List ℕ) :
    pointersFrom (offset + start) counts = (pointersFrom start counts).map (offset + ·) := by
  induction counts generalizing start with
  | nil => rfl
  | cons n counts ih => rw [pointersFrom, pointersFrom, List.map_cons, Nat.add_assoc, ih]

theorem pointersFrom_append (start : ℕ) (counts more : List ℕ) :
    pointersFrom start (counts ++ more) =
      pointersFrom start counts ++ (pointersFrom (start + counts.sum) more).tail := by
  induction counts generalizing start with
  | nil => cases more <;> rfl
  | cons n counts ih =>
    rw [List.cons_append, pointersFrom, ih, pointersFrom, List.cons_append, List.sum_cons,
      Nat.add_assoc]

theorem pointersFrom_ones (start n : ℕ) :
    pointersFrom start (List.replicate n 1) = List.range' start (n + 1) := by
  induction n generalizing start with
  | zero => rfl
  | succ n ih => rw [List.replicate_succ, pointersFrom, ih, ← List.range'_succ]

theorem ofRows_above (A B : RowMatrix α) : (ofRows A).above (ofRows B) = ofRows (A.above B) := by
  have hstored : (ofRows A).values.length = 0 + (A.rows.map List.length).sum := by
    rw [ofRows, List.length_map, List.length_flatten, Nat.zero_add]
  have hpointers : (ofRows B).pointers.tail.map ((ofRows A).values.length + ·) =
      (pointersFrom (0 + (A.rows.map List.length).sum) (B.rows.map List.length)).tail := by
    rw [hstored, List.map_tail, ofRows, ← pointersFrom_add, Nat.add_zero]
  simp only [above, hpointers, RowMatrix.above]
  simp only [ofRows, List.map_append, List.flatten_append, pointersFrom_append]

section

variable [Scalar α]

theorem counts_identity (n : ℕ) : (identity n : Compressed α).counts = List.replicate n 1 := by
  rw [counts, identity, List.range_eq_range', ← pointersFrom_ones, differences_pointersFrom]

theorem ofRows_beside_identity (A : RowMatrix α) :
    (ofRows A).beside (identity A.numRows) = ofRows A.besideIdentity := by
  have hcounts : List.zipWith (· + ·) (A.rows.map List.length) (List.replicate A.numRows 1) =
      A.besideIdentity.rows.map List.length := by
    apply List.ext_getElem
    · simp [RowMatrix.besideIdentity, RowMatrix.numRows]
    · intro i hi _
      simp [RowMatrix.besideIdentity]
  have hbeside {δ : Type} (f : ℕ × α → δ) (g : ℕ → δ) (hg : ∀ k, f (A.numCols + k, 1) = g k) :
      List.zipWith (· ++ ·) (A.rows.map (List.map f)) ((List.range A.numRows).map fun k => [g k]) =
        A.besideIdentity.rows.map (List.map f) := by
    apply List.ext_getElem
    · simp [RowMatrix.besideIdentity, RowMatrix.numRows]
    · intro i hi _
      simp [RowMatrix.besideIdentity, hg]
  have hones : List.replicate A.numRows (1 : α) = (List.range A.numRows).map fun _ => 1 := by
    simp
  rw [beside, counts_ofRows, counts_identity]
  simp only [identity, hones, hcounts, pieces_ones, ofRows, pieces_map_flatten]
  rw [hbeside (·.1) (A.numCols + ·) fun _ => rfl, hbeside (·.2) (fun _ => 1) fun _ => rfl,
    List.map_flatten, List.map_flatten]
  rfl

def scaleRow (row : List (ℕ × α)) (factor : α) : List (ℕ × α) :=
  row.map fun e => (e.1, e.2 * factor)

theorem zip_replicate (row : List (ℕ × α)) (factor : α) :
    (row.map (·.1)).zip
        (List.zipWith (· * ·) (row.map (·.2)) (List.replicate row.length factor)) =
      scaleRow row factor := by
  induction row with
  | nil => rfl
  | cons e row ih =>
    rw [List.length_cons, List.replicate_succ, List.map_cons, List.map_cons,
      List.zipWith_cons_cons, List.zip_cons_cons, ih]
    rfl

theorem zip_repeated {rows : List (List (ℕ × α))} {factors : List α}
    (h : rows.length = factors.length) :
    (rows.flatten.map (·.1)).zip (List.zipWith (· * ·) (rows.flatten.map (·.2))
        (repeated factors (rows.map List.length))) =
      (List.zipWith scaleRow rows factors).flatten := by
  induction rows generalizing factors with
  | nil => rfl
  | cons row rows ih =>
    cases factors with
    | nil => cases h
    | cons factor factors =>
      have hrepeated : repeated (factor :: factors) ((row :: rows).map List.length) =
          List.replicate row.length factor ++ repeated factors (rows.map List.length) := rfl
      rw [hrepeated, List.flatten_cons, List.map_append, List.map_append,
        List.zipWith_append (by simp), List.zip_append (by simp), zip_replicate,
        ih (Nat.succ.inj h), List.zipWith_cons_cons, List.flatten_cons]

theorem length_scaled {rows : List (List (ℕ × α))} {factors : List α}
    (h : rows.length = factors.length) :
    (List.zipWith scaleRow rows factors).map List.length = rows.map List.length := by
  induction rows generalizing factors with
  | nil => rfl
  | cons row rows ih =>
    cases factors with
    | nil => cases h
    | cons factor factors =>
      rw [List.zipWith_cons_cons, List.map_cons, List.map_cons, ih (Nat.succ.inj h), scaleRow,
        List.length_map]

theorem toRows_scaleRows (A : RowMatrix α) (factors : List α)
    (h : A.rows.length = factors.length) :
    ((ofRows A).scaleRows factors).toRows =
      ⟨A.numCols, List.zipWith scaleRow A.rows factors⟩ := by
  have hcounts : ((ofRows A).scaleRows factors).counts = A.rows.map List.length :=
    counts_ofRows A
  rw [toRows, hcounts, scaleRows, counts_ofRows]
  simp only [ofRows]
  rw [zip_repeated h, ← length_scaled h, pieces_flatten]

end

end Compressed

end ConeLift
