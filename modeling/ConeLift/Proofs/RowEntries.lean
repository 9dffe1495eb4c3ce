import ConeLift.Proofs.Finite

namespace ConeLift.RowMatrix

variable {α : Type}

def EntriesFit (A : RowMatrix α) : Prop :=
  ∀ row ∈ A.rows, ∀ e ∈ row, e.1 < A.numCols

instance (A : RowMatrix α) : Decidable A.EntriesFit :=
  inferInstanceAs (Decidable (∀ row ∈ A.rows, ∀ e ∈ row, e.1 < A.numCols))

theorem EntriesFit.getD {A : RowMatrix α} (h : A.EntriesFit) (i : ℕ) :
    ∀ e ∈ A.rows.getD i [], e.1 < A.numCols :=
  getD_of_forall (p := fun row : List (ℕ × α) => ∀ e ∈ row, e.1 < A.numCols) A.rows [] i h
    (by simp)

def SortedBy (R : ℕ → ℕ → Prop) (row : List (ℕ × α)) : Prop := row.Pairwise fun e f => R e.1 f.1

theorem SortedBy.concat {R : ℕ → ℕ → Prop} (hR : ∀ i j, i < j → R i j) {row : List (ℕ × α)}
    (h : SortedBy R row) {c : ℕ} (x : α) (hfit : ∀ e ∈ row, e.1 < c) :
    SortedBy R (row ++ [(c, x)]) := by
  apply List.pairwise_append.mpr
  refine ⟨h, List.pairwise_singleton _ _, ?_⟩
  intro e he f hf
  obtain rfl := List.mem_singleton.mp hf
  exact hR _ _ (hfit e he)

variable [Scalar α]

theorem rowEntry_of_ne {row : List (ℕ × α)} {j : ℕ} (h : ∀ e ∈ row, e.1 ≠ j) :
    rowEntry row j = 0 := by
  have hnone : row.filter (·.1 = j) = [] := by
    rw [List.filter_eq_nil_iff]
    exact fun e he => by simpa using h e he
  rw [rowEntry, hnone]
  rfl

theorem rowEntry_of_le {row : List (ℕ × α)} {m j : ℕ} (h : ∀ e ∈ row, e.1 < m)
    (hj : m ≤ j) : rowEntry row j = 0 :=
  rowEntry_of_ne fun e he => ((h e he).trans_le hj).ne

theorem rowEntry_concat {row : List (ℕ × α)} {c : ℕ} (x : α) (h : ∀ e ∈ row, e.1 < c)
    (j : ℕ) : rowEntry (row ++ [(c, x)]) j = if j = c then Vec.sum [x] else rowEntry row j := by
  split_ifs with hj
  · have hnone : row.filter (·.1 = c) = [] := by
      rw [List.filter_eq_nil_iff]
      intro e he
      simpa using (h e he).ne
    simp [rowEntry, hj, hnone]
  · simp [rowEntry, Ne.symm hj]

theorem rowEntry_cons (e : ℕ × Extended) (row : List (ℕ × Extended)) (j : ℕ) :
    rowEntry (e :: row) j = if e.1 = j then e.2 + rowEntry row j else rowEntry row j := by
  by_cases h : e.1 = j
  · simp [rowEntry, h, Extended.sum_cons]
  · simp [rowEntry, h]

theorem denseRow_cons {n : ℕ} (e : ℕ × Extended) (row : List (ℕ × Extended)) (h : e.1 < n) :
    denseRow n (e :: row) =
      (denseRow n row).set e.1 (e.2 + (denseRow n row).getD e.1 0) := by
  have hentry : (denseRow n row).getD e.1 0 = rowEntry row e.1 := getD_map_range n _ 0 h
  rw [hentry]
  apply List.ext_getElem
  · simp [denseRow]
  · intro j hj _
    by_cases hej : e.1 = j
    · subst hej
      simp [denseRow, rowEntry_cons]
    · simp [denseRow, rowEntry_cons, hej]

end ConeLift.RowMatrix
