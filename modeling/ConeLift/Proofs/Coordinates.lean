import Mathlib.Data.List.Sort
import ConeLift.Proofs.Reading
import ConeLift.Proofs.RowProducts

namespace ConeLift

section

variable {α : Type}

theorem flatMap_range_ite (n i : ℕ) (f : ℕ → List α) :
    ((List.range n).flatMap fun k => if k = i then f k else []) = if i < n then f i else [] := by
  induction n with
  | zero => rfl
  | succ n ih =>
    rw [List.range_succ, List.flatMap_append, ih, List.flatMap_singleton]
    rcases Nat.lt_trichotomy i n with hi | rfl | hi
    · rw [if_pos hi, if_neg hi.ne', if_pos (Nat.lt_succ_of_lt hi), List.append_nil]
    · simp
    · rw [if_neg hi.not_gt, if_neg hi.ne, if_neg (Nat.not_lt.mpr hi), List.append_nil]

namespace RowMatrix

def Increasing (row : List (ℕ × α)) : Prop := row.Pairwise fun e f => e.1 < f.1

structure Ordered (A : RowMatrix α) : Prop where
  increasing : ∀ row ∈ A.rows, Increasing row
  fit : A.EntriesFit

def listing (A : RowMatrix α) : List (ℕ × ℕ × α) :=
  (List.range A.numRows).flatMap fun i => (A.rows.getD i []).map fun e => (i, e)

theorem mem_listing (A : RowMatrix α) (e : ℕ × ℕ × α) :
    e ∈ A.listing ↔ e.1 < A.numRows ∧ e.2 ∈ A.rows.getD e.1 [] := by
  simp only [listing, List.mem_flatMap, List.mem_range, List.mem_map]
  constructor
  · rintro ⟨i, hi, f, hf, rfl⟩
    exact ⟨hi, hf⟩
  · rintro ⟨hi, he⟩
    exact ⟨e.1, hi, e.2, he, rfl⟩

theorem listing_eq_zip (A : RowMatrix α) :
    A.listing = (A.rows.zip (List.range A.numRows)).flatMap fun p => p.1.map fun e => (p.2, e) := by
  have hzip : A.rows.zip (List.range A.numRows) =
      (List.range A.numRows).map fun i => (A.rows.getD i [], i) := by
    apply List.ext_getElem
    · simp [numRows]
    · intro i hi _
      have hrow : i < A.rows.length := by simpa [numRows] using hi
      simp [hrow]
  rw [hzip, List.flatMap_map, listing]

theorem filter_listing (A : RowMatrix α) (i : ℕ) :
    (A.listing.filter fun e => e.1 = i).map Prod.snd = A.rows.getD i [] := by
  have hrow (k : ℕ) : (((A.rows.getD k []).map fun e => (k, e)).filter fun e => e.1 = i).map
      Prod.snd = if k = i then A.rows.getD k [] else [] := by
    by_cases hk : k = i
    · simp [hk, List.filter_map, Function.comp_def]
    · simp [hk, List.filter_map, Function.comp_def]
  simp only [listing, List.filter_flatMap, List.map_flatMap, hrow, flatMap_range_ite]
  split_ifs with hi
  · rfl
  · exact (List.getD_eq_default _ _ (not_lt.mp hi)).symm

end RowMatrix

namespace Triplets

def places (T : Triplets α) : List (ℤ × ℤ) := T.rows.zip T.cols

def Precedes (p q : ℤ × ℤ) : Prop := p.1 < q.1 ∨ p.1 = q.1 ∧ p.2 < q.2

instance (p q : ℤ × ℤ) : Decidable (Precedes p q) :=
  inferInstanceAs (Decidable (p.1 < q.1 ∨ p.1 = q.1 ∧ p.2 < q.2))

def Ascending (T : Triplets α) : Prop := T.places.Pairwise Precedes

instance (T : Triplets α) : Decidable T.Ascending :=
  inferInstanceAs (Decidable (T.places.Pairwise Precedes))

def valuesAt (T : Triplets α) (p : ℤ × ℤ) : List α :=
  (T.entries.filter fun e => (e.1, e.2.1) = p).map fun e => e.2.2

theorem inconsistency?_eq_none_iff (T : Triplets α) :
    T.inconsistency? = none ↔
      (T.rows.length = T.cols.length ∧ T.cols.length = T.vals.length) ∧
        (∀ r ∈ T.rows, 0 ≤ r ∧ r < T.numRows) ∧ ∀ j ∈ T.cols, 0 ≤ j ∧ j < T.numCols := by
  rw [inconsistency?]
  by_cases hlength : T.rows.length = T.cols.length ∧ T.cols.length = T.vals.length
  · simp [hlength, not_or]
  · simp [hlength]

theorem ofRows_eq_listing (A : RowMatrix α) :
    ofRows A = ⟨A.numRows, A.numCols, A.listing.map fun e => (e.1 : ℤ),
      A.listing.map fun e => (e.2.1 : ℤ), A.listing.map fun e => e.2.2⟩ := by
  rw [ofRows, A.listing_eq_zip]

theorem entries_ofRows (A : RowMatrix α) :
    (ofRows A).entries = A.listing.map fun e => ((e.1 : ℤ), (e.2.1 : ℤ), e.2.2) := by
  simp only [entries, ofRows_eq_listing, List.zip_map']

theorem entriesOf_ofRows (A : RowMatrix α) (i : ℕ) :
    (ofRows A).entriesOf i = A.rows.getD i [] := by
  rw [← A.filter_listing, entriesOf, entries_ofRows, List.filter_map, List.map_map]
  simp only [Function.comp_def, Int.toNat_natCast, Nat.cast_inj]

theorem consistent_ofRows {A : RowMatrix α} (h : A.EntriesFit) :
    (ofRows A).inconsistency? = none := by
  rw [inconsistency?_eq_none_iff, ofRows_eq_listing]
  simp only [List.length_map, List.forall_mem_map, and_self, true_and]
  constructor
  · intro e he
    have hrow := ((A.mem_listing e).mp he).1
    omega
  · intro e he
    have hcol := h.getD e.1 e.2 ((A.mem_listing e).mp he).2
    omega

theorem readable_ofRows {A : RowMatrix α} (h : A.EntriesFit) : (ofRows A).Readable :=
  ⟨consistent_ofRows h, Int.natCast_nonneg _, Int.natCast_nonneg _⟩

section

variable [Scalar α]

theorem mem_columns_insert (row : List (ℕ × α)) (e : ℕ × α) (j : ℕ) :
    j ∈ (insert row e).map Prod.fst ↔ j = e.1 ∨ j ∈ row.map Prod.fst := by
  induction row with
  | nil => simp [insert]
  | cons f row ih =>
    rw [insert]
    split_ifs with hlt heq
    · rw [List.map_cons, List.mem_cons]
    · simp [heq]
    · rw [List.map_cons, List.mem_cons, ih, List.map_cons, List.mem_cons]
      exact or_left_comm

theorem increasing_insert {row : List (ℕ × α)} (h : RowMatrix.Increasing row) (e : ℕ × α) :
    RowMatrix.Increasing (insert row e) := by
  induction row with
  | nil => exact List.pairwise_singleton _ _
  | cons f row ih =>
    obtain ⟨hhead, htail⟩ := List.pairwise_cons.mp h
    rw [insert]
    split_ifs with hlt heq
    · refine List.pairwise_cons.mpr ⟨?_, h⟩
      intro g hg
      rcases List.mem_cons.mp hg with rfl | hg
      · exact hlt
      · exact hlt.trans (hhead g hg)
    · exact List.pairwise_cons.mpr ⟨hhead, htail⟩
    · refine List.pairwise_cons.mpr ⟨?_, ih htail⟩
      intro g hg
      -- What stands behind the head has the column of `e` or one that stood there before.
      have hcol : g.1 ∈ (insert row e).map Prod.fst := List.mem_map_of_mem hg
      rcases (mem_columns_insert row e g.1).mp hcol with hge | hgrow
      · omega
      · obtain ⟨g', hg', hgg⟩ := List.mem_map.mp hgrow
        rw [← hgg]
        exact hhead g' hg'

theorem insert_of_lt {row : List (ℕ × α)} {e : ℕ × α} (h : ∀ f ∈ row, f.1 < e.1) :
    insert row e = row ++ [e] := by
  induction row with
  | nil => rfl
  | cons f row ih =>
    obtain ⟨hhead, htail⟩ := List.forall_mem_cons.mp h
    rw [insert, if_neg hhead.not_gt, if_neg hhead.ne', ih htail, List.cons_append]

theorem increasing_foldl_insert (es : List (ℕ × α)) {row : List (ℕ × α)}
    (h : RowMatrix.Increasing row) : RowMatrix.Increasing (es.foldl insert row) := by
  induction es generalizing row with
  | nil => exact h
  | cons e es ih => exact ih (increasing_insert h e)

theorem mem_columns_foldl_insert (es row : List (ℕ × α)) (j : ℕ) :
    j ∈ (es.foldl insert row).map Prod.fst ↔ j ∈ es.map Prod.fst ∨ j ∈ row.map Prod.fst := by
  induction es generalizing row with
  | nil => simp
  | cons e es ih =>
    rw [List.foldl_cons, ih, mem_columns_insert, List.map_cons, List.mem_cons]
    exact or_left_comm.trans or_assoc.symm

theorem foldl_insert_of_increasing {row es : List (ℕ × α)}
    (h : RowMatrix.Increasing (row ++ es)) : es.foldl insert row = row ++ es := by
  induction es generalizing row with
  | nil => exact (List.append_nil row).symm
  | cons e es ih =>
    have hlast : ∀ f ∈ row, f.1 < e.1 := fun f hf =>
      (List.pairwise_append.mp h).2.2 f hf e List.mem_cons_self
    -- The next entry lies behind all of `row`, so it is put at the end.
    have hsplit : row ++ e :: es = row ++ [e] ++ es := by simp
    rw [hsplit] at h ⊢
    rw [List.foldl_cons, insert_of_lt hlast, ih h]

theorem increasing_row (T : Triplets α) (i : ℕ) : RowMatrix.Increasing (T.row i) :=
  increasing_foldl_insert _ List.Pairwise.nil

theorem mem_columns_row (T : Triplets α) (i j : ℕ) :
    j ∈ (T.row i).map Prod.fst ↔ j ∈ (T.entriesOf i).map Prod.fst := by
  apply (mem_columns_foldl_insert (T.entriesOf i) [] j).trans
  simp

theorem row_of_increasing {T : Triplets α} {i : ℕ} (h : RowMatrix.Increasing (T.entriesOf i)) :
    T.row i = T.entriesOf i := by
  have hnil : RowMatrix.Increasing ([] ++ T.entriesOf i) := h
  exact foldl_insert_of_increasing hnil

theorem getD_rows_summed {T : Triplets α} {i : ℕ} (h : i < T.numRows.toNat) :
    T.summed.rows.getD i [] = T.row i := getD_map_range _ _ _ h

theorem ordered_summed {T : Triplets α} (h : T.Readable) : T.summed.Ordered := by
  constructor
  · intro row hrow
    obtain ⟨i, _, rfl⟩ := List.mem_map.mp hrow
    exact T.increasing_row i
  · intro row hrow e he
    obtain ⟨i, _, rfl⟩ := List.mem_map.mp hrow
    have hcol : e.1 ∈ (T.entriesOf i).map Prod.fst :=
      (T.mem_columns_row i e.1).mp (List.mem_map_of_mem he)
    obtain ⟨f, hf, hfe⟩ := List.mem_map.mp hcol
    obtain ⟨g, hg, rfl⟩ := List.mem_map.mp hf
    have hbounds := bounds_of_consistent h.consistent g (List.mem_of_mem_filter hg)
    simp only [summed]
    omega

theorem toRows_ofRows {A : RowMatrix α} (h : A.Ordered) : (ofRows A).toRows = .ok A := by
  have hrow : (ofRows A).row = (A.rows.getD · []) := by
    funext i
    rw [← entriesOf_ofRows]
    apply row_of_increasing
    rw [entriesOf_ofRows]
    exact getD_of_forall A.rows [] i h.increasing .nil
  rw [toRows_of_readable (readable_ofRows h.fit), summed, hrow]
  exact congrArg (fun rows => Except.ok (RowMatrix.mk A.numCols rows))
    (eq_map_range A.rows []).symm

def roundTrip (T : Triplets α) : Except Error (Triplets α) := T.toRows.map ofRows

theorem roundTrip_of_readable {T : Triplets α} (h : T.Readable) :
    T.roundTrip = .ok (ofRows T.summed) := by
  rw [roundTrip, toRows_of_readable h]
  rfl

end

theorem places_eq_map {T : Triplets α} (h : T.inconsistency? = none) :
    T.places = T.entries.map fun e => (e.1, e.2.1) := by
  obtain ⟨⟨hcols, hvals⟩, _⟩ := T.inconsistency?_eq_none_iff.mp h
  have hzip : (T.cols.zip T.vals).map Prod.fst = T.cols := List.map_fst_zip hvals.le
  rw [places, ← hzip, List.zip_map_right]
  rfl

theorem mem_entriesOf_iff {T : Triplets α} (h : T.inconsistency? = none) (i : ℕ) (e : ℕ × α) :
    e ∈ T.entriesOf i ↔ ((i : ℤ), (e.1 : ℤ), e.2) ∈ T.entries := by
  simp only [entriesOf, List.mem_map, List.mem_filter, decide_eq_true_eq]
  constructor
  · rintro ⟨f, ⟨hf, hfi⟩, rfl⟩
    have hcol : (f.2.1.toNat : ℤ) = f.2.1 := Int.toNat_of_nonneg (bounds_of_consistent h f hf).1
    rw [hcol, ← hfi]
    exact hf
  · intro he
    exact ⟨_, ⟨he, rfl⟩, rfl⟩

theorem places_ofRows (A : RowMatrix α) :
    (ofRows A).places = A.listing.map fun e => ((e.1 : ℤ), (e.2.1 : ℤ)) := by
  simp only [places, ofRows_eq_listing, List.zip_map']

theorem ascending_ofRows {A : RowMatrix α} (h : ∀ row ∈ A.rows, RowMatrix.Increasing row) :
    (ofRows A).Ascending := by
  rw [Ascending, places_ofRows, List.pairwise_map, RowMatrix.listing, List.pairwise_flatMap]
  constructor
  · intro i _
    have hrow : RowMatrix.Increasing (A.rows.getD i []) := getD_of_forall A.rows [] i h .nil
    rw [List.pairwise_map]
    exact hrow.imp fun hef => .inr ⟨rfl, Int.ofNat_lt.mpr hef⟩
  · refine List.pairwise_lt_range.imp ?_
    intro i k hik e he f hf
    obtain ⟨_, _, rfl⟩ := List.mem_map.mp he
    obtain ⟨_, _, rfl⟩ := List.mem_map.mp hf
    exact .inl (Int.ofNat_lt.mpr hik)

theorem mem_entries_iff {T : Triplets α} (h : T.inconsistency? = none) (e : ℤ × ℤ × α) :
    e ∈ T.entries ↔ ∃ i < T.numRows.toNat, ∃ f ∈ T.entriesOf i, ((i : ℤ), (f.1 : ℤ), f.2) = e := by
  constructor
  · intro he
    obtain ⟨_, hrows, _⟩ := T.inconsistency?_eq_none_iff.mp h
    have hrow := hrows e.1 (List.of_mem_zip he).1
    have hcol := bounds_of_consistent h e he
    have hi : (e.1.toNat : ℤ) = e.1 := Int.toNat_of_nonneg hrow.1
    have hj : (e.2.1.toNat : ℤ) = e.2.1 := Int.toNat_of_nonneg hcol.1
    refine ⟨e.1.toNat, by omega, (e.2.1.toNat, e.2.2), ?_, by rw [hi, hj]⟩
    rwa [mem_entriesOf_iff h, hi, hj]
  · rintro ⟨i, _, f, hf, rfl⟩
    exact (mem_entriesOf_iff h i f).mp hf

theorem mem_places_iff {T : Triplets α} (h : T.inconsistency? = none) (p : ℤ × ℤ) :
    p ∈ T.places ↔ ∃ i < T.numRows.toNat, ∃ j ∈ (T.entriesOf i).map Prod.fst,
      ((i : ℤ), (j : ℤ)) = p := by
  simp only [places_eq_map h, List.mem_map (l := T.entries), mem_entries_iff h, List.mem_map]
  constructor
  · rintro ⟨_, ⟨i, hi, f, hf, rfl⟩, rfl⟩
    exact ⟨i, hi, f.1, ⟨f, hf, rfl⟩, rfl⟩
  · rintro ⟨i, hi, _, ⟨f, hf, rfl⟩, rfl⟩
    exact ⟨_, ⟨i, hi, f, hf, rfl⟩, rfl⟩

theorem eq_of_entries {T T' : Triplets α} (h : T.inconsistency? = none)
    (h' : T'.inconsistency? = none) (hrows : T.numRows = T'.numRows)
    (hcols : T.numCols = T'.numCols) (hentries : T.entries = T'.entries) : T = T' := by
  have hlists : ∀ {T : Triplets α}, T.inconsistency? = none →
      T.rows = T.entries.map Prod.fst ∧ T.cols = T.entries.map (·.2.1) ∧
        T.vals = T.entries.map (·.2.2) := by
    intro T h
    obtain ⟨⟨hcols, hvals⟩, _⟩ := T.inconsistency?_eq_none_iff.mp h
    have hpairs : T.entries.map Prod.snd = T.cols.zip T.vals := by
      rw [entries, List.map_snd_zip]
      simp [hcols, hvals]
    refine ⟨?_, ?_, ?_⟩
    · rw [entries, List.map_fst_zip]
      simp [hcols, hvals]
    · calc T.cols = (T.cols.zip T.vals).map Prod.fst := (List.map_fst_zip hvals.le).symm
        _ = T.entries.map (·.2.1) := by rw [← hpairs, List.map_map]; rfl
    · calc T.vals = (T.cols.zip T.vals).map Prod.snd := (List.map_snd_zip hvals.ge).symm
        _ = T.entries.map (·.2.2) := by rw [← hpairs, List.map_map]; rfl
  obtain ⟨hr, hc, hv⟩ := hlists h
  obtain ⟨hr', hc', hv'⟩ := hlists h'
  rw [← hentries] at hr' hc' hv'
  cases T
  cases T'
  simp only [mk.injEq]
  exact ⟨hrows, hcols, hr.trans hr'.symm, hc.trans hc'.symm, hv.trans hv'.symm⟩

theorem increasing_entriesOf {T : Triplets α} (h : T.inconsistency? = none) (hT : T.Ascending)
    (i : ℕ) : RowMatrix.Increasing (T.entriesOf i) := by
  rw [Ascending, places_eq_map h, List.pairwise_map] at hT
  rw [RowMatrix.Increasing, entriesOf, List.pairwise_map, List.pairwise_filter]
  refine hT.imp_of_mem ?_
  intro e f he hf hef hei hfi
  have hcol := bounds_of_consistent h e he
  have hcol' := bounds_of_consistent h f hf
  simp only [Precedes, decide_eq_true_eq] at hef hei hfi
  omega

theorem entries_eq_of_ascending {T T' : Triplets α} (h : T.inconsistency? = none)
    (h' : T'.inconsistency? = none) (hT : T.Ascending) (hT' : T'.Ascending)
    (hmem : ∀ e, e ∈ T.entries ↔ e ∈ T'.entries) : T.entries = T'.entries := by
  -- Lists in a strict order are the same if they have the same members.
  let before (e f : ℤ × ℤ × α) : Prop := Precedes (e.1, e.2.1) (f.1, f.2.1)
  have hirrefl : Std.Irrefl before := ⟨by simp [before, Precedes]⟩
  have hantisymm : Std.Antisymm before := by
    constructor
    intro e f hef hfe
    simp only [before, Precedes] at hef hfe
    omega
  rw [Ascending, places_eq_map h, List.pairwise_map] at hT
  rw [Ascending, places_eq_map h', List.pairwise_map] at hT'
  exact List.Pairwise.eq_of_mem_iff (r := before) hT hT' hmem

section

variable [Scalar α]

theorem summed_entriesOf {T : Triplets α} {i : ℕ} (h : i < T.numRows.toNat) :
    (ofRows T.summed).entriesOf i = T.row i := by
  rw [entriesOf_ofRows, summed, getD_map_range _ _ _ h]

theorem numRows_summed {T : Triplets α} (h : 0 ≤ T.numRows) :
    (ofRows T.summed).numRows = T.numRows := by
  simp [ofRows, summed, RowMatrix.numRows, h]

theorem numCols_summed {T : Triplets α} (h : 0 ≤ T.numCols) :
    (ofRows T.summed).numCols = T.numCols := Int.toNat_of_nonneg h

theorem mem_places_summed {T : Triplets α} (h : T.Readable) (p : ℤ × ℤ) :
    p ∈ (ofRows T.summed).places ↔ p ∈ T.places := by
  rw [mem_places_iff h.consistent, mem_places_iff (consistent_ofRows (ordered_summed h).fit),
    numRows_summed h.numRows]
  apply exists_congr
  intro i
  apply and_congr_right
  intro hi
  simp only [summed_entriesOf hi, mem_columns_row]

theorem ofRows_summed_eq_iff {T : Triplets α} (h : T.Readable) :
    ofRows T.summed = T ↔ T.Ascending := by
  have hordered := ordered_summed h
  have hconsistent := consistent_ofRows hordered.fit
  have hback := ascending_ofRows hordered.increasing
  constructor
  · intro hT
    rwa [hT] at hback
  · intro hT
    have hmem : ∀ e, e ∈ (ofRows T.summed).entries ↔ e ∈ T.entries := by
      intro e
      rw [mem_entries_iff hconsistent, mem_entries_iff h.consistent, numRows_summed h.numRows]
      apply exists_congr
      intro i
      apply and_congr_right
      intro hi
      rw [summed_entriesOf hi, row_of_increasing (increasing_entriesOf h.consistent hT i)]
    exact eq_of_entries hconsistent h.consistent (numRows_summed h.numRows)
      (numCols_summed h.numCols) (entries_eq_of_ascending hconsistent h.consistent hback hT hmem)

end

end Triplets

namespace RowMatrix

theorem mem_zip_range (row : List α) (e : ℕ × α) :
    e ∈ (List.range row.length).zip row ↔ row[e.1]? = some e.2 := by
  rw [List.mem_iff_getElem, List.getElem?_eq_some_iff]
  constructor
  · rintro ⟨j, hj, rfl⟩
    have hrow : j < row.length := by simpa using hj
    refine ⟨by simpa using hrow, by simp⟩
  · rintro ⟨hj, he⟩
    exact ⟨e.1, by simpa using hj, Prod.ext (by simp) (by simpa using he)⟩

variable [Scalar α]

theorem mem_ofDenseRow (row : List α) (e : ℕ × α) :
    e ∈ ofDenseRow row ↔ row[e.1]? = some e.2 ∧ isZero e.2 = false := by
  rw [ofDenseRow, List.mem_filter, mem_zip_range, Bool.not_eq_true']

theorem increasing_ofDenseRow (row : List α) : Increasing (ofDenseRow row) := by
  apply List.Pairwise.filter
  apply List.Pairwise.of_map (S := fun i j => i < j) Prod.fst fun _ _ h => h
  rw [List.map_fst_zip (by simp)]
  exact List.pairwise_lt_range

theorem ordered_ofDense {n : ℕ} {D : List (List α)} (h : ∀ row ∈ D, row.length = n) :
    (ofDense n D).Ordered := by
  constructor
  · intro row hrow
    obtain ⟨xs, _, rfl⟩ := List.mem_map.mp hrow
    exact increasing_ofDenseRow xs
  · intro row hrow e he
    obtain ⟨xs, hxs, rfl⟩ := List.mem_map.mp hrow
    obtain ⟨hj, _⟩ := List.getElem?_eq_some_iff.mp ((mem_ofDenseRow xs e).mp he).1
    rwa [h xs hxs] at hj

end RowMatrix

namespace ArrayLike

theorem shape?_ofList (xs : List α) : (ofList xs).shape? = some [xs.length] := by
  rw [ofList, shape?, shapes?_entries]
  cases xs with
  | nil => rfl
  | cons x xs => simp

theorem shapes?_lists {n : ℕ} {D : List (List α)} (h : ∀ row ∈ D, row.length = n) :
    shapes? (D.map ofList) = some (D.map fun _ => [n]) := by
  induction D with
  | nil => rw [List.map_nil, shapes?, List.map_nil]
  | cons row D ih =>
    obtain ⟨hrow, hrest⟩ := List.forall_mem_cons.mp h
    rw [List.map_cons, shapes?, shape?_ofList, ih hrest, hrow, List.map_cons]

theorem flattenAll_lists (D : List (List α)) :
    flattenAll (D.map ofList) = D.flatten.map Except.ok := by
  induction D with
  | nil => simp [flattenAll]
  | cons row D ih => simp [flattenAll, flatten, ofList, flattenAll_entries, ih]

theorem chunks_flatten {n : ℕ} {D : List (List α)} (h : ∀ row ∈ D, row.length = n) :
    chunks n D.length D.flatten = D := by
  induction D with
  | nil => rfl
  | cons row D ih =>
    obtain ⟨hrow, hrest⟩ := List.forall_mem_cons.mp h
    rw [List.length_cons, chunks, List.flatten_cons, List.take_left' hrow, List.drop_left' hrow,
      ih hrest]

theorem toMatrix_lists [Scalar α] {n : ℕ} {D : List (List α)} (h : ∀ row ∈ D, row.length = n)
    (hne : D ≠ []) (tooDeep : Error) :
    (ArrayLike.list (D.map ofList)).toMatrix tooDeep = .ok (.ofDense n D) := by
  have hshape : (ArrayLike.list (D.map ofList)).shape? = some [D.length, n] := by
    rw [shape?, shapes?_lists h]
    cases D with
    | nil => exact absurd rfl hne
    | cons row D => simp
  have hentries : Vec.allOk (flattenAll (D.map ofList)) = .ok D.flatten := by
    rw [flattenAll_lists, Vec.allOk_map_ok]
  simp only [toMatrix, hshape, flatten, hentries, bind, Except.bind, chunks_flatten h]

end ArrayLike

end

section

namespace RowMatrix

theorem isZero_iff (x : Extended) : isZero x = true ↔ x = 0 := by
  have heq : isZero x = (decide (x = 0) && !x.isUndefined) := rfl
  rw [heq, Bool.and_eq_true, decide_eq_true_eq]
  constructor
  · exact fun h => h.1
  · rintro rfl
    exact ⟨rfl, rfl⟩

theorem rowEntry_append (row row' : List (ℕ × Extended)) (j : ℕ) :
    rowEntry (row ++ row') j = rowEntry row j + rowEntry row' j := by
  induction row with
  | nil => exact (Extended.zero_add _).symm
  | cons e row ih =>
    rw [List.cons_append, rowEntry_cons, rowEntry_cons, ih]
    split_ifs
    · exact (Extended.add_assoc _ _ _).symm
    · rfl

theorem rowEntry_of_mem {row : List (ℕ × Extended)} (h : Increasing row) {e : ℕ × Extended}
    (he : e ∈ row) : rowEntry row e.1 = e.2 := by
  obtain ⟨before, after, rfl⟩ := List.append_of_mem he
  obtain ⟨_, hafter, hbefore⟩ := List.pairwise_append.mp h
  rw [rowEntry_append, rowEntry_cons, if_pos rfl,
    rowEntry_of_ne fun f hf => (hbefore f hf e List.mem_cons_self).ne,
    rowEntry_of_ne fun f hf => ((List.pairwise_cons.mp hafter).1 f hf).ne', Extended.zero_add,
    Extended.add_comm, Extended.zero_add]

theorem denseRow_ofDenseRow (row : List Extended) :
    denseRow row.length (ofDenseRow row) = row := by
  apply List.ext_getElem
  · simp [denseRow]
  · intro j _ hj
    simp only [denseRow, List.getElem_map, List.getElem_range]
    -- Only a zero is left out, and what is left out counts as zero.
    by_cases hzero : isZero row[j] = true
    · rw [(isZero_iff _).mp hzero]
      apply rowEntry_of_ne
      rintro e he rfl
      obtain ⟨hentry, hstored⟩ := (mem_ofDenseRow row e).mp he
      rw [List.getElem?_eq_getElem hj, Option.some.injEq] at hentry
      rw [hentry, hstored] at hzero
      cases hzero
    · apply rowEntry_of_mem (increasing_ofDenseRow row) (e := (j, row[j]))
      rw [mem_ofDenseRow]
      exact ⟨List.getElem?_eq_getElem hj, Bool.eq_false_iff.mpr hzero⟩

/-- Rows that hold the matrix with the entries `D`, and of them just those that are not zero. -/
structure Stores (A : RowMatrix Extended) (n : ℕ) (D : List (List Extended)) : Prop where
  numCols : A.numCols = n
  dense : A.toDense = D
  ordered : A.Ordered
  entries : ∀ i e, e ∈ A.rows.getD i [] ↔ (D.getD i [])[e.1]? = some e.2 ∧ isZero e.2 = false

theorem stores_ofDense {n : ℕ} {D : List (List Extended)} (h : ∀ row ∈ D, row.length = n) :
    (ofDense n D).Stores n D := by
  refine ⟨rfl, ?_, ordered_ofDense h, ?_⟩
  · rw [toDense, ofDense, List.map_map]
    conv_rhs => rw [← List.map_id D]
    apply List.map_congr_left
    intro row hrow
    rw [Function.comp_apply, ← h row hrow, denseRow_ofDenseRow, id_eq]
  · intro i e
    have hrow : (ofDense n D).rows.getD i [] = ofDenseRow (D.getD i []) :=
      List.getD_map D [] ofDenseRow
    rw [hrow, mem_ofDenseRow]

end RowMatrix

namespace Triplets

theorem rowEntry_insert (row : List (ℕ × Extended)) (e : ℕ × Extended) (j : ℕ) :
    RowMatrix.rowEntry (insert row e) j = RowMatrix.rowEntry (e :: row) j := by
  induction row with
  | nil => rfl
  | cons f row ih =>
    rw [insert]
    split_ifs with hlt heq
    · rfl
    · simp only [RowMatrix.rowEntry_cons, heq]
      split_ifs
      · rw [Extended.add_comm f.2, Extended.add_assoc]
      · rfl
    · simp only [RowMatrix.rowEntry_cons] at ih ⊢
      rw [ih]
      split_ifs
      · rw [← Extended.add_assoc, Extended.add_comm f.2, Extended.add_assoc]
      · rfl
      · rfl
      · rfl

theorem rowEntry_foldl_insert (es row : List (ℕ × Extended)) (j : ℕ) :
    RowMatrix.rowEntry (es.foldl insert row) j = RowMatrix.rowEntry (es ++ row) j := by
  induction es generalizing row with
  | nil => rfl
  | cons e es ih =>
    rw [List.foldl_cons, ih, RowMatrix.rowEntry_append, rowEntry_insert, List.cons_append,
      RowMatrix.rowEntry_cons, RowMatrix.rowEntry_cons, RowMatrix.rowEntry_append]
    split_ifs
    · rw [← Extended.add_assoc, Extended.add_comm (RowMatrix.rowEntry es j), Extended.add_assoc]
    · rfl

theorem rowEntry_row (T : Triplets Extended) (i j : ℕ) :
    RowMatrix.rowEntry (T.row i) j = RowMatrix.rowEntry (T.entriesOf i) j := by
  have hrow := rowEntry_foldl_insert (T.entriesOf i) [] j
  rwa [List.append_nil] at hrow

theorem rowEntry_entriesOf {T : Triplets Extended} (h : T.inconsistency? = none) (i j : ℕ) :
    RowMatrix.rowEntry (T.entriesOf i) j = Vec.sum (T.valuesAt (i, j)) := by
  rw [RowMatrix.rowEntry, entriesOf, List.filter_map, List.map_map, valuesAt, List.filter_filter]
  congr 2
  apply List.filter_congr
  intro e he
  have hcol := bounds_of_consistent h e he
  simp only [Function.comp_apply, Prod.mk.injEq, ← Bool.decide_and, decide_eq_decide]
  omega

/-- `T'` lists every place of `T` once and in order, with the sum of the numbers there. -/
structure Collects (T T' : Triplets Extended) : Prop where
  numRows : T'.numRows = T.numRows
  numCols : T'.numCols = T.numCols
  ascending : T'.Ascending
  places : ∀ p, p ∈ T'.places ↔ p ∈ T.places
  values : ∀ e ∈ T'.entries, e.2.2 = Vec.sum (T.valuesAt (e.1, e.2.1))
  consistent : T'.inconsistency? = none

theorem collects_summed {T : Triplets Extended} (h : T.Readable) :
    T.Collects (ofRows T.summed) := by
  have hordered := ordered_summed h
  have hconsistent := consistent_ofRows hordered.fit
  refine ⟨numRows_summed h.numRows, numCols_summed h.numCols,
    ascending_ofRows hordered.increasing, mem_places_summed h, ?_, hconsistent⟩
  intro e he
  obtain ⟨i, hi, f, hf, rfl⟩ := (mem_entries_iff hconsistent e).mp he
  rw [numRows_summed h.numRows] at hi
  rw [summed_entriesOf hi] at hf
  rw [← rowEntry_entriesOf h.consistent, ← rowEntry_row,
    RowMatrix.rowEntry_of_mem (T.increasing_row i) hf]

/-- On the way through rows and back the numbers at every place are collected, a second time
nothing changes any more, and a matrix that is in order stays as it is; a matrix given in full is
stored by its entries that are not zero. -/
theorem roundTrip_collects :
    (∀ T : Triplets Extended, T.Readable → ∃ T', T.roundTrip = .ok T' ∧ T.Collects T' ∧
      T'.roundTrip = .ok T' ∧ (T' = T ↔ T.Ascending)) ∧
    ∀ (n : ℕ) (D : List (List Extended)), (∀ row ∈ D, row.length = n) →
      (D ≠ [] → ∀ e, (ArrayLike.list (D.map .ofList)).toMatrix e = .ok (.ofDense n D)) ∧
      (ofRows (.ofDense n D)).toRows = .ok (.ofDense n D) ∧
      (RowMatrix.ofDense n D).Stores n D := by
  constructor
  · intro T h
    have hagain : (ofRows T.summed).roundTrip = .ok (ofRows T.summed) := by
      rw [roundTrip, toRows_ofRows (ordered_summed h)]
      rfl
    exact ⟨_, roundTrip_of_readable h, collects_summed h, hagain, ofRows_summed_eq_iff h⟩
  · intro n D h
    exact ⟨ArrayLike.toMatrix_lists h, toRows_ofRows (RowMatrix.ordered_ofDense h),
      RowMatrix.stores_ofDense h⟩

def scattered : Triplets Extended where
  numRows := 3
  numCols := 2
  rows := [2, 0, 2, 0]
  cols := [1, 1, 1, 0]
  vals := [.finite 3, .finite 0, .finite (-3), .finite 5]

def fullRows : List (List Extended) := [[.finite 0, .finite 4], [.undefined, .finite 0]]

theorem roundTrip_collects_scattered :
    scattered.Readable ∧ ¬scattered.Ascending ∧
      scattered.roundTrip =
        .ok ⟨3, 2, [0, 0, 2], [0, 1, 1], [.finite 5, .finite 0, .finite 0]⟩ ∧
      (ofRows (.ofDense 2 fullRows)).toRows = .ok ⟨2, [[(1, .finite 4)], [(0, .undefined)]]⟩ := by
  have hreadable : scattered.Readable := ⟨by decide, by decide, by decide⟩
  obtain ⟨T', hT', _, _, hfixed⟩ := roundTrip_collects.1 scattered hreadable
  have hvalue : scattered.roundTrip =
      .ok ⟨3, 2, [0, 0, 2], [0, 1, 1], [.finite 5, .finite 0, .finite 0]⟩ := by
    decide +kernel
  have hne : T' ≠ scattered := by
    rw [hvalue] at hT'
    cases hT'
    decide
  have hdense := (roundTrip_collects.2 2 fullRows (by decide)).2.1
  exact ⟨hreadable, fun h => hne (hfixed.mpr h), hvalue, hdense⟩

end Triplets

end

end ConeLift
