import ConeLift.Matrix.Rows
import ConeLift.Proofs.Lists

namespace ConeLift

variable {β γ δ ε : Type}

theorem bind_eq_ok_iff (a : Except ε β) (f : β → Except ε γ) (c : γ) :
    a >>= f = .ok c ↔ ∃ b, a = .ok b ∧ f b = .ok c := by
  cases a with
  | error e => simp [bind, Except.bind]
  | ok b => simp [bind, Except.bind]

theorem map_eq_ok_iff {a : Except ε β} {f : β → γ} {c : γ} :
    a.map f = .ok c ↔ ∃ b, a = .ok b ∧ f b = c := by
  cases a with
  | error e => simp [Except.map]
  | ok b => simp [Except.map]

theorem map_bind_eq (a : Except ε β) (f : β → Except ε γ) (g : γ → δ) :
    (a >>= f).map g = a >>= fun b => (f b).map g := by
  cases a with
  | error e => rfl
  | ok b => rfl

theorem bind_of_map (a : Except ε β) (f : β → γ) (g : γ → Except ε δ) :
    a.map f >>= g = a >>= fun b => g (f b) := by
  cases a with
  | error e => rfl
  | ok b => rfl

theorem mapM_eq_ok_iff (f : β → Except ε γ) (xs : List β) (ys : List γ) :
    xs.mapM f = .ok ys ↔ List.Forall₂ (fun x y => f x = .ok y) xs ys := by
  induction xs generalizing ys with
  | nil =>
    simp only [List.mapM_nil, List.forall₂_nil_left_iff]
    constructor
    · intro h
      cases h
      rfl
    · rintro rfl
      rfl
  | cons x xs ih =>
    simp only [List.mapM_cons, bind_eq_ok_iff, ih, List.forall₂_cons_left_iff]
    constructor
    · rintro ⟨y, hy, zs, hz, h⟩
      cases h
      exact ⟨y, zs, hy, hz, rfl⟩
    · rintro ⟨y, zs, hy, hz, rfl⟩
      exact ⟨y, hy, zs, hz, rfl⟩

theorem mapM_of_forall (f : β → Except ε γ) (g : β → γ) (xs : List β)
    (h : ∀ x ∈ xs, f x = .ok (g x)) : xs.mapM f = .ok (xs.map g) := by
  rw [mapM_eq_ok_iff, List.forall₂_map_right_iff]
  exact List.forall₂_same.mpr h

theorem mapM_map_of_forall (f : β → Except ε γ) (c : δ → β) (g : δ → γ) (xs : List δ)
    (h : ∀ x ∈ xs, f (c x) = .ok (g x)) : (xs.map c).mapM f = .ok (xs.map g) := by
  rw [mapM_eq_ok_iff, List.forall₂_map_left_iff, List.forall₂_map_right_iff]
  exact List.forall₂_same.mpr h

theorem exists_mapM_of_forall {f : β → Except ε γ} {xs : List β}
    (h : ∀ x ∈ xs, ∃ y, f x = .ok y) : ∃ ys, xs.mapM f = .ok ys := by
  induction xs with
  | nil => exact ⟨[], rfl⟩
  | cons x xs ih =>
    rw [List.forall_mem_cons] at h
    obtain ⟨y, hy⟩ := h.1
    obtain ⟨ys, hys⟩ := ih h.2
    refine ⟨y :: ys, ?_⟩
    rw [List.mapM_cons, hy, hys]
    rfl

theorem forall_of_mapM (f : β → Except ε γ) {xs : List β} {ys : List γ}
    (h : xs.mapM f = .ok ys) : ∀ x ∈ xs, ∃ y, f x = .ok y := by
  rw [mapM_eq_ok_iff] at h
  induction h with
  | nil => simp
  | @cons x y xs ys hx _ ih =>
    intro z hz
    rcases List.mem_cons.mp hz with rfl | hz
    · exact ⟨y, hx⟩
    · exact ih z hz

namespace Vec

theorem position_eq_ok_iff (size i k : ℕ) : position size (i : ℤ) = .ok k ↔ i < size ∧ k = i := by
  by_cases h : i < size
  · rw [position_ofNat h]
    simp [h, eq_comm]
  · have hi : ¬((i : ℤ) < 0 ∧ -(i : ℤ) ≤ size) := by omega
    have hs : ¬(0 ≤ (i : ℤ) ∧ (i : ℤ) < size) := by omega
    simp only [position, hi, hs, if_false, h, false_and, iff_false]
    split <;> simp

theorem fetch_ofNat (xs : List β) (d : β) {i : ℕ} (h : i < xs.length) :
    fetch xs (i : ℤ) = .ok (xs.getD i d) := by
  simp only [fetch, position_ofNat h, bind, Except.bind, List.getElem?_eq_getElem h,
    List.getD_eq_getElem _ _ h]

theorem lt_of_fetch {xs : List β} {i : ℕ} {x : β} (h : fetch xs (i : ℤ) = .ok x) :
    i < xs.length := by
  obtain ⟨k, hk, _⟩ := (bind_eq_ok_iff _ _ _).mp h
  exact ((position_eq_ok_iff _ _ _).mp hk).1

theorem replace_ofNat (xs : List β) (x : β) {i : ℕ} (h : i < xs.length) :
    replace xs (i : ℤ) x = .ok (xs.set i x) := by
  simp only [replace, position_ofNat h, bind, Except.bind]

theorem lt_of_replace {xs ys : List β} {i : ℕ} {x : β} (h : replace xs (i : ℤ) x = .ok ys) :
    i < xs.length := by
  obtain ⟨k, hk, _⟩ := (bind_eq_ok_iff _ _ _).mp h
  exact ((position_eq_ok_iff _ _ _).mp hk).1

theorem canIndex_ofNat {size i : ℕ} (h : i < size) : canIndex size (i : ℤ) = true := by
  have hn : -(size : ℤ) ≤ (i : ℤ) := by omega
  have hp : (i : ℤ) < (size : ℤ) := by omega
  simp [canIndex, hn, hp]

theorem all_canIndex {size : ℕ} {is : List ℕ} (h : ∀ i ∈ is, i < size) :
    (is.map fun i : ℕ => (i : ℤ)).all (canIndex size) = true := by
  rw [List.all_eq_true]
  intro i hi
  obtain ⟨k, hk, rfl⟩ := List.mem_map.mp hi
  exact canIndex_ofNat (h k hk)

theorem gather_ofNat (xs : List β) (d : β) (is : List ℕ) (h : ∀ i ∈ is, i < xs.length) :
    gather xs (is.map fun i : ℕ => (i : ℤ)) = .ok (is.map (xs.getD · d)) := by
  rw [gather, if_pos (all_canIndex h)]
  exact mapM_map_of_forall _ _ _ _ fun i hi => fetch_ofNat xs d (h i hi)

theorem forall_lt_of_gather {xs ys : List β} {is : List ℕ}
    (h : gather xs (is.map fun i : ℕ => (i : ℤ)) = .ok ys) : ∀ i ∈ is, i < xs.length := by
  intro i hi
  rw [gather] at h
  split at h
  · obtain ⟨x, hx⟩ := forall_of_mapM _ h i (List.mem_map_of_mem hi)
    exact lt_of_fetch hx
  · cases h

end Vec

namespace RowMatrix

theorem select_ofNat (A : RowMatrix β) (is : List ℕ) (h : ∀ i ∈ is, i < A.numRows) :
    A.select (is.map fun i : ℕ => (i : ℤ)) = .ok ⟨A.numCols, is.map (A.rows.getD · [])⟩ := by
  have hall : (is.map fun i : ℕ => (i : ℤ)).all (Vec.canIndex A.rows.length) = true :=
    Vec.all_canIndex h
  have hrows : (is.map fun i : ℕ => (i : ℤ)).mapM (Vec.fetch A.rows) =
      .ok (is.map (A.rows.getD · [])) :=
    mapM_map_of_forall _ _ _ _ fun i hi => Vec.fetch_ofNat A.rows [] (h i hi)
  simp only [select, hall, hrows, Bool.not_true, Bool.false_eq_true, if_false]

theorem forall_lt_of_select {A B : RowMatrix β} {is : List ℕ}
    (h : A.select (is.map fun i : ℕ => (i : ℤ)) = .ok B) : ∀ i ∈ is, i < A.numRows := by
  intro i hi
  rw [select] at h
  split at h
  · cases h
  · split at h
    · rename_i rows hrows
      obtain ⟨x, hx⟩ := forall_of_mapM _ hrows i (List.mem_map_of_mem hi)
      exact Vec.lt_of_fetch hx
    · cases h

end RowMatrix

end ConeLift
