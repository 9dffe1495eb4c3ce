import Mathlib.Data.List.Forall2
import Mathlib.Data.List.GetD
import Mathlib.Tactic

namespace ConeLift

variable {β γ δ : Type}

theorem getD_of_forall {p : β → Prop} (l : List β) (d : β) (i : ℕ)
    (h : ∀ a ∈ l, p a) (hd : p d) : p (l.getD i d) := by
  by_cases hi : i < l.length
  · rw [List.getD_eq_getElem _ _ hi]
    exact h _ (List.getElem_mem hi)
  · rw [List.getD_eq_default _ _ (not_lt.mp hi)]
    exact hd

theorem getElem?_snoc {xs : List β} {x y : β} {i : ℕ} (h : (xs ++ [x])[i]? = some y) :
    xs[i]? = some y ∨ i = xs.length ∧ y = x := by
  rcases Nat.lt_trichotomy i xs.length with hi | rfl | hi
  · rw [List.getElem?_append_left hi] at h
    exact .inl h
  · rw [List.getElem?_concat_length] at h
    cases h
    exact .inr ⟨rfl, rfl⟩
  · rw [List.getElem?_eq_none (by simpa using hi)] at h
    cases h

theorem getD_map_range (m : ℕ) (g : ℕ → β) (d : β) {i : ℕ} (h : i < m) :
    ((List.range m).map g).getD i d = g i := by
  rw [List.getD_eq_getElem _ _ (by simpa using h)]
  simp

theorem eq_map_range (l : List β) (d : β) : l = (List.range l.length).map (l.getD · d) := by
  apply List.ext_getElem
  · simp
  · intro i hi _
    rw [List.getElem_map, List.getElem_range, List.getD_eq_getElem _ _ hi]

theorem forall₂_append_iff {R : β → γ → Prop} {xs xs' : List β} {ys ys' : List γ}
    (h : xs.length = ys.length) :
    List.Forall₂ R (xs ++ xs') (ys ++ ys') ↔ List.Forall₂ R xs ys ∧ List.Forall₂ R xs' ys' := by
  induction xs generalizing ys with
  | nil =>
    cases ys with
    | nil => simp
    | cons y ys => simp at h
  | cons x xs ih =>
    cases ys with
    | nil => simp at h
    | cons y ys =>
      have hlen : xs.length = ys.length := by simpa using h
      simp only [List.cons_append, List.forall₂_cons, ih hlen, and_assoc]

theorem exists_forall₂_iff {R : β → γ → Prop} (xs : List β) :
    (∃ ys, List.Forall₂ R xs ys) ↔ ∀ x ∈ xs, ∃ y, R x y := by
  induction xs with
  | nil => simp
  | cons x xs ih =>
    rw [List.forall_mem_cons, ← ih]
    constructor
    · rintro ⟨ys, h⟩
      obtain ⟨y, ys, hy, hys, rfl⟩ := List.forall₂_cons_left_iff.mp h
      exact ⟨⟨y, hy⟩, ys, hys⟩
    · rintro ⟨⟨y, hy⟩, ys, hys⟩
      exact ⟨y :: ys, .cons hy hys⟩

theorem exists_of_mem_zipWith {f : β → γ → δ} {xs : List β} {ys : List γ} {e : δ}
    (h : e ∈ List.zipWith f xs ys) : ∃ x ∈ xs, ∃ y ∈ ys, f x y = e := by
  rw [← List.map_uncurry_zip_eq_zipWith] at h
  obtain ⟨a, ha, rfl⟩ := List.mem_map.mp h
  obtain ⟨hx, hy⟩ := List.of_mem_zip (a := a.1) (b := a.2) ha
  exact ⟨a.1, hx, a.2, hy, rfl⟩

theorem forall_mem_zipWith_iff {f : β → γ → δ} {p : δ → Prop} {xs : List β} {ys : List γ}
    (h : xs.length = ys.length) :
    (∀ e ∈ List.zipWith f xs ys, p e) ↔ List.Forall₂ (fun x y => p (f x y)) xs ys :=
  List.forall_iff_forall_mem.symm.trans (List.forall_zipWith h)

theorem forall₂_map_range_iff {R : β → γ → Prop} (n : ℕ) (f : ℕ → β) (ys : List γ)
    (d : γ) : List.Forall₂ R ((List.range n).map f) ys ↔
      ys.length = n ∧ ∀ j < n, R (f j) (ys.getD j d) := by
  rw [List.forall₂_iff_get]
  simp only [List.length_map, List.length_range, List.get_eq_getElem, List.getElem_map,
    List.getElem_range]
  constructor
  · rintro ⟨hlength, h⟩
    refine ⟨hlength.symm, ?_⟩
    intro j hj
    have hjy : j < ys.length := by omega
    rw [List.getD_eq_getElem _ _ hjy]
    exact h j hj hjy
  · rintro ⟨hlength, h⟩
    refine ⟨hlength.symm, ?_⟩
    intro j hj hjy
    rw [← List.getD_eq_getElem _ d hjy]
    exact h j hj

end ConeLift
