import ConeLift.Proofs.Finite

namespace ConeLift

namespace Extended

theorem finite_ne_undefined (q : ℚ) : Extended.finite q ≠ .undefined := Extended.noConfusion

@[simp] theorem infinity_le_iff (b : Extended) :
    Scalar.le Extended.infinity b = true ↔ b = .infinity := by
  cases b <;> simp [Scalar.le, le, lt, eq, isUndefined]

@[simp] theorem le_negInfinity_iff (a : Extended) :
    Scalar.le a .negInfinity = true ↔ a = .negInfinity := by
  cases a <;> simp [Scalar.le, le, lt, eq, isUndefined]

@[simp] theorem negInfinity_le_iff (b : Extended) :
    Scalar.le Extended.negInfinity b = true ↔ b ≠ .undefined := by
  cases b <;> simp [Scalar.le, le, lt, eq, isUndefined]

@[simp] theorem le_infinity_iff (a : Extended) :
    Scalar.le a .infinity = true ↔ a ≠ .undefined := by
  cases a <;> simp [Scalar.le, le, lt, eq, isUndefined]

@[simp] theorem undefined_le (b : Extended) : Scalar.le Extended.undefined b = false := by
  cases b <;> rfl

@[simp] theorem le_undefined (a : Extended) : Scalar.le a .undefined = false := by
  cases a <;> rfl

theorem le_refl {a : Extended} (h : a ≠ .undefined) : Scalar.le a a = true := by
  cases a with
  | undefined => exact absurd rfl h
  | _ => simp

theorem le_trans {a b c : Extended} (hab : Scalar.le a b = true) (hbc : Scalar.le b c = true) :
    Scalar.le a c = true := by
  cases b with
  | undefined => simp at hab
  | infinity => simp_all
  | negInfinity => simp_all
  | finite q =>
    cases a with
    | undefined => simp at hab
    | infinity => simp at hab
    | negInfinity =>
      rw [negInfinity_le_iff]
      rintro rfl
      simp at hbc
    | finite p =>
      cases c with
      | undefined => simp at hbc
      | negInfinity => simp at hbc
      | infinity => simp
      | finite r =>
        rw [le_finite_iff] at *
        exact hab.trans hbc

theorem le_antisymm {a b : Extended} (hab : Scalar.le a b = true) (hba : Scalar.le b a = true) :
    a = b := by
  cases a with
  | undefined => simp at hab
  | infinity => simp_all
  | negInfinity => simp_all
  | finite p =>
    cases b with
    | undefined => simp at hab
    | infinity => simp at hba
    | negInfinity => simp at hab
    | finite q =>
      rw [le_finite_iff] at hab hba
      rw [hab.antisymm hba]

theorem eq_iff_le (a b : Extended) :
    Scalar.eq a b = true ↔ Scalar.le a b = true ∧ Scalar.le b a = true := by
  constructor
  · intro h
    have hdefined : a = b ∧ a.isUndefined = false := by
      simpa [Scalar.eq, eq] using h
    obtain ⟨rfl, ha⟩ := hdefined
    have hrefl : Scalar.le a a = true := le_refl (by rintro rfl; cases ha)
    exact ⟨hrefl, hrefl⟩
  · rintro ⟨hab, hba⟩
    obtain rfl := le_antisymm hab hba
    cases a with
    | undefined => simp at hab
    | _ => simp [Scalar.eq, eq, isUndefined]

theorem neg_le_neg_iff (a b : Extended) : Scalar.le (-a) (-b) = true ↔ Scalar.le b a = true := by
  cases a with
  | finite p =>
    cases b with
    | finite q => simp
    | _ => exact Iff.rfl
  | _ => cases b <;> exact Iff.rfl

theorem le_of_lt {a b : Extended} (h : Scalar.lt a b = true) : Scalar.le a b = true :=
  Bool.or_eq_true_iff.mpr (.inl h)

theorem le_of_not_lt {a b : Extended} (ha : a ≠ .undefined) (hb : b ≠ .undefined)
    (h : Scalar.lt a b = false) : Scalar.le b a = true := by
  cases a with
  | undefined => exact absurd rfl ha
  | infinity => simpa using hb
  | negInfinity =>
    cases b with
    | undefined => exact absurd rfl hb
    | negInfinity => simp
    | infinity => cases h
    | finite q => cases h
  | finite p =>
    cases b with
    | undefined => exact absurd rfl hb
    | negInfinity => simp
    | infinity => cases h
    | finite q =>
      rw [← Bool.not_eq_true, lt_finite_iff] at h
      rw [le_finite_iff]
      exact not_lt.mp h

theorem not_le_of_lt {a b : Extended} (h : Scalar.lt a b = true) : Scalar.le b a = false := by
  rw [← Bool.not_eq_true]
  intro hba
  obtain rfl := le_antisymm (le_of_lt h) hba
  cases a with
  | finite p => simp at h
  | _ => cases h

theorem lt_undefined (a : Extended) : Scalar.lt a .undefined = false := by
  cases a <;> rfl

theorem lt_false_iff {a : Extended} (ha : a ≠ .undefined) (b : Extended) :
    Scalar.lt a b = false ↔ b = .undefined ∨ Scalar.le b a = true := by
  constructor
  · intro h
    by_cases hb : b = .undefined
    · exact .inl hb
    · exact .inr (le_of_not_lt ha hb h)
  · rintro (rfl | hba)
    · exact lt_undefined a
    · rw [← Bool.not_eq_true]
      intro hab
      rw [not_le_of_lt hab] at hba
      cases hba

theorem firstMax_le_iff (a : Extended) {b : Extended} (hb : b ≠ .undefined) (t : Extended) :
    Scalar.le (Scalar.firstMax a b) t = true ↔ Scalar.le a t = true ∧ Scalar.le b t = true := by
  rw [Scalar.firstMax]
  split_ifs with h
  · constructor
    · intro hbt
      exact ⟨le_trans (le_of_lt h) hbt, hbt⟩
    · exact And.right
  · constructor
    · intro hat
      have ha : a ≠ .undefined := by
        rintro rfl
        simp at hat
      exact ⟨hat, le_trans (le_of_not_lt ha hb (by simpa using h)) hat⟩
    · exact And.left

theorem le_firstMin_iff (a : Extended) {b : Extended} (hb : b ≠ .undefined) (t : Extended) :
    Scalar.le t (Scalar.firstMin a b) = true ↔ Scalar.le t a = true ∧ Scalar.le t b = true := by
  rw [Scalar.firstMin]
  split_ifs with h
  · constructor
    · intro htb
      exact ⟨le_trans htb (le_of_lt h), htb⟩
    · exact And.right
  · constructor
    · intro hta
      have ha : a ≠ .undefined := by
        rintro rfl
        simp at hta
      exact ⟨hta, le_trans hta (le_of_not_lt hb ha (by simpa using h))⟩
    · exact And.left

theorem firstMax_le_iff_or (a b t : Extended) :
    Scalar.le (Scalar.firstMax a b) t = true ↔
      Scalar.le a t = true ∧ (b = .undefined ∨ Scalar.le b t = true) := by
  by_cases hb : b = .undefined
  · have hskip : Scalar.firstMax a .undefined = a := by cases a <;> rfl
    rw [hb, hskip, and_iff_left (.inl rfl)]
  · rw [firstMax_le_iff a hb, or_iff_right hb]

theorem firstMax_eq_undefined_iff (a b : Extended) :
    Scalar.firstMax a b = .undefined ↔ a = .undefined := by
  rw [Scalar.firstMax]
  split_ifs with h
  · have ha : a ≠ .undefined := by
      rintro rfl
      cases h
    have hb : b ≠ .undefined := by
      rintro rfl
      cases a <;> cases h
    exact iff_of_false hb ha
  · exact Iff.rfl

theorem strictMax_of_undefined {a b : Extended} (h : a = .undefined ∨ b = .undefined) :
    Scalar.strictMax a b = .undefined := by
  rcases h with rfl | rfl
  · rfl
  · cases a <;> rfl

theorem strictMax_eq {a b : Extended} (ha : a ≠ .undefined) (hb : b ≠ .undefined) :
    Scalar.strictMax a b = Scalar.firstMax a b := by
  have hdefined {c : Extended} (hc : c ≠ .undefined) : Scalar.isUndefined c = false := by
    cases c with
    | undefined => exact absurd rfl hc
    | _ => rfl
  simp [Scalar.strictMax, hdefined ha, hdefined hb]

theorem strictMax_eq_undefined_iff (a b : Extended) :
    Scalar.strictMax a b = .undefined ↔ a = .undefined ∨ b = .undefined := by
  refine ⟨?_, strictMax_of_undefined⟩
  contrapose!
  rintro ⟨ha, hb⟩
  rwa [strictMax_eq ha hb, ne_eq, firstMax_eq_undefined_iff]

theorem strictMax_le_iff (a b t : Extended) :
    Scalar.le (Scalar.strictMax a b) t = true ↔ Scalar.le a t = true ∧ Scalar.le b t = true := by
  by_cases ha : a = .undefined
  · rw [strictMax_of_undefined (.inl ha), ha]
    simp
  by_cases hb : b = .undefined
  · rw [strictMax_of_undefined (.inr hb), hb]
    simp
  rw [strictMax_eq ha hb, firstMax_le_iff a hb]

theorem foldl_firstMax_le_iff_or (xs : List Extended) (a t : Extended) :
    Scalar.le (xs.foldl Scalar.firstMax a) t = true ↔
      Scalar.le a t = true ∧ ∀ x ∈ xs, x = .undefined ∨ Scalar.le x t = true := by
  induction xs generalizing a with
  | nil => simp
  | cons x xs ih =>
    rw [List.foldl_cons, ih, firstMax_le_iff_or, List.forall_mem_cons, and_assoc]

theorem foldl_firstMax_le_iff {xs : List Extended} (hxs : ∀ x ∈ xs, x ≠ .undefined)
    (a t : Extended) : Scalar.le (xs.foldl Scalar.firstMax a) t = true ↔
      Scalar.le a t = true ∧ ∀ x ∈ xs, Scalar.le x t = true := by
  rw [foldl_firstMax_le_iff_or]
  exact and_congr_right' (forall₂_congr fun x hx => or_iff_right (hxs x hx))

theorem foldl_firstMax_eq_undefined_iff (xs : List Extended) (a : Extended) :
    xs.foldl Scalar.firstMax a = .undefined ↔ a = .undefined := by
  induction xs generalizing a with
  | nil => exact Iff.rfl
  | cons x xs ih => rw [List.foldl_cons, ih, firstMax_eq_undefined_iff]

theorem foldl_strictMax_le_iff (xs : List Extended) (a t : Extended) :
    Scalar.le (xs.foldl Scalar.strictMax a) t = true ↔
      Scalar.le a t = true ∧ ∀ x ∈ xs, Scalar.le x t = true := by
  induction xs generalizing a with
  | nil => simp
  | cons x xs ih =>
    rw [List.foldl_cons, ih, strictMax_le_iff, List.forall_mem_cons, and_assoc]

theorem foldl_strictMax_eq_undefined_iff (xs : List Extended) (a : Extended) :
    xs.foldl Scalar.strictMax a = .undefined ↔ a = .undefined ∨ .undefined ∈ xs := by
  induction xs generalizing a with
  | nil => simp
  | cons x xs ih =>
    rw [List.foldl_cons, ih, strictMax_eq_undefined_iff, List.mem_cons, or_assoc, eq_comm (a := x)]

end Extended

end ConeLift
