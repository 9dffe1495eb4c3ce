import ConeLift.Decimal.Binary
import ConeLift.Problem
import ConeLift.Proofs.Lists
import ConeLift.Wire.Value

namespace ConeLift.Value

def rational? : Value → Option ℚ
  | .int i => some i
  | .real x => exactValue? x
  | _ => none

def Denotes (v : Value) (q : ℚ) : Prop := v.rational? = some q

def Indexes (v : Value) (i : ℕ) : Prop := v.Denotes i

inductive IsNumber : Value → Prop
  | int (i : ℤ) (h : |i| < 2 ^ 63) : IsNumber (.int i)
  | real (x : Float) : IsNumber (.real x)

/-- The right answer to numbers that are given as indices: the cone over just these indices, or
faults if one of the numbers is no index. -/
structure Judged (kind : Kind) (xs : List Value) (outcome : Except Error Cone) : Prop where
  taken : ∀ is, List.Forall₂ Indexes xs is → outcome = .ok ⟨kind, is⟩
  refused : (¬∃ is, List.Forall₂ Indexes xs is) → ∃ fs, outcome = .error (.invalid fs)

def IsAbove (v : Value) : Prop := ∃ q, v.Denotes q ∧ -1 < q

def IsFractional (v : Value) : Prop := ∃ q, v.Denotes q ∧ q.den ≠ 1

structure CutOff (xs : List Value) : Prop where
  above : ∀ v ∈ xs, v.IsAbove
  fractional : ∃ v ∈ xs, v.IsFractional

def firstNotFinite? (xs : List Value) : Option Value := xs.find? fun v => v.rational?.isNone

def StopsAtInfinity (xs : List Value) : Prop :=
  ∃ x, firstNotFinite? xs = some (.real x) ∧ x.isNaN = false

section

variable {v : Value} {i j : ℕ} {q r : ℚ}

theorem Denotes.unique (hq : v.Denotes q) (hr : v.Denotes r) : q = r :=
  Option.some.inj (hq.symm.trans hr)

theorem Indexes.unique (hi : v.Indexes i) (hj : v.Indexes j) : i = j := by
  exact_mod_cast Denotes.unique hi hj

theorem Indexes.isAbove (h : v.Indexes i) : v.IsAbove := by
  have hi : (0 : ℚ) ≤ i := i.cast_nonneg
  exact ⟨i, h, by linarith⟩

theorem not_isAbove_of_not_finite {x : Float} (h : exactValue? x = none) :
    ¬IsAbove (.real x) := by
  rintro ⟨q, hq, _⟩
  rw [Denotes, rational?, h] at hq
  cases hq

theorem not_isFractional_of_whole {k : ℤ} (h : v.Denotes k) : ¬v.IsFractional := by
  rintro ⟨q, hq, hden⟩
  obtain rfl := h.unique hq
  exact hden (Rat.den_intCast k)

theorem Indexes.not_isFractional (h : v.Indexes i) : ¬v.IsFractional :=
  not_isFractional_of_whole (by exact_mod_cast h)

theorem IsAbove.exists_indexes (h : v.IsAbove) (hwhole : ¬v.IsFractional) :
    ∃ i, v.Indexes i := by
  obtain ⟨q, hq, habove⟩ := h
  have hden : q.den = 1 := by
    by_contra hden
    exact hwhole ⟨q, hq, hden⟩
  have hnum : (q.num : ℚ) = q := Rat.coe_int_num_of_den_eq_one hden
  have hpos : 0 ≤ q.num := by
    rw [← hnum] at habove
    have hlt : (-1 : ℤ) < q.num := by exact_mod_cast habove
    omega
  have hcast : ((q.num.toNat : ℕ) : ℚ) = q := by
    rw [← hnum]
    exact_mod_cast Int.toNat_of_nonneg hpos
  exact ⟨q.num.toNat, by rwa [Indexes, hcast]⟩

theorem isAbove_of_whole {k : ℤ} (h : v.Denotes k) : v.IsAbove ↔ 0 ≤ k := by
  have hcast : (-1 : ℚ) < k ↔ -1 < k := by exact_mod_cast Iff.rfl
  constructor
  · rintro ⟨q, hq, habove⟩
    obtain rfl := h.unique hq
    rw [hcast] at habove
    omega
  · intro hk
    exact ⟨k, h, hcast.mpr (by omega)⟩

theorem exists_indexes_of_whole {k : ℤ} (h : v.Denotes k) : (∃ i, v.Indexes i) ↔ 0 ≤ k := by
  rw [← isAbove_of_whole h]
  constructor
  · rintro ⟨i, hi⟩
    exact hi.isAbove
  · intro habove
    exact habove.exists_indexes (not_isFractional_of_whole h)

end

section

variable {xs : List Value} {is js : List ℕ} {qs rs : List ℚ}

theorem forall₂_denotes_unique (hq : List.Forall₂ Denotes xs qs) (hr : List.Forall₂ Denotes xs rs) :
    qs = rs := by
  have hunique : Relator.RightUnique Denotes := fun _ _ _ => Denotes.unique
  exact List.right_unique_forall₂' hunique hq hr

theorem forall₂_denotes_of_indexes (h : List.Forall₂ Indexes xs is) :
    List.Forall₂ Denotes xs (is.map fun i : ℕ => (i : ℚ)) := by
  rwa [List.forall₂_map_right_iff]

theorem forall₂_indexes_unique (hi : List.Forall₂ Indexes xs is) (hj : List.Forall₂ Indexes xs js) :
    is = js := by
  have hunique : Relator.RightUnique Indexes := fun _ _ _ => Indexes.unique
  exact List.right_unique_forall₂' hunique hi hj

theorem isAbove_of_indices (h : ∃ is, List.Forall₂ Indexes xs is) : ∀ v ∈ xs, v.IsAbove := by
  rw [exists_forall₂_iff] at h
  intro v hv
  obtain ⟨i, hi⟩ := h v hv
  exact hi.isAbove

theorem CutOff.no_indices (h : CutOff xs) : ¬∃ is, List.Forall₂ Indexes xs is := by
  obtain ⟨v, hv, hfractional⟩ := h.fractional
  rw [exists_forall₂_iff]
  intro hall
  obtain ⟨i, hi⟩ := hall v hv
  exact hi.not_isFractional hfractional

theorem cutOff_iff (habove : ∀ v ∈ xs, v.IsAbove) :
    CutOff xs ↔ ¬∃ is, List.Forall₂ Indexes xs is := by
  refine ⟨CutOff.no_indices, ?_⟩
  rw [exists_forall₂_iff]
  intro hnone
  refine ⟨habove, ?_⟩
  by_contra hwhole
  apply hnone
  intro v hv
  exact (habove v hv).exists_indexes fun hfractional => hwhole ⟨v, hv, hfractional⟩

theorem not_stopsAtInfinity (h : List.Forall₂ Denotes xs qs) : ¬StopsAtInfinity xs := by
  rintro ⟨x, hx, _⟩
  obtain ⟨q, hq⟩ := (exists_forall₂_iff xs).mp ⟨qs, h⟩ _ (List.mem_of_find?_eq_some hx)
  have hnone := List.find?_some hx
  rw [show rational? (.real x) = some q from hq] at hnone
  cases hnone

theorem exists_denotes_or_notFinite (hxs : ∀ v ∈ xs, v.IsNumber) :
    (∃ qs, List.Forall₂ Denotes xs qs) ∨
      ∃ x, firstNotFinite? xs = some (.real x) ∧ exactValue? x = none := by
  induction xs with
  | nil => exact .inl ⟨[], .nil⟩
  | cons v xs ih =>
    rw [List.forall_mem_cons] at hxs
    cases hv : v.rational? with
    | none =>
      right
      cases hxs.1 with
      | int i _ => cases hv
      | real x => exact ⟨x, by simp [firstNotFinite?, hv], hv⟩
    | some q =>
      rcases ih hxs.2 with ⟨qs, hqs⟩ | ⟨x, hx, hnone⟩
      · exact .inl ⟨q :: qs, .cons hv hqs⟩
      · exact .inr ⟨x, by simpa [firstNotFinite?, hv] using hx, hnone⟩

variable {kind : Kind} {outcome : Except Error Cone}

theorem judged_iff_of_indices (h : List.Forall₂ Indexes xs is) :
    Judged kind xs outcome ↔ outcome = .ok ⟨kind, is⟩ := by
  constructor
  · exact fun hjudged => hjudged.taken is h
  · rintro rfl
    exact ⟨fun js hjs => by rw [forall₂_indexes_unique h hjs], fun hnone => absurd ⟨is, h⟩ hnone⟩

theorem judged_iff_of_none (h : ¬∃ is, List.Forall₂ Indexes xs is) :
    Judged kind xs outcome ↔ ∃ fs, outcome = .error (.invalid fs) :=
  ⟨fun hjudged => hjudged.refused h, fun hout => ⟨fun is his => absurd ⟨is, his⟩ h, fun _ => hout⟩⟩

end

def wholePart (q : ℚ) : ℤ := Int.tdiv q.num q.den

theorem wholePart_intCast (i : ℤ) : wholePart i = i := by
  simp [wholePart]

theorem wholePart_neg_iff (q : ℚ) : wholePart q < 0 ↔ q ≤ -1 := by
  have hden : (0 : ℤ) < q.den := by exact_mod_cast q.den_pos
  have hle : q ≤ -1 ↔ q.num ≤ -q.den := by
    rw [Rat.le_iff]
    simp
  rw [hle, wholePart]
  rcases le_total 0 q.num with hnum | hnum
  · have hwhole := Int.tdiv_nonneg hnum hden.le
    omega
  · have hflip : Int.tdiv q.num q.den = -(-q.num / q.den) := by
      rw [← Int.tdiv_eq_ediv_of_nonneg (neg_nonneg.mpr hnum), Int.neg_tdiv, neg_neg]
    have hone : 1 ≤ -q.num / q.den ↔ 1 * (q.den : ℤ) ≤ -q.num := Int.le_ediv_iff_mul_le hden
    rw [hflip]
    omega

theorem forall_isAbove_iff {xs : List Value} {qs : List ℚ} (hqs : List.Forall₂ Denotes xs qs) :
    (∀ v ∈ xs, v.IsAbove) ↔ ∀ i ∈ qs.map wholePart, 0 ≤ i := by
  induction hqs with
  | nil => simp
  | @cons v q xs qs hv _ ih =>
    have hhead : v.IsAbove ↔ 0 ≤ wholePart q := by
      rw [← not_lt, wholePart_neg_iff, not_le]
      constructor
      · rintro ⟨r, hr, habove⟩
        rwa [hv.unique hr]
      · exact fun habove => ⟨q, hv, habove⟩
    rw [List.forall_mem_cons, List.map_cons, List.forall_mem_cons, ih, hhead]

theorem map_wholePart_of_indices {xs : List Value} {qs : List ℚ} {is : List ℕ}
    (hqs : List.Forall₂ Denotes xs qs) (his : List.Forall₂ Indexes xs is) :
    qs.map wholePart = is.map fun i : ℕ => (i : ℤ) := by
  rw [forall₂_denotes_unique hqs (forall₂_denotes_of_indexes his), List.map_map]
  exact List.map_congr_left fun i _ => wholePart_intCast i

end ConeLift.Value
