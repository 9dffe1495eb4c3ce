import Mathlib.Data.Finset.Max
import ConeLift.Proofs.Boxes

namespace ConeLift

def anchor : Extended × Extended → ℚ
  | (.finite l, _) => l
  | (_, .finite u) => u
  | _ => 0

def HasOpenSide (b : Extended × Extended) : Prop :=
  Scalar.isFinite b.1 = false ∨ Scalar.isFinite b.2 = false

instance (b : Extended × Extended) : Decidable (HasOpenSide b) :=
  inferInstanceAs (Decidable (_ ∨ _))

theorem Regular.cases {b : Extended × Extended} (hb : Regular b) :
    (∃ l u, b = (.finite l, .finite u)) ∨ (∃ l, b = (.finite l, .infinity)) ∨
      (∃ u, b = (.negInfinity, .finite u)) ∨ b = (.negInfinity, .infinity) := by
  obtain ⟨lo, hi⟩ := b
  obtain ⟨hlo, hlo', hhi, hhi'⟩ := hb
  cases lo with
  | undefined => exact absurd rfl hlo
  | infinity => exact absurd rfl hlo'
  | finite l =>
    cases hi with
    | undefined => exact absurd rfl hhi
    | negInfinity => exact absurd rfl hhi'
    | finite u => exact .inl ⟨l, u, rfl⟩
    | infinity => exact .inr (.inl ⟨l, rfl⟩)
  | negInfinity =>
    cases hi with
    | undefined => exact absurd rfl hhi
    | negInfinity => exact absurd rfl hhi'
    | finite u => exact .inr (.inr (.inl ⟨u, rfl⟩))
    | infinity => exact .inr (.inr (.inr rfl))

section

variable (limit : ℚ)

theorem boxPair_finite (l u : ℚ) : boxPair limit (.finite l, .finite u) = (.finite l, .finite u) :=
  rfl

theorem boxPair_above (l : ℚ) :
    boxPair limit (.finite l, .infinity) = (.finite l, .finite (l + limit)) := rfl

theorem boxPair_below (u : ℚ) :
    boxPair limit (.negInfinity, .finite u) = (.finite (u - limit), .finite u) := by
  rw [← Extended.finite_sub]
  rfl

theorem boxPair_free :
    boxPair limit (.negInfinity, .infinity) = (.finite (0 - limit), .finite (0 + limit)) := by
  rw [← Extended.finite_sub]
  rfl

end

theorem not_hasOpenSide_finite (l u : ℚ) : ¬HasOpenSide (.finite l, .finite u) := by
  rintro (h | h) <;> cases h

@[simp] theorem hasOpenSide_above (l : ℚ) : HasOpenSide (.finite l, .infinity) := .inr rfl

@[simp] theorem hasOpenSide_below (u : ℚ) : HasOpenSide (.negInfinity, .finite u) := .inl rfl

@[simp] theorem hasOpenSide_free : HasOpenSide (.negInfinity, .infinity) := .inl rfl

@[simp] theorem anchor_above (l : ℚ) : anchor (.finite l, .infinity) = l := rfl

@[simp] theorem anchor_below (u : ℚ) : anchor (.negInfinity, .finite u) = u := rfl

@[simp] theorem anchor_free : anchor (.negInfinity, .infinity) = 0 := rfl

section

variable {b : Extended × Extended} {limit margin v : ℚ}

theorem within_box_iff (hb : Regular b) :
    Within (boxPair limit b) (.finite v) ↔
      Within b (.finite v) ∧ (HasOpenSide b → |v - anchor b| ≤ limit) := by
  rcases hb.cases with ⟨l, u, rfl⟩ | ⟨l, rfl⟩ | ⟨u, rfl⟩ | rfl
  · rw [boxPair_finite, and_iff_left]
    exact fun h => absurd h (not_hasOpenSide_finite l u)
  · simp only [boxPair_above, Within, Extended.le_finite_iff, Extended.le_infinity, and_true,
      hasOpenSide_above, true_implies, anchor_above]
    refine and_congr_right fun hle => ?_
    rw [abs_of_nonneg (sub_nonneg.mpr hle), sub_le_iff_le_add']
  · simp only [boxPair_below, Within, Extended.le_finite_iff, Extended.negInfinity_le, true_and,
      hasOpenSide_below, true_implies, anchor_below]
    rw [and_comm]
    refine and_congr_right fun hle => ?_
    rw [abs_of_nonpos (sub_nonpos.mpr hle), neg_sub, sub_le_comm]
  · simp only [boxPair_free, Within, Extended.le_finite_iff, Extended.negInfinity_le,
      Extended.le_infinity, true_and, hasOpenSide_free, true_implies, anchor_free]
    rw [sub_zero, abs_le, zero_sub, zero_add]

theorem atSide_iff (hb : Regular b) (hv : Within b (.finite v)) :
    Program.atSide (.finite margin) (.finite v) b (boxPair limit b) = true ↔
      HasOpenSide b ∧ limit - margin ≤ |v - anchor b| := by
  have habove : Scalar.isFinite Extended.infinity = false := rfl
  have hbelow : Scalar.isFinite Extended.negInfinity = false := rfl
  rcases hb.cases with ⟨l, u, rfl⟩ | ⟨l, rfl⟩ | ⟨u, rfl⟩ | rfl
  · exact iff_of_false Bool.false_ne_true fun h => not_hasOpenSide_finite l u h.1
  · have hle : l ≤ v := (Extended.le_finite_iff l v).mp hv.1
    simp only [Program.atSide, boxPair_above, habove, isFinite_finite, Bool.not_false,
      Bool.true_and, Bool.not_true, Bool.false_and, Bool.or_false, Extended.finite_sub,
      Extended.le_finite_iff, hasOpenSide_above, true_and, anchor_above]
    rw [abs_of_nonneg (sub_nonneg.mpr hle)]
    constructor <;> intro h <;> linarith
  · have hle : v ≤ u := (Extended.le_finite_iff v u).mp hv.2
    simp only [Program.atSide, boxPair_below, hbelow, isFinite_finite, Bool.not_false,
      Bool.true_and, Bool.not_true, Bool.false_and, Bool.false_or, Extended.finite_add,
      Extended.le_finite_iff, hasOpenSide_below, true_and, anchor_below]
    rw [abs_of_nonpos (sub_nonpos.mpr hle)]
    constructor <;> intro h <;> linarith
  · simp only [Program.atSide, boxPair_free, habove, hbelow, Bool.not_false, Bool.true_and,
      Bool.or_eq_true, Extended.finite_sub, Extended.finite_add, Extended.le_finite_iff,
      hasOpenSide_free, true_and, anchor_free, le_abs]
    constructor
    · rintro (h | h)
      · exact .inl (by linarith)
      · exact .inr (by linarith)
    · rintro (h | h)
      · exact .inl (by linarith)
      · exact .inr (by linarith)

end

namespace Program

variable {p : Program Extended} {limit : ℚ} {z : List ℚ}

def boxed (p : Program Extended) (limit : ℚ) : Bounds Extended :=
  .tabulate p.cost.length fun j => boxPair limit (p.columns.pair j)

def openColumns (p : Program Extended) : Finset ℕ :=
  (Finset.range p.cost.length).filter fun j => HasOpenSide (p.columns.pair j)

def reach (p : Program Extended) (z : List ℚ) (j : ℕ) : ℚ :=
  |coord z j - anchor (p.columns.pair j)|

def Near (p : Program Extended) (r : ℚ) (z : List ℚ) : Prop :=
  ∀ j ∈ p.openColumns, p.reach z j ≤ r

def BoxOptimum (p : Program Extended) (limit : ℚ) (z : List ℚ) : Prop :=
  Minimizer (fun w => p.Satisfied w ∧ p.Near limit w) p.signedCost z

def Presses (p : Program Extended) (limit : ℚ) (z : List ℚ) : Prop :=
  ∃ j ∈ p.openColumns, limit - limit / 100 ≤ p.reach z j

theorem mem_openColumns {j : ℕ} :
    j ∈ p.openColumns ↔ j < p.cost.length ∧ HasOpenSide (p.columns.pair j) := by
  rw [openColumns, Finset.mem_filter, Finset.mem_range]

theorem Shaped.columns_eq (hp : p.Shaped) :
    p.columns = .tabulate p.cost.length p.columns.pair :=
  p.columns.eq_tabulate hp.lower hp.upper

theorem Shaped.box_eq (hp : p.Shaped) (limit : ℚ) :
    p.columns.box (.finite limit) = .ok (p.boxed limit) := by
  rw [hp.columns_eq, Bounds.box_tabulate]
  rfl

theorem Shaped.hold_iff (hp : p.Shaped) :
    p.columns.Hold (finites z) ↔ z.length = p.cost.length ∧
      ∀ j < p.cost.length, Within (p.columns.pair j) (.finite (coord z j)) := by
  rw [← Bounds.hold_tabulate, ← hp.columns_eq]

theorem Shaped.boxed_hold_iff (hp : p.Shaped)
    (hb : ∀ j < p.cost.length, Regular (p.columns.pair j)) :
    (p.boxed limit).Hold (finites z) ↔ p.columns.Hold (finites z) ∧ p.Near limit z := by
  rw [boxed, Bounds.hold_tabulate, hp.hold_iff]
  constructor
  · rintro ⟨hlength, hwithin⟩
    have hboth := fun j hj => (within_box_iff (hb j hj)).mp (hwithin j hj)
    refine ⟨⟨hlength, fun j hj => (hboth j hj).1⟩, ?_⟩
    intro j hj
    obtain ⟨hj, hopen⟩ := mem_openColumns.mp hj
    exact (hboth j hj).2 hopen
  · rintro ⟨⟨hlength, hwithin⟩, hnear⟩
    refine ⟨hlength, ?_⟩
    intro j hj
    rw [within_box_iff (hb j hj)]
    exact ⟨hwithin j hj, fun hopen => hnear j (mem_openColumns.mpr ⟨hj, hopen⟩)⟩

theorem Shaped.boxed_satisfied_iff (hp : p.Shaped)
    (hb : ∀ j < p.cost.length, Regular (p.columns.pair j)) (limit : ℚ) (z : List ℚ) :
    (p.boxed limit).Hold (finites z) ∧ p.Satisfied z ↔ p.Satisfied z ∧ p.Near limit z := by
  rw [hp.boxed_hold_iff hb]
  constructor
  · rintro ⟨⟨_, hnear⟩, hz⟩
    exact ⟨hz, hnear⟩
  · rintro ⟨hz, hnear⟩
    exact ⟨⟨hz.columns, hnear⟩, hz⟩

theorem Shaped.exists_pressesBox (hp : p.Shaped)
    (hb : ∀ j < p.cost.length, Regular (p.columns.pair j)) (hz : p.columns.Hold (finites z))
    (limit : ℚ) :
    ∃ presses, p.pressesBox (p.boxed limit) (.finite limit) (some (finites z)) = .ok presses ∧
      (presses = true ↔ p.Presses limit z) := by
  obtain ⟨hlength, hwithin⟩ := hp.hold_iff.mp hz
  refine ⟨_, pressesBox_eq _ hp.columns_eq hlength, ?_⟩
  rw [List.any_eq_true]
  constructor
  · rintro ⟨j, hj, hside⟩
    have hj := List.mem_range.mp hj
    obtain ⟨hopen, hfar⟩ := (atSide_iff (hb j hj) (hwithin j hj)).mp hside
    exact ⟨j, mem_openColumns.mpr ⟨hj, hopen⟩, hfar⟩
  · rintro ⟨j, hj, hfar⟩
    obtain ⟨hj, hopen⟩ := mem_openColumns.mp hj
    refine ⟨j, List.mem_range.mpr hj, ?_⟩
    exact (atSide_iff (hb j hj) (hwithin j hj)).mpr ⟨hopen, hfar⟩

theorem Near.not_presses (h : p.Near 0 z) (hlimit : 0 < limit) : ¬p.Presses limit z := by
  rintro ⟨j, hj, hfar⟩
  have hle := h j hj
  linarith

theorem exists_presses (h : ¬p.Near 0 z) :
    ∃ limit, 0 < limit ∧ p.Near limit z ∧ p.Presses limit z := by
  simp only [Near, not_forall, not_le] at h
  obtain ⟨i, hi, hpos⟩ := h
  -- The limit is the distance of the variable that is furthest out.
  obtain ⟨j, hj, hmax⟩ := Finset.exists_max_image p.openColumns (p.reach z) ⟨i, hi⟩
  have hreach : 0 < p.reach z j := hpos.trans_le (hmax i hi)
  refine ⟨p.reach z j, hreach, hmax, j, hj, ?_⟩
  linarith

end Program

end ConeLift
