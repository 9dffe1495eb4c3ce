import Mathlib.Tactic
import ConeLift.Proofs.NearestWhole

namespace ConeLift.Binary

open Float.Model Float.Model.UnpackedFloat

def word (x : Float) : BitVec Format.binary64.numBits := x.toBits.toBitVec

def exponentField (x : Float) : ℕ := x.toBits.toNat / 2 ^ 52 % 2 ^ 11

/-- Zero, or a finite number with an exponent of at most `k`. -/
def Below (k : ℤ) : UnpackedFloat → Prop
  | .zero _ => True
  | .finite _ _ e _ => e ≤ k
  | _ => False

def Short (k : ℤ) : UnpackedFloat → Prop
  | .zero _ => True
  | .finite _ m e _ => m < 2 ^ 53 ∧ e ≤ k
  | _ => False

theorem Below.mono {k l : ℤ} (hkl : k ≤ l) {f : UnpackedFloat} (h : Below k f) : Below l f := by
  cases f with
  | zero s => trivial
  | finite s m e hm => exact le_trans h hkl
  | infinity s => exact h
  | notANumber => exact h

theorem log2_le_of_lt {m k : ℕ} (h : m < 2 ^ (k + 1)) : m.log2 ≤ k := by
  by_cases hm : m = 0
  · simp [hm]
  · exact Nat.lt_succ_iff.mp ((Nat.log2_lt hm).mpr h)

theorem log2_rounded {m k r : ℕ} (h : r ≤ m / 2 ^ k + 1) :
    (r.log2 : ℤ) ≤ max ((m.log2 : ℤ) - k + 1) 0 := by
  have hm : m < 2 ^ (m.log2 + 1) := Nat.lt_log2_self
  by_cases hk : k ≤ m.log2
  · obtain ⟨j, hj⟩ := Nat.exists_eq_add_of_le hk
    have hquotient : m / 2 ^ k < 2 ^ (j + 1) := by
      rw [Nat.div_lt_iff_lt_mul (by positivity), ← pow_add]
      rwa [hj, show k + j + 1 = j + 1 + k by omega] at hm
    have hdouble : 2 ^ (j + 1) < 2 ^ (j + 1 + 1) := Nat.pow_lt_pow_succ one_lt_two
    have hlog : r.log2 ≤ j + 1 := log2_le_of_lt (by omega)
    omega
  · have hquotient : m / 2 ^ k = 0 :=
      Nat.div_eq_of_lt (hm.trans_le (Nat.pow_le_pow_right two_pos (by omega)))
    have hlog : r.log2 ≤ 0 := log2_le_of_lt (by omega)
    omega

theorem shiftToTargetExponent_exact (m : ℕ) (e : ℤ) :
    ∃ em k, shiftToTargetExponent .binary64 m e .exact = (em, e + (k : ℕ)) ∧
      em.mantissa = m / 2 ^ k ∧ e + k = max e (max ((m.log2 : ℤ) + e - 52) (-1074)) := by
  have htarget : Format.binary64.targetExponent (totalExponent m e) =
      max ((m.log2 : ℤ) + 1 + e - 53) (-1074) := rfl
  refine ⟨_, (max ((m.log2 : ℤ) + 1 + e - 53) (-1074) - e).toNat, rfl, ?_, by omega⟩
  rw [htarget]
  exact shiftRight_mantissa _ _

theorem roundWithAccuracy_below (s : Sign) (m : ℕ) (e : ℤ) :
    Below (max (max e (-1074)) (m.log2 + e - 51)) (roundWithAccuracy .binary64 s m e .exact) := by
  obtain ⟨em, k, hfirst, hmantissa, hk⟩ := shiftToTargetExponent_exact m e
  obtain ⟨em', k', hsecond, _, hk'⟩ := shiftToTargetExponent_exact em.roundedMantissa (e + k)
  have hrounded := (roundedMantissa_bounds em).2
  rw [hmantissa] at hrounded
  have hlog := log2_rounded hrounded
  rw [roundWithAccuracy_of_shifts hfirst hsecond]
  by_cases hzero : em'.mantissa = 0
  · rw [dif_pos hzero]
    trivial
  · rw [dif_neg hzero]
    change e + k + k' ≤ _
    omega

theorem normalize_below (m e : ℤ) (s : Sign) :
    Below (max (max e (-1074)) (m.natAbs.log2 + e - 51))
      (UnpackedFloat.normalize .binary64 m e s) := by
  have hround (s : Sign) (m : ℕ) (hm : m ≠ 0) : Below (max (max e (-1074)) (m.log2 + e - 51))
      (UnpackedFloat.round .binary64 s m e) := by
    obtain ⟨k, hk⟩ : ∃ k : ℕ, UnpackedFloat.round .binary64 s m e =
        roundWithAccuracy .binary64 s (m <<< k) (e - k) .exact := ⟨_, rfl⟩
    have hlog : (m <<< k).log2 = m.log2 + k := by rw [Nat.shiftLeft_eq, log2_mul_pow hm]
    rw [hk]
    apply (roundWithAccuracy_below s (m <<< k) (e - k)).mono
    rw [hlog]
    push_cast
    omega
  rcases lt_trichotomy m 0 with hm | rfl | hm
  · have hcompare : compare m 0 = .lt := Int.compare_eq_lt.mpr hm
    rw [UnpackedFloat.normalize, hcompare]
    have habs : (-m).toNat = m.natAbs := by omega
    simpa only [habs] using hround .negative m.natAbs (by omega)
  · trivial
  · have hcompare : compare m 0 = .gt := Int.compare_eq_gt.mpr hm
    rw [UnpackedFloat.normalize, hcompare]
    have habs : m.toNat = m.natAbs := by omega
    simpa only [habs] using hround .positive m.natAbs (by omega)

theorem mul_below {f g : UnpackedFloat} {k l : ℤ} (hf : Short k f) (hg : Short l g) :
    Below (max (k + l + 54) (-1074)) (UnpackedFloat.mul .binary64 f g) := by
  cases f with
  | infinity s => exact hf.elim
  | notANumber => exact hf.elim
  | zero s =>
    cases g with
    | infinity s => exact hg.elim
    | notANumber => exact hg.elim
    | zero s => trivial
    | finite s m e hm => trivial
  | finite s m e hm =>
    cases g with
    | infinity s => exact hg.elim
    | notANumber => exact hg.elim
    | zero s => trivial
    | finite s' m' e' hm' =>
      apply (roundWithAccuracy_below (s * s') (m * m') (e + e')).mono
      have hproduct : m * m' < 2 ^ 53 * 2 ^ 53 := Nat.mul_lt_mul'' hf.1 hg.1
      have hlog : (m * m').log2 ≤ 105 := log2_le_of_lt hproduct
      obtain ⟨_, he⟩ := hf
      obtain ⟨_, he'⟩ := hg
      omega

theorem natAbs_shift_lt (s : Sign) {m : ℕ} (hm : m < 2 ^ 53) {e k : ℤ} (hk : e ≤ k)
    (l : ℤ) :
    (s.apply (decreaseExponent m e l).1).natAbs < 2 ^ (53 + (k - l).toNat) := by
  have hshift : (decreaseExponent m e l).1 = m * 2 ^ (e - l).toNat := Nat.shiftLeft_eq _ _
  have hsign : (s.apply (decreaseExponent m e l).1).natAbs = (decreaseExponent m e l).1 := by
    cases s with
    | positive => rfl
    | negative => exact Int.natAbs_neg _
  rw [hsign, hshift, pow_add]
  exact Nat.mul_lt_mul_of_lt_of_le hm (Nat.pow_le_pow_right two_pos (by omega)) (by positivity)

theorem add_below {f g : UnpackedFloat} {k l : ℤ} (hf : Short k f) (hg : Short l g) :
    Below (max (max k l + 2) (-1074)) (UnpackedFloat.add .binary64 f g) := by
  cases f with
  | infinity s => exact hf.elim
  | notANumber => exact hf.elim
  | zero s =>
    cases g with
    | infinity s => exact hg.elim
    | notANumber => exact hg.elim
    | zero s' =>
      cases s <;> cases s' <;> trivial
    | finite s m e hm =>
      have he : e ≤ l := hg.2
      change e ≤ _
      omega
  | finite s m e hm =>
    cases g with
    | infinity s => exact hg.elim
    | notANumber => exact hg.elim
    | zero s' =>
      have he : e ≤ k := hf.2
      change e ≤ _
      omega
    | finite s' m' e' hm' =>
      obtain ⟨hm, he⟩ := hf
      obtain ⟨hm', he'⟩ := hg
      have hleft := natAbs_shift_lt s hm (le_max_left e e') (min e e')
      have hright := natAbs_shift_lt s' hm' (le_max_right e e') (min e e')
      change Below _ (UnpackedFloat.normalize .binary64
        (s.apply (decreaseExponent m e (min e e')).1 +
          s'.apply (decreaseExponent m' e' (min e e')).1) (min e e') .positive)
      generalize s.apply (decreaseExponent m e (min e e')).1 = a at *
      generalize s'.apply (decreaseExponent m' e' (min e e')).1 = b at *
      have hsum : (a + b).natAbs < 2 ^ (53 + (max e e' - min e e').toNat + 1) := by
        have htriangle := Int.natAbs_add_le a b
        rw [pow_succ]
        omega
      have hlog := log2_le_of_lt hsum
      apply (normalize_below (a + b) (min e e') .positive).mono
      omega

theorem toNat_unpackExponent (x : Float) : (unpackExponent (word x)).toNat = exponentField x := by
  have hbits : (unpackExponent (word x)).toNat = x.toBits.toNat >>> 52 % 2 ^ 11 := rfl
  rw [hbits, Nat.shiftRight_eq_div_pow]
  rfl

theorem short_unpack {x : Float} {k : ℕ} (h : exponentField x ≤ k) (hpos : 0 < k)
    (hk : k ≤ 2046) : Short (k - 1075) x.toModel.unpack := by
  have hfield := toNat_unpackExponent x
  have hhigh : unpackExponent (word x) ≠ -1#11 := by
    intro he
    rw [he] at hfield
    change 2047 = exponentField x at hfield
    omega
  have hmantissa : (unpackMantissa (word x)).toNat < 2 ^ 52 := (unpackMantissa (word x)).isLt
  have hleading := (1#1 ++ unpackMantissa (word x)).isLt
  change Short _ (if unpackExponent (word x) = -1#11 then _
    else if unpackExponent (word x) = 0#11 then
      (if h : unpackMantissa (word x) = 0#52 then .zero _
      else .finite _ (unpackMantissa (word x)).toNat
        ((unpackExponent (word x)).toNat - (1023 + 52) + 1) _)
    else .finite _ (1#1 ++ unpackMantissa (word x)).toNat
      ((unpackExponent (word x)).toNat - (1023 + 52)) _)
  rw [if_neg hhigh]
  by_cases hlow : unpackExponent (word x) = 0#11
  · rw [if_pos hlow]
    by_cases hzero : unpackMantissa (word x) = 0#52
    · rw [dif_pos hzero]
      trivial
    · have hleast : (unpackExponent (word x)).toNat = 0 := by
        rw [hlow]
        rfl
      rw [dif_neg hzero]
      exact ⟨by omega, by omega⟩
  · rw [if_neg hlow]
    exact ⟨hleading, by omega⟩

theorem exponentField_pack {f : UnpackedFloat} {k : ℕ} (h : Below ((k : ℤ) - 1075) f)
    (hk : k ≤ 2046) : exponentField ⟨Float.Model.pack f⟩ ≤ k := by
  have hfield (s : Sign) (e : BitVec 11) (m : BitVec 52) :
      BitVec.toNat (packComponents .binary64 s e m) / 2 ^ 52 % 2 ^ 11 = e.toNat := by
    have he := e.isLt
    have hm := m.isLt
    rw [toNat_packComponents]
    omega
  have hbits : exponentField ⟨Float.Model.pack f⟩ =
      BitVec.toNat (UnpackedFloat.pack .binary64 f) / 2 ^ 52 % 2 ^ 11 := rfl
  rw [hbits]
  cases f with
  | infinity s => exact h.elim
  | notANumber => exact h.elim
  | zero s =>
    have hzero : BitVec.toNat (packComponents .binary64 s 0#11 0#52) / 2 ^ 52 % 2 ^ 11 ≤ k := by
      rw [hfield]
      exact Nat.zero_le k
    exact hzero
  | finite s m e hm =>
    have he : e ≤ k - 1075 := h
    change BitVec.toNat (if 2 ^ 11 ≤ (e + 1023 + 52).toNat + 1 then packedInfinity .binary64 s
      else if m.log2 + 1 = 53 then
        packComponents .binary64 s (BitVec.ofNat 11 (e + 1023 + 52).toNat) (BitVec.ofNat 52 m)
      else packComponents .binary64 s 0#11 (BitVec.ofNat 52 m)) / 2 ^ 52 % 2 ^ 11 ≤ k
    rw [if_neg (by norm_num; omega)]
    split
    · rw [hfield, BitVec.toNat_ofNat]
      omega
    · rw [hfield]
      exact Nat.zero_le k

theorem exponentField_mul {x y : Float} {k l b : ℕ} (hx : exponentField x ≤ k)
    (hy : exponentField y ≤ l) (hk : 0 < k ∧ k ≤ 2046) (hl : 0 < l ∧ l ≤ 2046)
    (hb : k + l ≤ b + 1021) (hpos : 0 < b) (hlimit : b ≤ 2046) : exponentField (x * y) ≤ b := by
  have hproduct := mul_below (short_unpack hx hk.1 hk.2) (short_unpack hy hl.1 hl.2)
  exact exponentField_pack (hproduct.mono (by omega)) hlimit

theorem exponentField_add {x y : Float} {k b : ℕ} (hx : exponentField x ≤ k)
    (hy : exponentField y ≤ k) (hk : 0 < k) (hb : k + 2 ≤ b) (hlimit : b ≤ 2046) :
    exponentField (x + y) ≤ b := by
  have hx := short_unpack hx hk (by omega)
  have hy := short_unpack hy hk (by omega)
  exact exponentField_pack ((add_below hx hy).mono (by omega)) hlimit

theorem isSome_exactValue? {x : Float} (h : exponentField x ≤ 2046) :
    (exactValue? x).isSome = true := by
  have hfinite : ¬exponentField x = infinityField := by
    change exponentField x ≠ 2047
    omega
  rw [exactValue?, ofFloat?, Option.isSome_map]
  change (if exponentField x = infinityField then none else _ : Option Binary).isSome = true
  rw [if_neg hfinite]
  split <;> rfl

/-- A number below one has a negative exponent. -/
theorem exponentField_le_of_unit {x : Float} {q : ℚ} (h : exactValue? x = some q) (h0 : 0 ≤ q)
    (h1 : q < 1) : exponentField x ≤ 1074 := by
  by_contra hlarge
  have hfinite : exponentField x ≠ infinityField := by
    intro hfield
    have hnone : ofFloat? x = none := if_pos hfield
    rw [exactValue?, hnone] at h
    cases h
  have hword : x.toBits.toNat = x.toBits.toNat / 2 ^ 63 * 2 ^ 63 + exponentField x * 2 ^ 52 +
      x.toBits.toNat % 2 ^ 52 := by
    rw [exponentField]
    omega
  have hlt : exponentField x < 2 ^ 11 := Nat.mod_lt _ (by norm_num)
  have hread := ofFloat?_of_word hword (by omega)
    (by change exponentField x ≠ 2047 at hfinite; omega) (Nat.mod_lt _ (by norm_num))
  have hexponent : (0 : ℤ) ≤ exponentField x - 1075 := by omega
  rw [exactValue?, hread, Option.map_some, toRat_of_nonneg _ _ hexponent] at h
  have hone : 1 ≤ (x.toBits.toNat % 2 ^ 52 + 2 ^ 52) * 2 ^ ((exponentField x : ℤ) - 1075).toNat :=
    Nat.mul_pos (by omega) (by positivity)
  have hone : (1 : ℚ) ≤ ((x.toBits.toNat % 2 ^ 52 + 2 ^ 52) *
      2 ^ ((exponentField x : ℤ) - 1075).toNat : ℕ) := by exact_mod_cast hone
  obtain rfl := Option.some.inj h
  split at h0
  · linarith
  · rename_i hsign
    rw [if_neg hsign] at h1
    linarith

end ConeLift.Binary
