import Mathlib.Tactic
import ConeLift.Decimal.Binary

/-!
The machine number nearest to a whole number. It has a mantissa of 53 digits; what does not fit is
rounded away from a whole number above `2 ^ 53`, so that what remains is whole, of the same sign, and
unchanged below.
-/

namespace ConeLift

open Float.Model Float.Model.UnpackedFloat

namespace Binary

theorem shiftRight_mantissa (em : ExtendedMantissa) (k : ℕ) :
    (em >>> k).mantissa = em.mantissa / 2 ^ k := by
  induction k with
  | zero => simp [HShiftRight.hShiftRight, Nat.repeat]
  | succ k ih =>
    have hstep : (em >>> (k + 1)).mantissa = (em >>> k).mantissa / 2 := rfl
    rw [hstep, ih, Nat.div_div_eq_div_mul, pow_succ]

theorem shiftRight_mul_pow (m k : ℕ) :
    (ExtendedMantissa.mk (m * 2 ^ k) false false) >>> k = ⟨m, false, false⟩ := by
  induction k generalizing m with
  | zero => simp [HShiftRight.hShiftRight, Nat.repeat]
  | succ k ih =>
    have hdouble : m * 2 ^ (k + 1) = m * 2 * 2 ^ k := by ring
    have hstep : (ExtendedMantissa.mk (m * 2 * 2 ^ k) false false) >>> (k + 1) =
        ((ExtendedMantissa.mk (m * 2 * 2 ^ k) false false) >>> k).shiftRightOne := rfl
    rw [hdouble, hstep, ih]
    simp [ExtendedMantissa.shiftRightOne]

theorem roundedMantissa_bounds (em : ExtendedMantissa) :
    em.mantissa ≤ em.roundedMantissa ∧ em.roundedMantissa ≤ em.mantissa + 1 := by
  obtain ⟨m, r, s⟩ := em
  cases r <;> cases s <;>
    simp [ExtendedMantissa.roundedMantissa, ExtendedMantissa.accuracy,
      Accuracy.roundToNearestEven]
  omega

theorem targetExponent_of_le {m : ℕ} {e : ℤ} (h : -1022 ≤ (m.log2 : ℤ) + e) :
    Format.binary64.targetExponent (totalExponent m e) = m.log2 + e - 52 := by
  have hdef : Format.binary64.targetExponent (totalExponent m e) =
      max ((m.log2 : ℤ) + 1 + e - 53) (-1074) := rfl
  omega

theorem log2_mul_pow {m : ℕ} (hm : m ≠ 0) (k : ℕ) : (m * 2 ^ k).log2 = m.log2 + k := by
  rw [Nat.log2_eq_iff (by positivity)]
  obtain ⟨hl, hu⟩ := (Nat.log2_eq_iff hm).mp rfl
  constructor
  · rw [pow_add]
    exact Nat.mul_le_mul_right _ hl
  · rw [show m.log2 + k + 1 = m.log2 + 1 + k by ring, pow_add]
    exact Nat.mul_lt_mul_of_pos_right hu (by positivity)

theorem shiftToTargetExponent_of_log2 {m : ℕ} (hm : m.log2 = 52) {e : ℤ} (he : -1074 ≤ e) (k : ℕ) :
    shiftToTargetExponent .binary64 (m * 2 ^ k) (e - k) .exact = (⟨m, false, false⟩, e) := by
  have hzero : m ≠ 0 := by
    rintro rfl
    simp at hm
  have hlog := log2_mul_pow hzero k
  have htarget := targetExponent_of_le (m := m * 2 ^ k) (e := e - k) (by omega)
  have htarget' : Format.binary64.targetExponent (totalExponent (m * 2 ^ k) (e - k)) = e := by
    rw [htarget, hlog]
    push_cast
    omega
  have hshift : (e - (e - k)).toNat = k := by omega
  simp only [shiftToTargetExponent, htarget', shiftToExponent, hshift,
    ExtendedMantissa.ofMantissaAndAccuracy, shiftRight_mul_pow]
  simp

theorem roundWithAccuracy_of_shifts {m : ℕ} {e e₁ e' : ℤ} {em em' : ExtendedMantissa}
    (hfirst : shiftToTargetExponent .binary64 m e .exact = (em, e₁))
    (hsecond : shiftToTargetExponent .binary64 em.roundedMantissa e₁ .exact = (em', e')) (s : Sign) :
    roundWithAccuracy .binary64 s m e .exact =
      if h : em'.mantissa = 0 then .zero s
      else .finite s em'.mantissa e' (Nat.pos_of_ne_zero h) := by
  rw [roundWithAccuracy, hfirst]
  change (match shiftToTargetExponent .binary64 em.roundedMantissa e₁ .exact with
    | (rounded, exponent) =>
      if h : rounded.mantissa = 0 then UnpackedFloat.zero s
      else .finite s rounded.mantissa exponent (Nat.pos_of_ne_zero h)) = _
  rw [hsecond]

theorem roundWithAccuracy_eq {m m' : ℕ} {e e₁ e' : ℤ} {em : ExtendedMantissa}
    (hfirst : shiftToTargetExponent .binary64 m e .exact = (em, e₁))
    (hsecond : shiftToTargetExponent .binary64 em.roundedMantissa e₁ .exact =
      (⟨m', false, false⟩, e')) (hpos : 0 < m') (s : Sign) :
    roundWithAccuracy .binary64 s m e .exact = .finite s m' e' hpos :=
  (roundWithAccuracy_of_shifts hfirst hsecond s).trans (dif_neg hpos.ne')

theorem roundWithAccuracy_of_log2 {m : ℕ} (hm : m.log2 = 52) {e : ℤ} (he : -1074 ≤ e) (k : ℕ)
    (hpos : 0 < m) (s : Sign) :
    roundWithAccuracy .binary64 s (m * 2 ^ k) (e - k) .exact = .finite s m e hpos := by
  have hagain := shiftToTargetExponent_of_log2 hm he 0
  simp only [pow_zero, mul_one, Nat.cast_zero, sub_zero] at hagain
  exact roundWithAccuracy_eq (shiftToTargetExponent_of_log2 hm he k) hagain hpos s

theorem exists_roundWithAccuracy {m : ℕ} (hm : 52 ≤ m.log2) {e : ℤ} (he : -1022 ≤ m.log2 + e) :
    ∃ m' e' hpos, roundWithAccuracy .binary64 .positive m e .exact = .finite .positive m' e' hpos ∧
      m'.log2 = 52 ∧ (e' = m.log2 + e - 52 ∨ e' = m.log2 + e - 51) := by
  have hzero : m ≠ 0 := by
    rintro rfl
    simp at hm
  obtain ⟨k, hk⟩ := Nat.exists_eq_add_of_le hm
  obtain ⟨hl, hu⟩ := (Nat.log2_eq_iff hzero).mp hk
  have hlower : 2 ^ 52 ≤ m / 2 ^ k := by
    rwa [Nat.le_div_iff_mul_le (by positivity), ← pow_add]
  have hupper : m / 2 ^ k < 2 ^ 53 := by
    rwa [Nat.div_lt_iff_lt_mul (by positivity), ← pow_add, show 53 + k = 52 + k + 1 by ring]
  obtain ⟨em, hem, hmantissa⟩ : ∃ em, shiftToTargetExponent .binary64 m e .exact =
      (em, (m.log2 : ℤ) + e - 52) ∧ em.mantissa = m / 2 ^ k := by
    have hshift : ((m.log2 : ℤ) + e - 52 - e).toNat = k := by omega
    simp only [shiftToTargetExponent, targetExponent_of_le he, shiftToExponent, hshift]
    exact ⟨_, Prod.ext rfl (by omega), shiftRight_mantissa _ _⟩
  obtain ⟨hrl, hru⟩ := roundedMantissa_bounds em
  rw [hmantissa] at hrl hru
  by_cases hcarry : em.roundedMantissa = 2 ^ 53
  · -- Rounding up to a power of two takes one more shift.
    have hagain := shiftToTargetExponent_of_log2 (m := 2 ^ 52) Nat.log2_two_pow
      (e := (m.log2 : ℤ) + e - 51) (by omega) 1
    have hexponent : (m.log2 : ℤ) + e - 51 - (1 : ℕ) = m.log2 + e - 52 := by
      push_cast
      ring
    have hdouble : 2 ^ 52 * 2 ^ 1 = em.roundedMantissa := hcarry.symm
    rw [hexponent, hdouble] at hagain
    exact ⟨2 ^ 52, _, by positivity, roundWithAccuracy_eq hem hagain _ _, Nat.log2_two_pow,
      .inr rfl⟩
  · have hpos : em.roundedMantissa ≠ 0 := by omega
    have hlog : em.roundedMantissa.log2 = 52 :=
      (Nat.log2_eq_iff hpos).mpr ⟨by omega, by omega⟩
    have hagain := shiftToTargetExponent_of_log2 hlog (e := (m.log2 : ℤ) + e - 52) (by omega) 0
    simp only [pow_zero, mul_one, Nat.cast_zero, sub_zero] at hagain
    exact ⟨_, _, Nat.pos_of_ne_zero hpos, roundWithAccuracy_eq hem hagain _ _, hlog, .inl rfl⟩

theorem toNat_packComponents (s : Sign) (e : BitVec 11) (m : BitVec 52) :
    BitVec.toNat (packComponents .binary64 s e m) =
      s.toBitVec.toNat * 2 ^ 63 + e.toNat * 2 ^ 52 + m.toNat := by
  have hfields : packComponents .binary64 s e m = s.toBitVec ++ e ++ m := rfl
  rw [hfields, BitVec.toNat_append, BitVec.toNat_append, ← Nat.shiftLeft_add_eq_or_of_lt m.isLt,
    ← Nat.shiftLeft_add_eq_or_of_lt e.isLt]
  simp only [Nat.shiftLeft_eq]
  ring

theorem ofFloat?_of_word {x : Float} {σ b f : ℕ}
    (h : x.toBits.toNat = σ * 2 ^ 63 + b * 2 ^ 52 + f) (hb : 0 < b) (hb' : b < 2047)
    (hf : f < 2 ^ 52) : ofFloat? x = some ⟨decide (σ = 1), f + 2 ^ 52, (b : ℤ) - 1075⟩ := by
  have hsign : x.toBits.toNat / Nat.pow 2 63 = σ := by
    change x.toBits.toNat / 9223372036854775808 = σ
    omega
  have hfield : x.toBits.toNat / Nat.pow 2 52 % Nat.pow 2 11 = b := by
    change x.toBits.toNat / 4503599627370496 % 2048 = b
    omega
  have hfraction : x.toBits.toNat % Nat.pow 2 52 = f := by
    change x.toBits.toNat % 4503599627370496 = f
    omega
  have hfinite : b ≠ infinityField := hb'.ne
  simp only [ofFloat?, hsign, hfield, hfraction, hfinite, hb.ne', if_false]
  rfl

theorem ofBitVec_unpackSign (s : Sign) (e : BitVec 11) (m : BitVec 52) :
    Sign.ofBitVec (unpackSign (packComponents .binary64 s e m)) = s := by
  have hsign : unpackSign (packComponents .binary64 s e m) = s.toBitVec := by
    apply BitVec.eq_of_toNat_eq
    have hbit : (unpackSign (packComponents .binary64 s e m)).toNat =
        BitVec.toNat (packComponents .binary64 s e m) >>> 63 % 2 ^ 1 := rfl
    have hlt := s.toBitVec.isLt
    have he := e.isLt
    have hm := m.isLt
    rw [hbit, toNat_packComponents, Nat.shiftRight_eq_div_pow]
    omega
  rw [hsign]
  cases s <;> rfl

theorem unpack_of_normal {b : BitVec Format.binary64.numBits} (hlow : unpackExponent b ≠ 0#11)
    (hhigh : unpackExponent b ≠ -1#11) {s : Sign} {m : ℕ} {e : ℤ} (hpos : 0 < m)
    (hsign : Sign.ofBitVec (unpackSign b) = s) (hmantissa : (1#1 ++ unpackMantissa b).toNat = m)
    (hexponent : ((unpackExponent b).toNat : ℤ) - (1023 + 52) = e) :
    UnpackedFloat.unpack .binary64 b = .finite s m e hpos := by
  subst hsign hmantissa hexponent
  exact (if_neg hhigh).trans (dif_neg hlow)

def isNegative : Sign → Bool
  | .negative => true
  | .positive => false

theorem pack_of_log2 (s : Sign) {m b : ℕ} {e : ℤ} (hpos : 0 < m) (hm : m.log2 = 52)
    (hb : (b : ℤ) = e + 1075) (hb' : b < 2047) :
    UnpackedFloat.pack .binary64 (.finite s m e hpos) =
      packComponents .binary64 s (BitVec.ofNat 11 b) (BitVec.ofNat 52 m) := by
  have hpack : UnpackedFloat.pack .binary64 (.finite s m e hpos) =
      if 2 ^ 11 ≤ (e + 1023 + 52).toNat + 1 then packedInfinity .binary64 s
      else if m.log2 + 1 = 53 then
        packComponents .binary64 s (BitVec.ofNat 11 (e + 1023 + 52).toNat) (BitVec.ofNat 52 m)
      else packComponents .binary64 s 0#11 (BitVec.ofNat 52 m) := rfl
  have hfield : (e + 1023 + 52).toNat = b := by omega
  rw [hpack, hfield, hm, if_neg (by norm_num; omega), if_pos rfl]

theorem ofFloat?_pack (s : Sign) {m : ℕ} {e : ℤ} (hpos : 0 < m) (hm : m.log2 = 52)
    (hl : -1074 ≤ e) (hu : e ≤ 971) :
    ofFloat? ⟨Float.Model.pack (.finite s m e hpos)⟩ = some ⟨isNegative s, m, e⟩ := by
  obtain ⟨hlower, hupper⟩ := (Nat.log2_eq_iff hpos.ne').mp hm
  obtain ⟨b, hb⟩ : ∃ b : ℕ, (b : ℤ) = e + 1075 := ⟨(e + 1075).toNat, by omega⟩
  have hword : (Float.toBits ⟨Float.Model.pack (.finite s m e hpos)⟩).toNat =
      s.toBitVec.toNat * 2 ^ 63 + b * 2 ^ 52 + (m - 2 ^ 52) := by
    have hbits : (Float.toBits ⟨Float.Model.pack (.finite s m e hpos)⟩).toNat =
      BitVec.toNat (UnpackedFloat.pack .binary64 (.finite s m e hpos)) := rfl
    rw [hbits, pack_of_log2 s hpos hm hb (by omega), toNat_packComponents, BitVec.toNat_ofNat,
      BitVec.toNat_ofNat]
    omega
  rw [ofFloat?_of_word hword (by omega) (by omega) (by omega), Nat.sub_add_cancel hlower]
  have hexponent : (b : ℤ) - 1075 = e := by omega
  rw [hexponent]
  cases s <;> rfl

theorem unpack_pack (s : Sign) {m : ℕ} {e : ℤ} (hpos : 0 < m) (hm : m.log2 = 52)
    (hl : -1074 ≤ e) (hu : e ≤ 971) :
    (Float.Model.pack (.finite s m e hpos)).unpack = .finite s m e hpos := by
  obtain ⟨hlower, hupper⟩ := (Nat.log2_eq_iff hpos.ne').mp hm
  obtain ⟨b, hb⟩ : ∃ b : ℕ, (b : ℤ) = e + 1075 := ⟨(e + 1075).toNat, by omega⟩
  have hfield : (BitVec.ofNat 11 b).toNat = b := by
    rw [BitVec.toNat_ofNat]
    omega
  have hmantissa : (1#1 ++ BitVec.ofNat 52 m).toNat = m := by
    rw [BitVec.toNat_append, ← Nat.shiftLeft_add_eq_or_of_lt (BitVec.isLt _), BitVec.toNat_ofNat]
    simp only [Nat.shiftLeft_eq]
    change 1 * 4503599627370496 + m % 4503599627370496 = m
    omega
  have hone : BitVec.ofNat 11 b ≠ -1#11 := by
    intro h
    rw [h] at hfield
    change 2047 = b at hfield
    omega
  have hzero : BitVec.ofNat 11 b ≠ 0#11 := by
    intro h
    rw [h] at hfield
    change 0 = b at hfield
    omega
  have hunpack : (Float.Model.pack (.finite s m e hpos)).unpack =
    UnpackedFloat.unpack .binary64 (UnpackedFloat.pack .binary64 (.finite s m e hpos)) := rfl
  rw [hunpack, pack_of_log2 s hpos hm hb (by omega)]
  apply unpack_of_normal
  · rwa [unpackExponent_packComponents]
  · rwa [unpackExponent_packComponents]
  · exact ofBitVec_unpackSign s _ _
  · rwa [unpackMantissa_packComponents]
  · rw [unpackExponent_packComponents, hfield]
    omega

theorem round_of_lt {n : ℕ} (hpos : 0 < n) (h : n < 2 ^ 53) :
    ∃ (k : ℕ) (hm : _), UnpackedFloat.round .binary64 .positive n 0 =
      .finite .positive (n * 2 ^ k) (-k : ℤ) hm ∧ (n * 2 ^ k).log2 = 52 ∧ k ≤ 52 := by
  have hlog : n.log2 < 53 := (Nat.log2_lt hpos.ne').mpr h
  obtain ⟨k, hk⟩ := Nat.exists_eq_add_of_le (Nat.lt_succ_iff.mp hlog)
  have hm : (n * 2 ^ k).log2 = 52 := by rw [log2_mul_pow hpos.ne', ← hk]
  have htarget : Format.binary64.targetExponent (totalExponent n 0) = -k := by
    rw [targetExponent_of_le (by omega)]
    omega
  have hexact := roundWithAccuracy_of_log2 hm (e := -k) (by omega) 0 (by positivity) .positive
  have hshift : (- -(k : ℤ)).toNat = k := by omega
  refine ⟨k, by positivity, ?_, hm, by omega⟩
  rw [← hexact]
  simp only [UnpackedFloat.round, decreaseExponent, htarget, hshift, Nat.shiftLeft_eq, pow_zero,
    mul_one, Nat.cast_zero, sub_zero, zero_sub]

theorem toFloat_of_lt {n : ℕ} (hpos : 0 < n) (h : n < 2 ^ 53) :
    n.toUInt64.toFloat = ⟨Float.Model.pack (UnpackedFloat.round .binary64 .positive n 0)⟩ := by
  have hword : n.toUInt64.toNat = n := by
    rw [Nat.toUInt64, UInt64.toNat_ofNat']
    omega
  have hcompare : compare (n : ℤ) 0 = .gt := Int.compare_eq_gt.mpr (by omega)
  have hnormalize : UnpackedFloat.ofUInt64 .binary64 n.toUInt64 =
        UnpackedFloat.round .binary64 .positive n 0 := by
    simp only [UnpackedFloat.ofUInt64, UnpackedFloat.ofNat, UnpackedFloat.ofInt,
      UnpackedFloat.normalize, hword,
      hcompare, Int.toNat_natCast]
  simp only [UInt64.toFloat, Float.Model.ofUInt64, hnormalize]

theorem mul_positive {m m' : ℕ} {e e' : ℤ} (hpos : 0 < m) (hpos' : 0 < m') :
    UnpackedFloat.mul .binary64 (.finite .positive m e hpos) (.finite .positive m' e' hpos') =
      roundWithAccuracy .binary64 .positive (m * m') (e + e') .exact := rfl

theorem ofNat_of_lt {n : ℕ} (hpos : 0 < n) (h : n < 2 ^ 53) :
    ∃ (k : ℕ) (hm : _),
      Float.ofNat n = ⟨Float.Model.pack (.finite .positive (n * 2 ^ k) (-k : ℤ) hm)⟩ ∧
        (n * 2 ^ k).log2 = 52 ∧ k ≤ 52 := by
  obtain ⟨k, hm, hround, hlog, hk⟩ := round_of_lt hpos h
  refine ⟨k, hm, ?_, hlog, hk⟩
  have hscaled : Float.ofNat n = n.toUInt64.toFloat * Float.exactlyRepresentablePowersOfTen[0] := by
    have hsmall : n < 2 ^ 53 ∧ 0 ≤ 22 := ⟨h, by decide⟩
    change Float.ofScientific n false 0 = _
    rw [Float.ofScientific, dif_pos hsmall]
    rfl
  have hone : (Float.exactlyRepresentablePowersOfTen[0]).toModel.unpack =
      .finite .positive (2 ^ 52) (-52) (by decide) := rfl
  have hunpacked := unpack_pack .positive hm hlog (e := -k) (by omega) (by omega)
  have hproduct := roundWithAccuracy_of_log2 hlog (e := -k) (by omega) 52 hm .positive
  rw [hscaled, toFloat_of_lt hpos h, hround]
  change Float.mul _ _ = _
  rw [Float.mul]
  change (⟨Float.Model.mul _ _⟩ : Float) = _
  rw [Float.Model.mul, hunpacked, hone, mul_positive]
  exact congrArg (fun f => (⟨Float.Model.pack f⟩ : Float)) hproduct

theorem ofNat_of_ge {n : ℕ} (hl : 2 ^ 53 ≤ n) (hu : n < 2 ^ 63) :
    ∃ m e hm, Float.ofNat n = ⟨Float.Model.pack (.finite .positive m e hm)⟩ ∧ m.log2 = 52 ∧
      0 ≤ e ∧ e ≤ 11 := by
  have hpos : n ≠ 0 := by omega
  have hlog : (n * 2 ^ 53).log2 = n.log2 + 53 := log2_mul_pow hpos 53
  have hlower : 53 ≤ n.log2 := (Nat.le_log2 hpos).mpr hl
  have hupper : n.log2 < 63 := (Nat.log2_lt hpos).mpr hu
  obtain ⟨m, e, hm, hround, hdigits, he⟩ :=
    exists_roundWithAccuracy (m := n * 2 ^ 53) (e := -53) (by omega) (by omega)
  refine ⟨m, e, hm, ?_, hdigits, by omega, by omega⟩
  have hlarge : ¬(n < 2 ^ 53 ∧ 0 ≤ 22) := by omega
  change Float.ofScientific n false 0 = _
  rw [Float.ofScientific, dif_neg hlarge]
  have hnear : ¬(0 : ℤ) < -(2 ^ Format.binary64.exponentBits + n.log2) := by
    have hbits : (0 : ℤ) ≤ 2 ^ Format.binary64.exponentBits := by positivity
    omega
  have hfactors : UnpackedFloat.ofScientific .binary64 n 0 = .finite .positive m e hm := by
    rw [UnpackedFloat.ofScientific, dif_neg hpos, if_neg (by norm_num), if_neg hnear, if_pos le_rfl,
      mul_positive, ← hround]
    have hbits : Format.binary64.mantissaBits = 53 := rfl
    have hmantissa : n <<< Format.binary64.mantissaBits * 10 ^ (0 : ℤ).toNat = n * 2 ^ 53 := by
      simp [Nat.shiftLeft_eq, hbits]
    have hexponent : -((Format.binary64.mantissaBits : ℕ) : ℤ) + 0 = -53 := by
      simp [hbits]
    rw [hmantissa, hexponent]
  exact congrArg (fun f => (⟨Float.Model.pack f⟩ : Float)) hfactors

theorem toRat_ofWhole (b : Bool) (n k : ℕ) :
    toRat ⟨b, n * 2 ^ k, -k⟩ = if b then -(n : ℚ) else n := by
  have hmagnitude : (if 0 ≤ (-k : ℤ) then ((n * 2 ^ k * Nat.pow 2 (-k : ℤ).toNat : ℕ) : ℚ)
      else mkRat (n * 2 ^ k : ℕ) (Nat.pow 2 (- -k : ℤ).toNat)) = n := by
    split_ifs with hk
    · obtain rfl : k = 0 := by omega
      simp
    · have hshift : (- -k : ℤ).toNat = k := by omega
      rw [hshift, Rat.mkRat_eq_div]
      push_cast
      have hpower : ((Nat.pow 2 k : ℕ) : ℚ) = 2 ^ k := Nat.cast_pow 2 k
      rw [hpower, mul_div_cancel_right₀ (n : ℚ) (by positivity)]
  simp only [toRat, hmagnitude]

theorem toRat_zero (e : ℤ) : toRat ⟨false, 0, e⟩ = 0 := by
  simp [toRat]

theorem toRat_of_nonneg (b : Bool) (m : ℕ) {e : ℤ} (he : 0 ≤ e) :
    toRat ⟨b, m, e⟩ = if b then -((m * 2 ^ e.toNat : ℕ) : ℚ) else (m * 2 ^ e.toNat : ℕ) := by
  simp only [toRat, he, if_true]
  rfl

theorem exists_ofNat {n : ℕ} (hpos : 0 < n) (h : n < 2 ^ 63) :
    ∃ (m : ℕ) (e : ℤ) (hm : 0 < m) (k : ℕ),
      Float.ofNat n = ⟨Float.Model.pack (.finite .positive m e hm)⟩ ∧ m.log2 = 52 ∧ -1074 ≤ e ∧
        e ≤ 971 ∧ (∀ b, toRat ⟨b, m, e⟩ = if b then -(k : ℚ) else k) ∧ 0 < k ∧
          (n < 2 ^ 53 → k = n) := by
  by_cases hsmall : n < 2 ^ 53
  · obtain ⟨k, hm, hfloat, hlog, hk⟩ := ofNat_of_lt hpos hsmall
    exact ⟨_, _, hm, n, hfloat, hlog, by omega, by omega, fun b => toRat_ofWhole b n k, hpos,
      fun _ => rfl⟩
  · obtain ⟨m, e, hm, hfloat, hlog, hl, hu⟩ := ofNat_of_ge (not_lt.mp hsmall) h
    exact ⟨m, e, hm, m * 2 ^ e.toNat, hfloat, hlog, by omega, by omega,
      fun b => toRat_of_nonneg b m hl,
      Nat.mul_pos hm (by positivity), fun hn => absurd hn hsmall⟩

theorem neg_pack {m : ℕ} {e : ℤ} (hpos : 0 < m) (hm : m.log2 = 52) (hl : -1074 ≤ e)
    (hu : e ≤ 971) :
    (⟨Float.Model.pack (.finite .positive m e hpos)⟩ : Float).neg =
      ⟨Float.Model.pack (.finite .negative m e hpos)⟩ := by
  have hunpacked := unpack_pack .positive hpos hm hl hu
  change (⟨Float.Model.neg _⟩ : Float) = _
  rw [Float.Model.neg, hunpacked]
  rfl

end Binary

theorem exactValue?_ofInt_zero : exactValue? (Float.ofInt 0) = some 0 := by
  have hbits : Binary.ofFloat? (Float.ofInt 0) = some ⟨false, 0, -1074⟩ := by decide
  rw [exactValue?, hbits, Option.map_some, Binary.toRat_zero]

theorem exactValue?_ofInt {i : ℤ} (h : |i| < 2 ^ 63) :
    ∃ k : ℤ, exactValue? (Float.ofInt i) = some (k : ℚ) ∧ (0 ≤ k ↔ 0 ≤ i) ∧
      (|i| < 2 ^ 53 → k = i) := by
  cases i with
  | ofNat n =>
    have hn : n < 2 ^ 63 := by
      simp at h
      omega
    rcases Nat.eq_zero_or_pos n with rfl | hpos
    · exact ⟨0, exactValue?_ofInt_zero, Iff.rfl, fun _ => rfl⟩
    · obtain ⟨m, e, hm, k, hfloat, hlog, hl, hu, hvalue, hk, hsame⟩ := Binary.exists_ofNat hpos hn
      refine ⟨k, ?_, by simp, ?_⟩
      · change exactValue? (Float.ofNat n) = _
        rw [hfloat, exactValue?, Binary.ofFloat?_pack _ hm hlog hl hu, Option.map_some, hvalue]
        rfl
      · intro hexact
        rw [hsame (by simp at hexact; omega)]
        rfl
  | negSucc n =>
    have hn : n + 1 < 2 ^ 63 := by
      rw [Int.negSucc_eq, abs_neg, abs_of_nonneg (by omega)] at h
      omega
    obtain ⟨m, e, hm, k, hfloat, hlog, hl, hu, hvalue, hk, hsame⟩ :=
      Binary.exists_ofNat n.succ_pos hn
    refine ⟨-k, ?_, by omega, ?_⟩
    · change exactValue? (Float.ofNat (n + 1)).neg = _
      rw [hfloat, Binary.neg_pack hm hlog hl hu, exactValue?,
        Binary.ofFloat?_pack _ hm hlog hl hu, Option.map_some, hvalue]
      push_cast
      rfl
    · intro hexact
      rw [Int.negSucc_eq, abs_neg, abs_of_nonneg (by omega)] at hexact
      rw [hsame (by omega)]
      rfl

end ConeLift
