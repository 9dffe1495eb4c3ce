import ConeLift.Model.Optimize
import ConeLift.Proofs.Calls
import ConeLift.Proofs.Segments
import ConeLift.Proofs.Split

namespace ConeLift

def boxPair (limit : ℚ) (b : Extended × Extended) : Extended × Extended :=
  (Bounds.boxLower (.finite limit) b.1 b.2, Bounds.boxUpper (.finite limit) b.1 b.2)

theorem Bounds.box_tabulate (n : ℕ) (b : ℕ → Extended × Extended) (limit : ℚ) :
    (tabulate n b).box (.finite limit) = .ok (tabulate n fun j => boxPair limit (b j)) := by
  have hzip (f : Extended → Extended → Extended) :
      Vec.zip f ((List.range n).map fun j => (b j).1) ((List.range n).map fun j => (b j).2) =
        .ok ((List.range n).map fun j => f (b j).1 (b j).2) := by
    rw [Vec.zip_of_length_eq _ (by simp), List.zipWith_map, List.zipWith_self]
  simp only [box, tabulate, hzip, bind, Except.bind, pure, Except.pure]
  rfl

theorem exists_boxLower {b : Extended × Extended} (hb : Regular b) (limit : ℚ) :
    ∃ q, (boxPair limit b).1 = .finite q ∧ (b.1 = .finite q ∨ b.1 = .negInfinity) := by
  obtain ⟨lo, hi⟩ := b
  obtain ⟨hlo, hlo', hhi, hhi'⟩ := hb
  cases lo with
  | undefined => exact absurd rfl hlo
  | infinity => exact absurd rfl hlo'
  | finite p => exact ⟨p, rfl, Or.inl rfl⟩
  | negInfinity =>
    cases hi with
    | undefined => exact absurd rfl hhi
    | negInfinity => exact absurd rfl hhi'
    | infinity => exact ⟨0 - limit, Extended.finite_sub 0 limit, Or.inr rfl⟩
    | finite q => exact ⟨q - limit, Extended.finite_sub q limit, Or.inr rfl⟩

theorem exists_boxUpper {b : Extended × Extended} (hb : Regular b) (limit : ℚ) :
    ∃ q, (boxPair limit b).2 = .finite q ∧ (b.2 = .finite q ∨ b.2 = .infinity) := by
  obtain ⟨lo, hi⟩ := b
  obtain ⟨hlo, hlo', hhi, hhi'⟩ := hb
  cases hi with
  | undefined => exact absurd rfl hhi
  | negInfinity => exact absurd rfl hhi'
  | finite q => exact ⟨q, rfl, Or.inl rfl⟩
  | infinity =>
    cases lo with
    | undefined => exact absurd rfl hlo
    | infinity => exact absurd rfl hlo'
    | negInfinity => exact ⟨0 + limit, Extended.finite_add 0 limit, Or.inr rfl⟩
    | finite p => exact ⟨p + limit, Extended.finite_add p limit, Or.inr rfl⟩

theorem within_of_within_box {b : Extended × Extended} (hb : Regular b) {limit v : ℚ}
    (h : Within (boxPair limit b) (.finite v)) : Within b (.finite v) := by
  obtain ⟨l, hl, hlower⟩ := exists_boxLower hb limit
  obtain ⟨u, hu, hupper⟩ := exists_boxUpper hb limit
  rw [Within, hl, hu] at h
  constructor
  · rcases hlower with hlower | hlower
    · rw [hlower]
      exact h.1
    · rw [hlower]
      exact Extended.negInfinity_le v
  · rcases hupper with hupper | hupper
    · rw [hupper]
      exact h.2
    · rw [hupper]
      exact Extended.le_infinity v

theorem step_within_box {b : Extended × Extended} (hb : Regular b) {limit margin s v w : ℚ}
    (hs : 0 ≤ s) (hs' : s ≤ 1) (hv : Within (boxPair limit b) (.finite v))
    (hw : Within b (.finite w))
    (hside : Program.atSide (.finite margin) (.finite v) b (boxPair limit b) = false)
    (hstep : s * |w - v| ≤ margin) : Within (boxPair limit b) (.finite (v + s * (w - v))) := by
  obtain ⟨l, hl, hlower⟩ := exists_boxLower hb limit
  obtain ⟨u, hu, hupper⟩ := exists_boxUpper hb limit
  have hmove : |s * (w - v)| ≤ margin := by rwa [abs_mul, abs_of_nonneg hs]
  obtain ⟨hmove, hmove'⟩ := abs_le.mp hmove
  simp only [Program.atSide, hl, hu, Extended.finite_sub, Extended.finite_add, Bool.or_eq_false_iff,
    Bool.and_eq_false_iff, Bool.not_eq_false'] at hside
  rw [Within, hl, hu, Extended.le_finite_iff, Extended.le_finite_iff] at hv ⊢
  constructor
  · rcases hlower with hlower | hlower
    · have hlw : l ≤ w := by
        have hle := hw.1
        rwa [hlower, Extended.le_finite_iff] at hle
      exact le_share hs hs' hv.1 hlw
    · have hroom : l + margin < v := by
        have hinfinite : Scalar.isFinite b.1 = false := by rw [hlower]; rfl
        rw [hinfinite] at hside
        simpa [← Bool.not_eq_true] using hside.2
      linarith
  · rcases hupper with hupper | hupper
    · have hwu : w ≤ u := by
        have hle := hw.2
        rwa [hupper, Extended.le_finite_iff] at hle
      exact share_le hs hs' hv.2 hwu
    · have hroom : v + margin < u := by
        have hinfinite : Scalar.isFinite b.2 = false := by rw [hupper]; rfl
        rw [hinfinite] at hside
        simpa [← Bool.not_eq_true] using hside.1
      linarith

theorem margin_eq (limit : ℚ) :
    Scalar.decimal 1 2 * Extended.finite limit = .finite (limit / 100) := by
  have hshare : ((1 : ℕ) : ℚ) / 10 ^ 2 * limit = limit / 100 := by
    push_cast
    ring
  exact congrArg Extended.finite hshare

section

variable {n : ℕ} {b : ℕ → Extended × Extended} {limit : ℚ} {z w : List ℚ}

theorem pressesBox_eq {p : Program Extended} (b' : ℕ → Extended × Extended)
    (hcolumns : p.columns = .tabulate n b) (hz : z.length = n) :
    p.pressesBox (.tabulate n b') (.finite limit) (some (finites z)) =
      .ok ((List.range n).any fun j =>
        Program.atSide (.finite (limit / 100)) (.finite (coord z j)) (b j) (b' j)) := by
  have hlength : p.columns.lower.length = n := by rw [hcolumns, Bounds.length_lower_tabulate]
  have hzip : List.zipWith (fun x c => Program.atSide (.finite (limit / 100)) x c.1 c.2) (finites z)
      ((p.columns.lower.zip p.columns.upper).zip
        ((Bounds.tabulate n b').lower.zip (Bounds.tabulate n b').upper)) =
        (List.range n).map fun j =>
          Program.atSide (.finite (limit / 100)) (.finite (coord z j)) (b j) (b' j) := by
    have hfinites : finites z = (List.range n).map fun j => .finite (coord z j) := by
      conv_lhs => rw [eq_map_range z 0, hz, finites, List.map_map]
      rfl
    rw [hfinites, hcolumns]
    simp only [Bounds.tabulate, List.zip, List.zipWith_map, List.zipWith_self]
  -- A single entry is compared with every column, which is one column here.
  have htest : p.pressesBox (.tabulate n b') (.finite limit) (some (finites z)) =
      .ok ((List.zipWith (fun x c => Program.atSide (.finite (limit / 100)) x c.1 c.2) (finites z)
        ((p.columns.lower.zip p.columns.upper).zip
          ((Bounds.tabulate n b').lower.zip (Bounds.tabulate n b').upper))).any id) := by
    have hsize : (finites z).length = n := by rw [length_finites, hz]
    unfold Program.pressesBox
    simp only [hlength, margin_eq]
    split
    · rename_i hnone
      cases hnone
    · rename_i x hone
      rw [Option.some.inj hone] at hsize ⊢
      rw [← hsize]
      rfl
    · rename_i xs hxs
      rw [← Option.some.inj hxs, if_pos hsize]
  rw [htest, hzip, List.any_map]
  rfl

theorem atSide_of_pressesBox {p : Program Extended} {b' : ℕ → Extended × Extended}
    (hcolumns : p.columns = .tabulate n b) (hz : z.length = n)
    (h : p.pressesBox (.tabulate n b') (.finite limit) (some (finites z)) = .ok false) :
    ∀ j < n, Program.atSide (.finite (limit / 100)) (.finite (coord z j)) (b j) (b' j) =
      false := by
  rw [pressesBox_eq b' hcolumns hz] at h
  have hany := List.any_eq_false.mp (Except.ok.inj h)
  intro j hj
  simpa using hany j (List.mem_range.mpr hj)

theorem exists_step {margin : ℚ} (hmargin : 0 < margin) (n : ℕ) (z w : List ℚ) :
    ∃ s, 0 < s ∧ s ≤ 1 ∧ ∀ j < n, s * |coord w j - coord z j| ≤ margin := by
  have hterm : ∀ j < n, |coord w j - coord z j| ≤
      ((List.range n).map fun j => |coord w j - coord z j|).sum := by
    intro j hj
    apply List.single_le_sum
    · intro q hq
      obtain ⟨i, _, rfl⟩ := List.mem_map.mp hq
      exact abs_nonneg _
    · exact List.mem_map_of_mem (List.mem_range.mpr hj)
  have hnonneg : 0 ≤ ((List.range n).map fun j => |coord w j - coord z j|).sum := by
    apply List.sum_nonneg
    intro q hq
    obtain ⟨i, _, rfl⟩ := List.mem_map.mp hq
    exact abs_nonneg _
  generalize ((List.range n).map fun j => |coord w j - coord z j|).sum = total at hterm hnonneg
  have hpos : 0 < margin + total := add_pos_of_pos_of_nonneg hmargin hnonneg
  refine ⟨margin / (margin + total), div_pos hmargin hpos, ?_, ?_⟩
  · rw [div_le_one hpos]
    linarith
  · intro j hj
    calc margin / (margin + total) * |coord w j - coord z j|
        ≤ margin / (margin + total) * (margin + total) := by
          have hle := hterm j hj
          gcongr
          linarith
      _ = margin := div_mul_cancel₀ margin hpos.ne'

theorem exists_mix_within_box {margin : ℚ} (hmargin : 0 < margin) (hb : ∀ j < n, Regular (b j))
    (hz : (Bounds.tabulate n fun j => boxPair limit (b j)).Hold (finites z))
    (hw : (Bounds.tabulate n b).Hold (finites w))
    (hside : ∀ j < n, Program.atSide (.finite margin) (.finite (coord z j)) (b j)
      (boxPair limit (b j)) = false) :
    ∃ s, 0 < s ∧ s ≤ 1 ∧
      (Bounds.tabulate n fun j => boxPair limit (b j)).Hold (finites (mix s z w)) := by
  obtain ⟨s, hs, hs', hstep⟩ := exists_step hmargin n z w
  rw [Bounds.hold_tabulate] at hz hw
  have hlength : z.length = w.length := by rw [hz.1, hw.1]
  refine ⟨s, hs, hs', ?_⟩
  rw [Bounds.hold_tabulate]
  refine ⟨by rw [length_mix s hlength, hz.1], ?_⟩
  intro j hj
  rw [coord_mix s hlength]
  exact step_within_box (hb j hj) hs.le hs' (hz.2 j hj) (hw.2 j hj) (hside j hj) (hstep j hj)

theorem hold_of_hold_box (hb : ∀ j < n, Regular (b j))
    (h : (Bounds.tabulate n fun j => boxPair limit (b j)).Hold (finites z)) :
    (Bounds.tabulate n b).Hold (finites z) := by
  rw [Bounds.hold_tabulate] at h ⊢
  exact ⟨h.1, fun j hj => within_of_within_box (hb j hj) (h.2 j hj)⟩

theorem Program.minimizer_of_box {p : Program Extended} {c : List ℚ}
    (hcolumns : p.columns = .tabulate n b) (hb : ∀ j < n, Regular (b j)) (hlimit : 0 < limit)
    (hconvex : ∀ s w, 0 ≤ s → s ≤ 1 → p.Satisfied z → p.Satisfied w → p.Satisfied (mix s z w))
    (hz : Minimizer (fun w => (Bounds.tabulate n fun j => boxPair limit (b j)).Hold (finites w) ∧
      p.Satisfied w) (finites c) z)
    (hpresses : p.pressesBox (.tabulate n fun j => boxPair limit (b j)) (.finite limit)
      (some (finites z)) = .ok false) :
    Minimizer p.Satisfied (finites c) z := by
  obtain ⟨hbox, hsatisfied⟩ := hz.feasible
  refine ⟨hsatisfied, ?_⟩
  intro w hw
  have hzlength : z.length = n := ((Bounds.hold_tabulate _ _ _).mp hbox).1
  have hwcolumns := hw.columns
  rw [hcolumns] at hwcolumns
  have hwlength : w.length = n := ((Bounds.hold_tabulate _ _ _).mp hwcolumns).1
  have hside := atSide_of_pressesBox hcolumns hzlength hpresses
  have hmargin : 0 < limit / 100 := by linarith
  -- A short step towards `w` stays in the box, where nothing costs less than `z`.
  obtain ⟨s, hs, hs', hmix⟩ := exists_mix_within_box hmargin hb hbox hwcolumns hside
  have hle := hz.least (mix s z w) ⟨hmix, hconvex s w hs.le hs' hsatisfied hw⟩
  rw [dot_finites, dot_finites, Extended.le_finite_iff,
    dot_mix s c (hzlength.trans hwlength.symm)] at hle
  rw [dot_finites, dot_finites, Extended.le_finite_iff]
  have hgain : 0 ≤ s * (dot c w - dot c z) := by linarith
  exact sub_nonneg.mp (nonneg_of_mul_nonneg_right hgain hs)

end

end ConeLift
