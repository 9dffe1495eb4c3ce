import ConeLift.Proofs.QuadraticValues

namespace ConeLift

def shift (x d : List ℚ) : List ℚ := List.zipWith (· + ·) x d

theorem length_shift {x d : List ℚ} (h : x.length = d.length) : (shift x d).length = x.length := by
  simp [shift, h]

theorem coord_shift {x d : List ℚ} (h : x.length = d.length) (i : ℕ) :
    coord (shift x d) i = coord x i + coord d i := by
  by_cases hi : i < x.length
  · have hd : i < d.length := by omega
    have hshift : i < (shift x d).length := by rwa [length_shift h]
    rw [coord, coord, coord, List.getD_eq_getElem _ _ hi, List.getD_eq_getElem _ _ hd,
      List.getD_eq_getElem _ _ hshift]
    simp [shift]
  · have hx : coord x i = 0 := List.getD_eq_default _ _ (by omega)
    have hd : coord d i = 0 := List.getD_eq_default _ _ (by omega)
    have hshift : coord (shift x d) i = 0 :=
      List.getD_eq_default _ _ (by rw [length_shift h]; omega)
    rw [hx, hd, hshift, add_zero]

theorem dot_shift (c : List ℚ) {x d : List ℚ} (h : x.length = d.length) :
    dot c (shift x d) = dot c x + dot c d := by
  induction c generalizing x d with
  | nil => simp [dot]
  | cons a c ih =>
    cases x with
    | nil =>
      obtain rfl : d = [] := List.length_eq_zero_iff.mp h.symm
      simp [shift, dot]
    | cons v x =>
      cases d with
      | nil => cases h
      | cons w d =>
        have htail := ih (Nat.succ.inj h)
        simp only [dot, shift, List.zipWith_cons_cons, List.sum_cons] at htail ⊢
        rw [htail]
        ring

def accumulate (g : List ℚ) (entries : List (ℕ × ℚ)) : List ℚ :=
  entries.foldl (fun g e => g.set e.1 (coord g e.1 + e.2)) g

theorem length_accumulate (g : List ℚ) (entries : List (ℕ × ℚ)) :
    (accumulate g entries).length = g.length := by
  induction entries generalizing g with
  | nil => rfl
  | cons e entries ih => rw [accumulate, List.foldl_cons, ← accumulate, ih, List.length_set]

theorem dot_set {g : List ℚ} (d : List ℚ) {i : ℕ} (v : ℚ) (h : i < g.length) :
    dot (g.set i (coord g i + v)) d = dot g d + v * coord d i := by
  induction g generalizing d i with
  | nil => cases h
  | cons a g ih =>
    cases d with
    | nil => simp [dot, coord]
    | cons w d =>
      cases i with
      | zero =>
        simp only [dot, coord, List.set_cons_zero, List.zipWith_cons_cons, List.sum_cons,
          List.getD_cons_zero]
        ring
      | succ i =>
        have htail := ih d (Nat.lt_of_succ_lt_succ h)
        simp only [dot, coord, List.set_cons_succ, List.zipWith_cons_cons, List.sum_cons,
          List.getD_cons_succ] at htail ⊢
        rw [htail]
        ring

theorem dot_accumulate {g : List ℚ} {entries : List (ℕ × ℚ)} (d : List ℚ)
    (h : ∀ e ∈ entries, e.1 < g.length) :
    dot (accumulate g entries) d = dot g d + (entries.map fun e => e.2 * coord d e.1).sum := by
  induction entries generalizing g with
  | nil => simp [accumulate]
  | cons e entries ih =>
    rw [List.forall_mem_cons] at h
    have htail := ih (g := g.set e.1 (coord g e.1 + e.2)) (by simpa using h.2)
    rw [accumulate, List.foldl_cons, ← accumulate, htail, dot_set d e.2 h.1, List.map_cons,
      List.sum_cons, add_assoc]

namespace QuadraticRow

theorem entries_shift {x d : List ℚ} (h : x.length = d.length) (is : List ℤ) :
    entries (shift x d) is = shift (entries x is) (entries d is) := by
  simp only [entries, shift, List.zipWith_map, List.zipWith_self]
  apply List.map_congr_left
  intro i _
  exact coord_shift h i.toNat

def scattered (g : List ℚ) (is : List ℤ) (vs : List ℚ) : List ℚ :=
  accumulate g ((is.map Int.toNat).zip vs)

theorem length_scattered (g : List ℚ) (is : List ℤ) (vs : List ℚ) :
    (scattered g is vs).length = g.length := length_accumulate _ _

theorem dot_scattered {g : List ℚ} {is : List ℤ} (vs d : List ℚ)
    (h : ∀ i ∈ is, 0 ≤ i ∧ i < g.length) :
    dot (scattered g is vs) d = dot g d + dot vs (entries d is) := by
  obtain ⟨ks, rfl, hks⟩ := exists_naturals h
  have hnat : (ks.map fun k : ℕ => (k : ℤ)).map Int.toNat = ks := by
    rw [List.map_map]
    exact List.map_id ks
  have hentries : entries d (ks.map fun k : ℕ => (k : ℤ)) = ks.map (coord d) := by
    rw [entries, List.map_map]
    rfl
  have hterms : (ks.zip vs).map (fun e => e.2 * coord d e.1) =
      List.zipWith (fun v k => v * coord d k) vs ks := by
    rw [List.zipWith_comm, ← List.map_uncurry_zip_eq_zipWith]
    rfl
  rw [scattered, hnat, dot_accumulate d fun e he => hks e.1 (List.of_mem_zip he).1, hterms,
    hentries, dot, dot, List.zipWith_map_right]

def slope (q : QuadraticRow ℚ) (x : List ℚ) : List ℚ :=
  scattered
    (scattered (scattered (List.replicate x.length 0) q.linearIndex q.linearCoef) q.rowIndex
      (List.zipWith (· * ·) q.coef (entries x q.colIndex)))
    q.colIndex (List.zipWith (· * ·) q.coef (entries x q.rowIndex))

def bend (q : QuadraticRow ℚ) (d : List ℚ) : ℚ :=
  (List.zipWith (· * ·) (List.zipWith (· * ·) q.coef (entries d q.rowIndex))
    (entries d q.colIndex)).sum

theorem length_slope (q : QuadraticRow ℚ) (x : List ℚ) : (q.slope x).length = x.length := by
  simp only [slope, length_scattered, List.length_replicate]

theorem dot_slope {q : QuadraticRow ℚ} {x : List ℚ} (h : q.Fits x.length) (d : List ℚ) :
    dot (q.slope x) d = dot q.linearCoef (entries d q.linearIndex) +
      dot (List.zipWith (· * ·) q.coef (entries x q.colIndex)) (entries d q.rowIndex) +
      dot (List.zipWith (· * ·) q.coef (entries x q.rowIndex)) (entries d q.colIndex) := by
  have hzero : dot (List.replicate x.length 0) d = 0 := by
    have hzeros := dot_append_zeros [] [] d x.length rfl
    simpa [dot] using hzeros
  obtain ⟨hlinear, hrow, hcol⟩ := h.parts
  rw [slope, dot_scattered, dot_scattered, dot_scattered, hzero, zero_add]
  · rw [List.length_replicate]
    exact hlinear
  · rw [length_scattered, List.length_replicate]
    exact hrow
  · rw [length_scattered, length_scattered, List.length_replicate]
    exact hcol

theorem sum_products_shift (coef : List ℚ) (xs ds ys es : List ℚ) (h : xs.length = ds.length)
    (h' : ys.length = es.length) :
    (List.zipWith (· * ·) (List.zipWith (· * ·) coef (shift xs ds)) (shift ys es)).sum =
      (List.zipWith (· * ·) (List.zipWith (· * ·) coef xs) ys).sum +
        dot (List.zipWith (· * ·) coef ys) ds + dot (List.zipWith (· * ·) coef xs) es +
        (List.zipWith (· * ·) (List.zipWith (· * ·) coef ds) es).sum := by
  induction coef generalizing xs ds ys es with
  | nil => simp [dot]
  | cons a coef ih =>
    cases xs with
    | nil =>
      obtain rfl : ds = [] := List.length_eq_zero_iff.mp h.symm
      simp [shift, dot]
    | cons v xs =>
      cases ds with
      | nil => cases h
      | cons w ds =>
        cases ys with
        | nil =>
          obtain rfl : es = [] := List.length_eq_zero_iff.mp h'.symm
          simp [shift, dot]
        | cons v' ys =>
          cases es with
          | nil => cases h'
          | cons w' es =>
            have htail := ih xs ds ys es (Nat.succ.inj h) (Nat.succ.inj h')
            simp only [dot, shift, List.zipWith_cons_cons, List.sum_cons] at htail ⊢
            rw [htail]
            ring

theorem eval_shift {q : QuadraticRow ℚ} {x d : List ℚ} (h : q.Fits x.length)
    (hd : x.length = d.length) :
    q.eval (shift x d) = q.eval x + dot (q.slope x) d + q.bend d := by
  have hlength (is : List ℤ) : (entries x is).length = (entries d is).length := by
    simp [entries]
  rw [eval, eval, dot_slope h, bend]
  simp only [entries_shift hd]
  rw [dot_shift _ (hlength _), sum_products_shift _ _ _ _ _ (hlength _) (hlength _)]
  ring

theorem foldl_set_finites (g : List ℚ) (entries : List (ℕ × ℚ)) :
    (entries.map fun e => (e.1, Extended.finite e.2)).foldl
        (fun g e => g.set e.1 (g.getD e.1 0 + e.2)) (finites g) =
      finites (accumulate g entries) := by
  induction entries generalizing g with
  | nil => rfl
  | cons e entries ih =>
    have hset : (finites g).set e.1 ((finites g).getD e.1 0 + .finite e.2) =
        finites (g.set e.1 (coord g e.1 + e.2)) := by
      rw [getD_finites, Extended.finite_add, finites, finites, List.map_set]
      rfl
    rw [List.map_cons, List.foldl_cons, hset, ih]
    rfl

theorem scatter_finites {g : List ℚ} {is : List ℤ} (vs : List ℚ)
    (h : ∀ i ∈ is, 0 ≤ i ∧ i < g.length) (hlength : vs.length = is.length) :
    scatter (finites g) is (finites vs) = .ok (finites (scattered g is vs)) := by
  obtain ⟨ks, rfl, hks⟩ := exists_naturals h
  rw [List.length_map] at hlength
  have hpositions := mapM_map_of_forall (Vec.position (finites g).length) (fun k : ℕ => (k : ℤ)) id
    ks fun k hk => Vec.position_ofNat (by rw [length_finites]; exact hks k hk)
  have hnat : (ks.map fun k : ℕ => (k : ℤ)).map Int.toNat = ks := by
    rw [List.map_map]
    exact List.map_id ks
  have hzip : ks.zip (finites vs) = (ks.zip vs).map fun e => (e.1, Extended.finite e.2) := by
    rw [finites, List.zip_map_right]
    rfl
  rw [List.map_id] at hpositions
  rw [scattered, hnat, ← foldl_set_finites, ← hzip]
  simp only [scatter, hpositions, bind, Except.bind]
  split
  · rename_i v hv
    have hone : ks.length = 1 := by rw [← hlength, ← length_finites vs, hv, List.length_singleton]
    rw [hv, hone, List.replicate_one]
  · rw [if_pos (by rw [length_finites, hlength])]

theorem gradient_finite {q : QuadraticRow ℚ} {x : List ℚ} (h : q.Fits x.length) :
    q.finite.gradient (finites x) = .ok (finites (q.slope x)) := by
  obtain ⟨hlinear, hrow, hcol⟩ := h.parts
  have hzeros : List.replicate (finites x).length (0 : Extended) =
      finites (List.replicate x.length 0) := by
    rw [length_finites, finites, List.map_replicate]
    rfl
  have hbyLinear := scatter_finites (g := List.replicate x.length 0) q.linearCoef
    (by rw [List.length_replicate]; exact hlinear) h.linear.symm
  have hbyRow := scatter_finites
    (g := scattered (List.replicate x.length 0) q.linearIndex q.linearCoef)
    (List.zipWith (· * ·) q.coef (entries x q.colIndex))
    (by rw [length_scattered, List.length_replicate]; exact hrow)
    (by simp [entries, h.coef, h.square])
  have hbyCol := scatter_finites
    (g := scattered (scattered (List.replicate x.length 0) q.linearIndex q.linearCoef) q.rowIndex
      (List.zipWith (· * ·) q.coef (entries x q.colIndex)))
    (List.zipWith (· * ·) q.coef (entries x q.rowIndex))
    (by rw [length_scattered, length_scattered, List.length_replicate]; exact hcol)
    (by simp [entries, h.coef, h.square])
  have hcols := zip_finites (x := q.coef) (y := entries x q.colIndex) (by simp [entries, h.coef])
  have hrows := zip_finites (x := q.coef) (y := entries x q.rowIndex)
    (by simp [entries, h.coef, h.square])
  simp only [gradient, finite, hzeros, hbyLinear, gather_entries _ hcol, hcols, hbyRow,
    gather_entries _ hrow, hrows, hbyCol, bind, Except.bind, slope]

end QuadraticRow

end ConeLift
