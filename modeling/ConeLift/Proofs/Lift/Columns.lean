import ConeLift.Lift.Basic
import ConeLift.Proofs.Traversal

namespace ConeLift

variable {α : Type} [Scalar α]

def Cone.bounded (k : Cone) : List ℕ := if k.isSecondOrder then k.indices.take 1 else k.indices

def Cone.rebound (k : Cone) (j : ℕ) (b : α × α) : α × α :=
  if j ∈ k.bounded then
    if k.isSecondOrder then (0, b.2) else (Bounds.lowerOf k.kind, Bounds.upperOf k.kind)
  else b

def auxiliaryBlocks : ℕ → List Cone → List (List ℕ)
  | _, [] => []
  | first, k :: ks =>
    if k.isSecondOrder && !k.indices.isEmpty then
      List.range' first k.size :: auxiliaryBlocks (first + k.size) ks
    else auxiliaryBlocks first ks

def quadraticCones (cones : List Cone) : List Cone :=
  cones.filter fun k => k.isSecondOrder && !k.indices.isEmpty

theorem quadraticCones_cons_of_pos {k : Cone} (h : (k.isSecondOrder && !k.indices.isEmpty) = true)
    (ks : List Cone) : quadraticCones (k :: ks) = k :: quadraticCones ks :=
  List.filter_cons_of_pos h

theorem quadraticCones_cons_of_neg {k : Cone} (h : ¬(k.isSecondOrder && !k.indices.isEmpty) = true)
    (ks : List Cone) : quadraticCones (k :: ks) = quadraticCones ks :=
  List.filter_cons_of_neg h

def leadColumns (first : ℕ) (cones : List Cone) : List ℕ :=
  (auxiliaryBlocks first cones).filterMap List.head?

def columnBounds (variableCones constraintCones : List Cone) (numOrig j : ℕ) : α × α :=
  let b := variableCones.foldl (fun b k => k.rebound j b) (-Scalar.infinity, Scalar.infinity)
  if j ∈ leadColumns numOrig constraintCones then (0, b.2) else b

theorem foldl_rebound_of_free (cones : List Cone) (j : ℕ) (b : α × α)
    (h : ∀ k ∈ cones, j ∉ k.bounded) : cones.foldl (fun b k => k.rebound j b) b = b := by
  induction cones with
  | nil => rfl
  | cons k ks ih =>
    have hk : k.rebound j b = b := by simp [Cone.rebound, h k List.mem_cons_self]
    rw [List.foldl_cons, hk]
    exact ih fun k' hk' => h k' (List.mem_cons_of_mem k hk')

theorem columnBounds_of_free (variableCones constraintCones : List Cone) (numOrig j : ℕ)
    (h : ∀ k ∈ variableCones, j ∉ k.bounded) :
    columnBounds (α := α) variableCones constraintCones numOrig j =
      (if j ∈ leadColumns numOrig constraintCones then 0 else -Scalar.infinity,
        Scalar.infinity) := by
  simp only [columnBounds, foldl_rebound_of_free _ _ _ h]
  split <;> rfl

theorem columnBounds_sides (variableCones constraintCones : List Cone) (numOrig j : ℕ) :
    (columnBounds (α := α) variableCones constraintCones numOrig j).1 ∈
        [-Scalar.infinity, 0] ∧
      (columnBounds (α := α) variableCones constraintCones numOrig j).2 ∈
        [0, Scalar.infinity] := by
  have hkind (k : Kind) : (Bounds.lowerOf k : α) ∈ [-Scalar.infinity, 0] ∧
      (Bounds.upperOf k : α) ∈ [0, Scalar.infinity] := by
    cases k <;> simp [Bounds.lowerOf, Bounds.upperOf]
  have hfold : ∀ b : α × α, b.1 ∈ [-Scalar.infinity, 0] ∧ b.2 ∈ [0, Scalar.infinity] →
      (variableCones.foldl (fun b k => k.rebound j b) b).1 ∈ [-Scalar.infinity, 0] ∧
        (variableCones.foldl (fun b k => k.rebound j b) b).2 ∈ [0, Scalar.infinity] := by
    induction variableCones with
    | nil => exact fun b hb => hb
    | cons k ks ih =>
      intro b hb
      apply ih
      by_cases hj : j ∈ k.bounded
      · by_cases hs : k.isSecondOrder
        · simpa [Cone.rebound, hj, hs] using hb.2
        · simpa only [Cone.rebound, hj, hs, if_true, Bool.false_eq_true, if_false] using
            hkind k.kind
      · simpa only [Cone.rebound, hj, if_false] using hb
  have hopen := hfold (-Scalar.infinity, Scalar.infinity) (by simp)
  rw [columnBounds]
  split
  · exact ⟨by simp, hopen.2⟩
  · exact hopen

theorem Partition.linear_append (ks ls : List Cone) :
    (ofCones (ks ++ ls)).linear = (ofCones ks).linear ++ (ofCones ls).linear := by
  simp [ofCones]

theorem Partition.secondOrder_append (ks ls : List Cone) :
    (ofCones (ks ++ ls)).secondOrder = (ofCones ks).secondOrder ++ (ofCones ls).secondOrder := by
  simp [ofCones]

theorem Partition.numAux_append (ks ls : List Cone) :
    (ofCones (ks ++ ls)).numAux = (ofCones ks).numAux + (ofCones ls).numAux := by
  rw [numAux, secondOrder_append, List.length_append, numAux, numAux]

theorem Partition.numAux_cons (k : Cone) (ks : List Cone) :
    (ofCones (k :: ks)).numAux =
      (if k.isSecondOrder then k.size else 0) + (ofCones ks).numAux := by
  by_cases hk : k.isSecondOrder <;> simp [numAux, ofCones, Cone.size, hk]

theorem Partition.numAux_cons_of_pos {k : Cone}
    (hk : (k.isSecondOrder && !k.indices.isEmpty) = true) (ks : List Cone) :
    (ofCones (k :: ks)).numAux = k.size + (ofCones ks).numAux := by
  rw [numAux_cons, if_pos (Bool.and_eq_true_iff.mp hk).1]

theorem Partition.numAux_cons_of_neg {k : Cone}
    (hk : ¬(k.isSecondOrder && !k.indices.isEmpty) = true) (ks : List Cone) :
    (ofCones (k :: ks)).numAux = (ofCones ks).numAux := by
  simp only [Bool.and_eq_true, Bool.not_eq_true', List.isEmpty_eq_false_iff, not_and,
    not_not] at hk
  rw [numAux_cons]
  split_ifs with hsecond
  · rw [Cone.size, hk hsecond, List.length_nil, Nat.zero_add]
  · rw [Nat.zero_add]

theorem mem_indices_of_mem_bounded {k : Cone} {j : ℕ} (h : j ∈ k.bounded) : j ∈ k.indices := by
  rw [Cone.bounded] at h
  split at h
  · exact List.mem_of_mem_take h
  · exact h

theorem bounds_of_mem_auxiliaryBlocks (first : ℕ) (cones : List Cone) :
    ∀ block ∈ auxiliaryBlocks first cones, block ≠ [] ∧
      ∀ j ∈ block, first ≤ j ∧ j < first + (Partition.ofCones cones).numAux := by
  induction cones generalizing first with
  | nil => simp [auxiliaryBlocks]
  | cons k ks ih =>
    intro block hblock
    by_cases hk : (k.isSecondOrder && !k.indices.isEmpty) = true
    · rw [Partition.numAux_cons_of_pos hk]
      simp only [auxiliaryBlocks, hk, if_true, List.mem_cons] at hblock
      simp only [Bool.and_eq_true, Bool.not_eq_true', List.isEmpty_eq_false_iff] at hk
      rcases hblock with rfl | hblock
      · have hpos : 0 < k.size := List.length_pos_iff.mpr hk.2
        refine ⟨by simp [List.range'_eq_nil_iff, hpos.ne'], ?_⟩
        intro j hj
        rw [List.mem_range'_1] at hj
        omega
      · obtain ⟨hne, hbounds⟩ := ih (first + k.size) block hblock
        refine ⟨hne, ?_⟩
        intro j hj
        have htail := hbounds j hj
        omega
    · rw [Partition.numAux_cons_of_neg hk]
      simp only [auxiliaryBlocks, hk, if_false, Bool.false_eq_true] at hblock
      exact ih first block hblock

theorem auxiliaryBlocks_spec (first : ℕ) (cones : List Cone) :
    List.Forall₂ (fun k block => block.length = k.size) (quadraticCones cones)
        (auxiliaryBlocks first cones) ∧
      (auxiliaryBlocks first cones).flatten =
        List.range' first (Partition.ofCones cones).numAux := by
  induction cones generalizing first with
  | nil => exact ⟨.nil, rfl⟩
  | cons k ks ih =>
    by_cases hk : (k.isSecondOrder && !k.indices.isEmpty) = true
    · obtain ⟨hsizes, hflatten⟩ := ih (first + k.size)
      rw [quadraticCones_cons_of_pos hk, auxiliaryBlocks, if_pos hk,
        Partition.numAux_cons_of_pos hk, List.flatten_cons, hflatten, List.range'_append_1]
      exact ⟨.cons List.length_range' hsizes, rfl⟩
    · rw [quadraticCones_cons_of_neg hk, auxiliaryBlocks, if_neg hk,
        Partition.numAux_cons_of_neg hk]
      exact ih first

theorem auxiliaryBlocks_eq_nil_iff (first : ℕ) (cones : List Cone) :
    auxiliaryBlocks first cones = [] ↔ ∀ k ∈ cones, k.isSecondOrder = true → k.indices = [] := by
  induction cones generalizing first with
  | nil => simp [auxiliaryBlocks]
  | cons k ks ih =>
    rw [List.forall_mem_cons, auxiliaryBlocks]
    by_cases hk : (k.isSecondOrder && !k.indices.isEmpty) = true
    · rw [if_pos hk]
      simp only [Bool.and_eq_true, Bool.not_eq_true', List.isEmpty_eq_false_iff] at hk
      constructor
      · intro h
        cases h
      · rintro ⟨h, _⟩
        exact absurd (h hk.1) hk.2
    · rw [if_neg hk, ih]
      simp only [Bool.and_eq_true, Bool.not_eq_true', List.isEmpty_eq_false_iff, not_and,
        not_not] at hk
      constructor
      · exact fun h => ⟨hk, h⟩
      · exact fun h => h.2

theorem le_of_mem_leadColumns (first : ℕ) (cones : List Cone) :
    ∀ j ∈ leadColumns first cones,
      first ≤ j ∧ j < first + (Partition.ofCones cones).numAux := by
  intro j hj
  obtain ⟨block, hblock, hlead⟩ := List.mem_filterMap.mp hj
  exact (bounds_of_mem_auxiliaryBlocks first cones block hblock).2 j (List.mem_of_head? hlead)

namespace Bounds

variable {α : Type}

def tabulate (n : ℕ) (f : ℕ → α × α) : Bounds α where
  lower := (List.range n).map fun j => (f j).1
  upper := (List.range n).map fun j => (f j).2

@[simp] theorem length_lower_tabulate (n : ℕ) (f : ℕ → α × α) :
    (tabulate n f).lower.length = n := by simp [tabulate]

@[simp] theorem length_upper_tabulate (n : ℕ) (f : ℕ → α × α) :
    (tabulate n f).upper.length = n := by simp [tabulate]

theorem tabulate_congr (n : ℕ) {f g : ℕ → α × α} (h : ∀ j < n, f j = g j) :
    tabulate n f = tabulate n g := by
  have hmap (p : α × α → α) : (List.range n).map (fun j => p (f j)) =
      (List.range n).map fun j => p (g j) := by
    apply List.map_congr_left
    intro j hj
    rw [h j (List.mem_range.mp hj)]
  simp only [tabulate, hmap Prod.fst, hmap Prod.snd]

theorem tabulate_update (n i : ℕ) (f : ℕ → α × α) (b : α × α) :
    tabulate n (Function.update f i b) =
      ⟨(List.range n).map (Function.update (fun j => (f j).1) i b.1),
        (List.range n).map (Function.update (fun j => (f j).2) i b.2)⟩ := by
  have hfst : (fun j => (Function.update f i b j).1) = Function.update (fun j => (f j).1) i b.1 :=
    Function.comp_update Prod.fst f i b
  have hsnd : (fun j => (Function.update f i b j).2) = Function.update (fun j => (f j).2) i b.2 :=
    Function.comp_update Prod.snd f i b
  rw [tabulate, hfst, hsnd]

theorem replace_map_range (n i : ℕ) (g : ℕ → α) (x : α) (h : i < n) :
    Vec.replace ((List.range n).map g) i x =
      .ok ((List.range n).map (Function.update g i x)) := by
  rw [Vec.replace_ofNat _ x (by simpa using h)]
  congr 1
  apply List.ext_getElem
  · simp
  · intro j hj hj'
    by_cases hij : i = j
    · subst hij
      simp
    · simp [hij, Ne.symm hij]

theorem setLower_tabulate (n i : ℕ) (f : ℕ → α × α) (x : α) (h : i < n) :
    (tabulate n f).setLower i x = .ok (tabulate n (Function.update f i (x, (f i).2))) := by
  have hupper : Function.update (fun j => (f j).2) i (f i).2 = fun j => (f j).2 :=
    Function.update_eq_self i _
  rw [tabulate_update, hupper]
  simp only [setLower, tabulate, replace_map_range n i _ x h, bind, Except.bind]

theorem lt_of_setLower {n i : ℕ} {f : ℕ → α × α} {x : α} {B : Bounds α}
    (h : (tabulate n f).setLower i x = .ok B) : i < n := by
  obtain ⟨lower, hl, _⟩ := (bind_eq_ok_iff _ _ _).mp h
  simpa using Vec.lt_of_replace hl

variable [Scalar α]

theorem setBoth_tabulate (n i : ℕ) (f : ℕ → α × α) (k : Kind) (h : i < n) :
    (tabulate n f).setBoth k i =
      .ok (tabulate n (Function.update f i (lowerOf k, upperOf k))) := by
  rw [tabulate_update]
  simp only [setBoth, tabulate, replace_map_range n i _ _ h, bind, Except.bind]

theorem lt_of_setBoth {n i : ℕ} {f : ℕ → α × α} {k : Kind} {B : Bounds α}
    (h : (tabulate n f).setBoth k i = .ok B) : i < n := by
  obtain ⟨lower, hl, _⟩ := (bind_eq_ok_iff _ _ _).mp h
  simpa using Vec.lt_of_replace hl

theorem foldlM_setBoth_tabulate (n : ℕ) (f : ℕ → α × α) (k : Kind) (is : List ℕ)
    (h : ∀ i ∈ is, i < n) :
    is.foldlM (fun B (i : ℕ) => B.setBoth k i) (tabulate n f) =
      .ok (tabulate n fun j => if j ∈ is then (lowerOf k, upperOf k) else f j) := by
  induction is generalizing f with
  | nil => simp [pure, Except.pure]
  | cons i is ih =>
    have hi : i < n := h i List.mem_cons_self
    have htail : ∀ i' ∈ is, i' < n := fun i' hi' => h i' (List.mem_cons_of_mem i hi')
    simp only [List.foldlM_cons, setBoth_tabulate n i f k hi, bind, Except.bind, ih _ htail]
    congr 1
    apply tabulate_congr
    intro j _
    by_cases hj : j = i
    · subst hj
      simp
    · simp [hj]

theorem forall_lt_of_foldlM_setBoth {n : ℕ} {f : ℕ → α × α} {k : Kind} {is : List ℕ}
    {B : Bounds α} (h : is.foldlM (fun B (i : ℕ) => B.setBoth k i) (tabulate n f) = .ok B) :
    ∀ i ∈ is, i < n := by
  induction is generalizing f with
  | nil => simp
  | cons i is ih =>
    obtain ⟨B', hB', htail⟩ := (bind_eq_ok_iff _ _ _).mp h
    have hi : i < n := lt_of_setBoth hB'
    have hok := hB'.symm.trans (setBoth_tabulate n i f k hi)
    cases hok
    intro i' hi'
    rcases List.mem_cons.mp hi' with rfl | hi'
    · exact hi
    · exact ih htail i' hi'

theorem applyCone_tabulate (n : ℕ) (f : ℕ → α × α) (k : Cone) (h : ∀ i ∈ k.bounded, i < n) :
    (tabulate n f).applyCone k = .ok (tabulate n fun j => k.rebound j (f j)) := by
  by_cases hk : k.isSecondOrder
  · simp only [Cone.bounded, hk, if_true] at h
    simp only [applyCone, hk, if_true, Cone.rebound, Cone.bounded]
    cases hi : k.indices with
    | nil => simp
    | cons i is =>
      simp only [setLower_tabulate n i f 0 (h i (by simp [hi])), List.take_succ_cons,
        List.take_zero, List.mem_singleton]
      congr 2
      funext j
      by_cases hj : j = i
      · subst hj
        simp
      · simp [hj]
  · simp only [Cone.bounded, hk, Bool.false_eq_true, if_false] at h
    simp only [applyCone, hk, Bool.false_eq_true, if_false, Cone.rebound, Cone.bounded,
      foldlM_setBoth_tabulate n f k.kind k.indices h]

theorem forall_lt_of_applyCone {n : ℕ} {f : ℕ → α × α} {k : Cone} {B : Bounds α}
    (h : (tabulate n f).applyCone k = .ok B) : ∀ i ∈ k.bounded, i < n := by
  by_cases hk : k.isSecondOrder
  · simp only [applyCone, hk, if_true] at h
    simp only [Cone.bounded, hk, if_true]
    cases hi : k.indices with
    | nil => simp
    | cons i is =>
      simp only [hi] at h
      simpa using lt_of_setLower h
  · simp only [applyCone, hk, Bool.false_eq_true, if_false] at h
    simpa only [Cone.bounded, hk, Bool.false_eq_true, if_false] using forall_lt_of_foldlM_setBoth h

theorem foldlM_applyCone_tabulate (n : ℕ) (f : ℕ → α × α) (cones : List Cone)
    (h : ∀ k ∈ cones, ∀ i ∈ k.bounded, i < n) :
    cones.foldlM applyCone (tabulate n f) =
      .ok (tabulate n fun j => cones.foldl (fun b k => k.rebound j b) (f j)) := by
  induction cones generalizing f with
  | nil => rfl
  | cons k ks ih =>
    have htail : ∀ k' ∈ ks, ∀ i ∈ k'.bounded, i < n :=
      fun k' hk' => h k' (List.mem_cons_of_mem k hk')
    simp only [List.foldlM_cons, applyCone_tabulate n f k (h k List.mem_cons_self), bind,
      Except.bind, ih _ htail, List.foldl_cons]

theorem forall_lt_of_foldlM_applyCone {n : ℕ} {f : ℕ → α × α} {cones : List Cone} {B : Bounds α}
    (h : cones.foldlM applyCone (tabulate n f) = .ok B) :
    ∀ k ∈ cones, ∀ i ∈ k.bounded, i < n := by
  induction cones generalizing f with
  | nil => simp
  | cons k ks ih =>
    obtain ⟨B', hB', htail⟩ := (bind_eq_ok_iff _ _ _).mp h
    have hk : ∀ i ∈ k.bounded, i < n := forall_lt_of_applyCone hB'
    have hok := hB'.symm.trans (applyCone_tabulate n f k hk)
    cases hok
    intro k' hk'
    rcases List.mem_cons.mp hk' with rfl | hk'
    · exact hk
    · exact ih htail k' hk'

theorem applyAuxiliary_tabulate (n first : ℕ) (f : ℕ → α × α) (cones : List Cone)
    (h : first + (Partition.ofCones cones).numAux ≤ n) :
    (tabulate n f).applyAuxiliary first cones =
      .ok (tabulate n fun j => if j ∈ leadColumns first cones then (0, (f j).2) else f j) := by
  induction cones generalizing first f with
  | nil => simp [applyAuxiliary, leadColumns, auxiliaryBlocks]
  | cons k ks ih =>
    rw [Partition.numAux_cons] at h
    by_cases hk : k.isSecondOrder
    · simp only [hk, if_true] at h
      by_cases hi : k.indices = []
      · have hsize : k.size = 0 := by simp [Cone.size, hi]
        simp only [applyAuxiliary, leadColumns, auxiliaryBlocks, hk, hi, List.isEmpty_nil,
          Bool.not_true, Bool.and_false, Bool.false_eq_true, if_false]
        exact ih first f (by omega)
      · have hne : k.indices.isEmpty = false := by simpa using hi
        have hpos : 0 < k.size := List.length_pos_iff.mpr hi
        have hfirst : first < n := by omega
        have hnext : ((first : ℤ) + (k.size : ℤ)) = ((first + k.size : ℕ) : ℤ) := by push_cast; rfl
        have hlead : (List.range' first k.size).head? = some first := by
          simp [List.head?_range', hpos.ne']
        simp only [applyAuxiliary, leadColumns, auxiliaryBlocks, hk, hne, Bool.not_false,
          Bool.and_true, if_true, setLower_tabulate n first f 0 hfirst, bind, Except.bind, hnext]
        rw [ih (first + k.size) _ (by omega)]
        congr 1
        apply tabulate_congr
        intro j _
        simp only [List.filterMap_cons, hlead, List.mem_cons, leadColumns]
        by_cases hj : j = first
        · subst hj
          simp
        · simp [hj]
    · simp only [applyAuxiliary, leadColumns, auxiliaryBlocks, hk, Bool.false_and,
        Bool.false_eq_true, if_false] at h ⊢
      exact ih first f (by omega)

theorem ofVariables_eq_ok_iff (variableCones constraintCones : List Cone) (numOrig : ℕ)
    (B : Bounds α) :
    let total := numOrig + (Partition.ofCones constraintCones).numAux
    ofVariables variableCones constraintCones numOrig (Partition.ofCones constraintCones).numAux =
        .ok B ↔
      (∀ k ∈ variableCones, ∀ i ∈ k.bounded, i < total) ∧
        B = tabulate total (columnBounds variableCones constraintCones numOrig) := by
  intro total
  have htotal :
      ((numOrig : ℤ) + ((Partition.ofCones constraintCones).numAux : ℤ)) = (total : ℤ) := by
    simp [total]
  have hopen : (⟨List.replicate total (-Scalar.infinity), List.replicate total Scalar.infinity⟩ :
      Bounds α) = tabulate total fun _ => (-Scalar.infinity, Scalar.infinity) := by
    simp [tabulate, List.map_const']
  have hneg : ¬((total : ℤ) < 0) := by omega
  simp only [ofVariables, htotal, hneg, if_false, Int.toNat_natCast, hopen]
  constructor
  · intro h
    obtain ⟨B', hB', haux⟩ := (bind_eq_ok_iff _ _ _).mp h
    have hlt := forall_lt_of_foldlM_applyCone hB'
    have hok := hB'.symm.trans (foldlM_applyCone_tabulate _ _ _ hlt)
    cases hok
    rw [applyAuxiliary_tabulate _ _ _ _ le_rfl] at haux
    cases haux
    exact ⟨hlt, rfl⟩
  · rintro ⟨hlt, rfl⟩
    rw [foldlM_applyCone_tabulate _ _ _ hlt]
    exact applyAuxiliary_tabulate _ _ _ _ le_rfl

end Bounds

end ConeLift
