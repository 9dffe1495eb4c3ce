import ConeLift.Proofs.Documents
import ConeLift.Proofs.Indices
import ConeLift.Proofs.NearestWhole
import ConeLift.Wire.Container

/-!
Indices in a list, in a tuple and in an array. A list refuses fractions, the other two cut them off;
an array with a machine number in it holds nothing but machine numbers.
-/

namespace ConeLift

open Value

theorem Value.required_kind {kind : Kind} {fields : List (String × Value)}
    (h : lookup fields "kind" = some (.text kind.name)) :
    required fields "kind" toKind = .ok kind := by
  have hkind : toKind (.text kind.name) = .ok kind := by
    rw [toKind, Kind.ofName?_name]
  exact (required_eq_ok_iff _ _ _ _).mpr ⟨_, h, hkind⟩

def askList (kind : Kind) (xs : List Value) : Except Error Cone :=
  Value.readCone (.record [("kind", .text kind.name), ("indices", .list xs)])

structure Exceeds (xs : List Value) : Prop where
  indices : ∃ is, List.Forall₂ Indexes xs is
  large : ∃ x, .real x ∈ xs ∧ ∃ q, exactValue? x = some q ∧ 2 ^ 63 ≤ q

theorem askList_cases (kind : Kind) (xs : List Value) :
    (∃ is, List.Forall₂ (fun v i => toNat v = .ok i) xs is ∧ askList kind xs = .ok ⟨kind, is⟩) ∨
      (¬∃ is, List.Forall₂ (fun v i => toNat v = .ok i) xs is) ∧
        ∃ fs, askList kind xs = .error (.invalid fs) := by
  have hkind : required [("kind", .text kind.name), ("indices", .list xs)] "kind" toKind =
      .ok kind := required_kind rfl
  have hindices : optional [("kind", .text kind.name), ("indices", .list xs)] "indices" toIndices
      [] = Checked.under (.field "indices") (Checked.items toNat 0 xs) := rfl
  have hitems := Checked.items_eq_ok_iff toNat 0 xs
  simp only [askList, Value.readCone, coneOfFields, hkind, hindices, ← hitems]
  cases Checked.items toNat 0 xs with
  | ok is => exact .inl ⟨is, rfl, rfl⟩
  | error fs => exact .inr ⟨by simp, _, rfl⟩

theorem Value.wholeOfReal_eq_ok_iff (x : Float) (i : ℕ) :
    wholeOfReal x = .ok (i : ℤ) ↔ exactValue? x = some (i : ℚ) ∧ i < 2 ^ 63 := by
  have hlimit : wholeLimit = 2 ^ 63 := rfl
  rw [wholeOfReal]
  cases hx : exactValue? x with
  | none => simp [Checked.fail]
  | some q =>
    simp only [Option.some.injEq, hlimit]
    split_ifs with hden hrange
    · refine iff_of_false (by simp [Checked.fail]) ?_
      rintro ⟨rfl, _⟩
      exact hden (Rat.den_natCast i)
    · have hnum : (q.num : ℚ) = q := Rat.coe_int_num_of_den_eq_one (not_not.mp hden)
      rw [Except.ok.injEq]
      constructor
      · intro hi
        rw [hi, Int.cast_natCast] at hnum
        rw [← hnum] at hrange
        exact ⟨hnum.symm, by exact_mod_cast hrange.2⟩
      · rintro ⟨rfl, _⟩
        exact Rat.num_natCast i
    · refine iff_of_false (by simp [Checked.fail]) ?_
      rintro ⟨rfl, hi⟩
      have hlt : (i : ℚ) < 2 ^ 63 := by exact_mod_cast hi
      have hpos : (0 : ℚ) ≤ i := i.cast_nonneg
      exact hrange ⟨by linarith, hlt⟩

theorem Value.toNat_number_iff {v : Value} (hv : v.IsNumber) (i : ℕ) :
    v.toNat = .ok i ↔ v.Indexes i ∧ ∀ x, v = .real x → i < 2 ^ 63 := by
  rw [toNat_eq_ok_iff]
  cases hv with
  | int j _ =>
    simp only [toInt, Indexes, Denotes, rational?, Except.ok.injEq, Option.some.injEq,
      reduceCtorEq, false_implies, implies_true, and_true]
    exact_mod_cast Iff.rfl
  | real x =>
    simp only [toInt, wholeOfReal_eq_ok_iff, Indexes, Denotes, rational?, Value.real.injEq]
    exact and_congr_right' ⟨fun h _ _ => h, fun h => h x rfl⟩

theorem judged_list_iff (kind : Kind) {xs : List Value} (hxs : ∀ v ∈ xs, v.IsNumber) :
    Judged kind xs (askList kind xs) ↔ ¬Exceeds xs := by
  rcases askList_cases kind xs with ⟨is, his, hout⟩ | ⟨hnone, fs, hout⟩
  · have hread : List.Forall₂ Indexes xs is :=
      ((List.forall₂_and_left xs is).mpr ⟨hxs, his⟩).imp fun v i h =>
        ((toNat_number_iff h.1 i).mp h.2).1
    rw [judged_iff_of_indices hread]
    refine iff_of_true hout ?_
    rintro ⟨_, x, hx, q, hq, hlarge⟩
    obtain ⟨i, hi⟩ := (exists_forall₂_iff xs).mp ⟨is, his⟩ _ hx
    obtain ⟨hi, hlt⟩ := (toNat_number_iff (hxs _ hx) i).mp hi
    obtain rfl : (i : ℚ) = q := Option.some.inj (hi.symm.trans hq)
    have hsmall := hlt x rfl
    exact absurd (by exact_mod_cast hsmall) (not_lt.mpr hlarge)
  · constructor
    · rintro hjudged ⟨⟨is, his⟩, _⟩
      rw [hjudged.taken is his] at hout
      cases hout
    · intro hsmall
      have hrefused : ¬∃ is, List.Forall₂ Indexes xs is := by
        rintro ⟨is, his⟩
        rw [exists_forall₂_iff] at hnone
        apply hnone
        intro v hv
        obtain ⟨i, hi⟩ := (exists_forall₂_iff xs).mp ⟨is, his⟩ v hv
        refine ⟨i, (toNat_number_iff (hxs v hv) i).mpr ⟨hi, ?_⟩⟩
        rintro x rfl
        by_contra hlarge
        exact hsmall ⟨⟨is, his⟩, x, hv, i, hi, by exact_mod_cast not_lt.mp hlarge⟩
      exact (judged_iff_of_none hrefused).mpr ⟨fs, hout⟩

namespace Container

theorem element_of_denotes {v : Value} {q : ℚ} (h : v.Denotes q) :
    element v = .ok (wholePart q) := by
  cases v with
  | int i =>
    obtain rfl := Option.some.inj h
    rw [wholePart_intCast]
    rfl
  | real x =>
    have hx : exactValue? x = some q := h
    rw [element, truncate, hx]
    rfl
  | _ => cases h

theorem element_of_not_finite {x : Float} (h : exactValue? x = none) :
    element (.real x) = .error (if x.isNaN then .unreadable else .stop .tooLarge) := by
  rw [element, truncate, h]
  cases x.isNaN <;> rfl

theorem mapM_element_of_denotes {xs : List Value} {qs : List ℚ}
    (h : List.Forall₂ Denotes xs qs) : xs.mapM element = .ok (qs.map wholePart) := by
  rw [mapM_eq_ok_iff, List.forall₂_map_right_iff]
  exact h.imp fun _ _ => element_of_denotes

theorem mapM_element_of_not_finite {xs : List Value} {v : Value} {e : ElementError}
    (h : firstNotFinite? xs = some v) (he : element v = .error e) :
    xs.mapM element = .error e := by
  induction xs with
  | nil => cases h
  | cons w xs ih =>
    rw [List.mapM_cons]
    cases hw : w.rational? with
    | none =>
      obtain rfl : w = v := by simpa [firstNotFinite?, hw] using h
      rw [he]
      rfl
    | some q =>
      rw [element_of_denotes hw, ih (by simpa [firstNotFinite?, hw] using h)]
      rfl

def ask (kind : Kind) (c : Container) : Except Error Cone :=
  readCone [("kind", .text kind.name)] c

section

variable {kind : Kind} {c d : Container}

theorem ask_congr (h : c.elements = d.elements) (kind : Kind) : c.ask kind = d.ask kind := by
  rw [ask, readCone, ask, readCone, h]

theorem ask_of_stop {e : Error} (h : c.elements = .error (.stop e)) : c.ask kind = .error e := by
  rw [ask, readCone, h]

theorem required_kind_only (kind : Kind) :
    required [("kind", .text kind.name)] "kind" toKind = .ok kind := required_kind rfl

theorem ask_of_unreadable (h : c.elements = .error .unreadable) :
    ∃ fs, c.ask kind = .error (.invalid fs) := by
  rw [ask, readCone, h]
  simp only [required_kind_only]
  exact ⟨_, rfl⟩

theorem toIndices_ints_eq_ok_iff (is : List ℤ) (ns : List ℕ) :
    toIndices (.list (is.map .int)) = .ok ns ↔ is = ns.map fun n : ℕ => (n : ℤ) := by
  have hint (i : ℤ) (n : ℕ) : (Value.int i).toNat = .ok n ↔ i = n := by
    rw [toNat_eq_ok_iff, toInt, Except.ok.injEq]
  have hitems := Checked.items_eq_ok_iff toNat 0 (is.map .int) ns
  rw [List.forall₂_map_left_iff] at hitems
  simp only [hint] at hitems
  rw [← List.forall₂_eq_eq_eq, List.forall₂_map_right_iff]
  exact hitems

theorem ask_of_elements {is : List ℤ} (h : c.elements = .ok is) (kind : Kind) :
    (∃ ns : List ℕ, is = ns.map (fun n : ℕ => (n : ℤ)) ∧ c.ask kind = .ok ⟨kind, ns⟩) ∨
      (¬∀ i ∈ is, 0 ≤ i) ∧ ∃ fs, c.ask kind = .error (.invalid fs) := by
  rw [ask, readCone, h]
  simp only [required_kind_only]
  cases hindices : toIndices (.list (is.map .int)) with
  | ok ns => exact .inl ⟨ns, (toIndices_ints_eq_ok_iff is ns).mp hindices, rfl⟩
  | error fs =>
    refine .inr ⟨?_, _, rfl⟩
    intro hpos
    have hcast : is = (is.map Int.toNat).map fun n : ℕ => (n : ℤ) := by
      rw [List.map_map]
      conv_lhs => rw [← List.map_id is]
      exact List.map_congr_left fun i hi => (Int.toNat_of_nonneg (hpos i hi)).symm
    rw [(toIndices_ints_eq_ok_iff is _).mpr hcast] at hindices
    cases hindices

end

theorem judged_tuple_of_denotes (kind : Kind) {xs : List Value} {qs : List ℚ}
    (hqs : List.Forall₂ Denotes xs qs) : Judged kind xs ((tuple xs).ask kind) ↔ ¬CutOff xs := by
  have helements : (tuple xs).elements = .ok (qs.map wholePart) := mapM_element_of_denotes hqs
  have habove := forall_isAbove_iff hqs
  rcases ask_of_elements helements kind with ⟨ns, hns, hout⟩ | ⟨hneg, fs, hout⟩
  · have hpos : ∀ i ∈ qs.map wholePart, 0 ≤ i := by
      rw [hns, List.forall_mem_map]
      exact fun n _ => n.cast_nonneg
    rw [cutOff_iff (habove.mpr hpos), not_not, hout]
    constructor
    · intro hjudged
      by_contra hrefused
      obtain ⟨fs, hfs⟩ := hjudged.refused hrefused
      cases hfs
    · rintro ⟨is, his⟩
      have hcast := hns.symm.trans (map_wholePart_of_indices hqs his)
      rw [judged_iff_of_indices his, List.map_injective_iff.mpr Nat.cast_injective hcast]
  · have hbelow := mt habove.mp hneg
    rw [judged_iff_of_none (mt isAbove_of_indices hbelow)]
    exact iff_of_true ⟨fs, hout⟩ fun hcut => hbelow hcut.above

theorem judged_tuple_of_not_finite (kind : Kind) {xs : List Value} {x : Float}
    (hx : firstNotFinite? xs = some (.real x)) (hnone : exactValue? x = none) :
    Judged kind xs ((tuple xs).ask kind) ↔ ¬StopsAtInfinity xs := by
  have hbelow : ¬∀ v ∈ xs, v.IsAbove := fun habove =>
    not_isAbove_of_not_finite hnone (habove _ (List.mem_of_find?_eq_some hx))
  have helements : (tuple xs).elements =
      .error (if x.isNaN then .unreadable else .stop .tooLarge) :=
    mapM_element_of_not_finite hx (element_of_not_finite hnone)
  rw [judged_iff_of_none (mt isAbove_of_indices hbelow), StopsAtInfinity, hx]
  cases hnan : x.isNaN with
  | true =>
    rw [hnan] at helements
    refine iff_of_true (ask_of_unreadable helements) ?_
    rintro ⟨y, hy, hyNaN⟩
    obtain rfl := Value.real.inj (Option.some.inj hy)
    rw [hnan] at hyNaN
    cases hyNaN
  | false =>
    rw [hnan, if_neg Bool.false_ne_true] at helements
    refine iff_of_false ?_ (not_not.mpr ⟨x, rfl, hnan⟩)
    rintro ⟨fs, hfs⟩
    rw [ask_of_stop helements] at hfs
    cases hfs

theorem judged_tuple_iff (kind : Kind) {xs : List Value} (hxs : ∀ v ∈ xs, v.IsNumber) :
    Judged kind xs ((tuple xs).ask kind) ↔ ¬(CutOff xs ∨ StopsAtInfinity xs) := by
  rcases exists_denotes_or_notFinite hxs with ⟨qs, hqs⟩ | ⟨x, hx, hnone⟩
  · rw [judged_tuple_of_denotes kind hqs, or_iff_left (not_stopsAtInfinity hqs)]
  · have hcut : ¬CutOff xs := fun hcut =>
      not_isAbove_of_not_finite hnone (hcut.above _ (List.mem_of_find?_eq_some hx))
    rw [judged_tuple_of_not_finite kind hx hnone, or_iff_right hcut]

structure Resembles (w v : Value) : Prop where
  indexes : (∃ i, w.Indexes i) ↔ ∃ i, v.Indexes i
  above : w.IsAbove ↔ v.IsAbove
  finite : w.rational?.isNone = v.rational?.isNone

theorem resembles_asReal {v : Value} (hv : v.IsNumber) : Resembles (asReal v) v := by
  cases hv with
  | int i h =>
    obtain ⟨j, hj, hsign, _⟩ := exactValue?_ofInt h
    have hi : (Value.int i).Denotes i := rfl
    have hj : (asReal (.int i)).Denotes j := hj
    constructor
    · rw [exists_indexes_of_whole hi, exists_indexes_of_whole hj, hsign]
    · rw [isAbove_of_whole hi, isAbove_of_whole hj, hsign]
    · rw [show rational? (.int i) = some (i : ℚ) from hi, show rational? _ = some (j : ℚ) from hj]
      rfl
  | real x => exact ⟨Iff.rfl, Iff.rfl, rfl⟩

theorem isNumber_asReal {v : Value} (hv : v.IsNumber) : (asReal v).IsNumber := by
  cases hv with
  | int i h => exact .real _
  | real x => exact .real x

structure Rounds (xs : List Value) : Prop where
  indices : ∃ is, List.Forall₂ Indexes xs is
  real : ∃ x, .real x ∈ xs
  rounded : ∃ i : ℤ, .int i ∈ xs ∧ exactValue? (Float.ofInt i) ≠ some (i : ℚ)

section

variable {xs : List Value} (hxs : ∀ v ∈ xs, v.IsNumber)

include hxs

theorem exists_indices_map_asReal : (∃ is, List.Forall₂ Indexes (xs.map asReal) is) ↔
    ∃ is, List.Forall₂ Indexes xs is := by
  rw [exists_forall₂_iff, exists_forall₂_iff, List.forall_mem_map]
  exact forall₂_congr fun v hv => (resembles_asReal (hxs v hv)).indexes

theorem cutOff_map_asReal : CutOff (xs.map asReal) ↔ CutOff xs := by
  have habove : (∀ v ∈ xs.map asReal, v.IsAbove) ↔ ∀ v ∈ xs, v.IsAbove := by
    rw [List.forall_mem_map]
    exact forall₂_congr fun v hv => (resembles_asReal (hxs v hv)).above
  constructor
  · intro h
    rw [cutOff_iff (habove.mp h.above), ← exists_indices_map_asReal hxs]
    exact h.no_indices
  · intro h
    rw [cutOff_iff (habove.mpr h.above), exists_indices_map_asReal hxs]
    exact h.no_indices

theorem firstNotFinite?_map_asReal : firstNotFinite? (xs.map asReal) = firstNotFinite? xs := by
  simp only [firstNotFinite?]
  induction xs with
  | nil => rfl
  | cons v xs ih =>
    rw [List.forall_mem_cons] at hxs
    have hfinite := (resembles_asReal hxs.1).finite
    rw [List.map_cons, List.find?_cons, List.find?_cons, hfinite, ih hxs.2]
    cases hv : v.rational?.isNone with
    | false => rfl
    | true =>
      cases hxs.1 with
      | int i _ => cases hv
      | real x => rfl

theorem any_of_numbers {p : Value → Bool} (hint : ∀ i : ℤ, |i| < 2 ^ 63 → p (.int i) = false)
    (hreal : ∀ x, p (.real x) = false) : xs.any p = false := by
  rw [List.any_eq_false]
  intro v hv
  rw [Bool.not_eq_true]
  cases hxs v hv with
  | int i h => exact hint i h
  | real x => exact hreal x

theorem unify_of_numbers : unify xs = if xs.any isReal then xs.map asReal else xs := by
  have hword : Int.pow 2 63 = 2 ^ 63 := rfl
  have hdouble : Int.pow 2 64 = 2 ^ 64 := rfl
  have hother : xs.any isOther = false := any_of_numbers hxs (fun _ _ => rfl) fun _ => rfl
  have htext : xs.any isText = false := any_of_numbers hxs (fun _ _ => rfl) fun _ => rfl
  have hhuge : xs.any isHuge = false := by
    apply any_of_numbers hxs _ fun _ => rfl
    intro i hi
    rw [abs_lt] at hi
    simp only [isHuge, hword, hdouble, Bool.or_eq_false_iff, decide_eq_false_iff_not]
    omega
  have hwide : xs.any isWide = false := by
    apply any_of_numbers hxs _ fun _ => rfl
    intro i hi
    rw [abs_lt] at hi
    simp only [isWide, hword, hdouble, Bool.and_eq_false_iff, decide_eq_false_iff_not]
    omega
  simp only [unify, hother, htext, hhuge, hwide, Bool.false_eq_true, if_false, Bool.false_or,
    Bool.not_false, Bool.true_or, if_true]

theorem elements_array : (array xs).elements =
    (tuple (if xs.any isReal then xs.map asReal else xs)).elements := by
  have hnested : xs.any isNested = false := any_of_numbers hxs (fun _ _ => rfl) fun _ => rfl
  have hrectangular : isRectangular xs = true := by
    rw [isRectangular]
    split
    · rfl
    · rename_i n ns hlengths
      have hmem : n ∈ n :: ns := List.mem_cons_self
      rw [← hlengths] at hmem
      obtain ⟨v, hv, hlength⟩ := List.mem_filterMap.mp hmem
      cases hxs v hv <;> cases hlength
  rw [← unify_of_numbers hxs]
  simp only [elements, hrectangular, hnested, Bool.not_true, Bool.false_eq_true, if_false]

theorem rounds_iff (hall : ∃ is, List.Forall₂ Indexes xs is) (hreal : xs.any isReal = true) :
    Rounds xs ↔ ¬∀ v ∈ xs, (asReal v).rational? = v.rational? := by
  constructor
  · rintro ⟨_, _, i, hi, hchanged⟩ hkept
    exact hchanged (hkept _ hi)
  · intro hchanged
    push Not at hchanged
    obtain ⟨v, hv, hne⟩ := hchanged
    obtain ⟨w, hw, hwReal⟩ := List.any_eq_true.mp hreal
    refine ⟨hall, ?_, ?_⟩
    · cases hxs w hw with
      | int i _ => cases hwReal
      | real x => exact ⟨x, hw⟩
    · cases hxs v hv with
      | int i _ => exact ⟨i, hv, hne⟩
      | real x => exact absurd rfl hne

end

theorem eq_iff_forall_asReal {xs : List Value} {is js : List ℕ} (his : List.Forall₂ Indexes xs is)
    (hjs : List.Forall₂ Indexes (xs.map asReal) js) :
    js = is ↔ ∀ v ∈ xs, (asReal v).rational? = v.rational? := by
  rw [List.forall₂_map_left_iff] at hjs
  constructor
  · rintro rfl
    induction his with
    | nil => simp
    | cons hv _ ih =>
      obtain ⟨hw, hjs⟩ := List.forall₂_cons.mp hjs
      exact List.forall_mem_cons.mpr ⟨hw.trans hv.symm, ih hjs⟩
  · intro hkept
    have hjs' : List.Forall₂ Indexes xs js :=
      ((List.forall₂_and_left xs js).mpr ⟨hkept, hjs⟩).imp fun v j h => h.1.symm.trans h.2
    exact forall₂_indexes_unique hjs' his

theorem judged_array_iff (kind : Kind) {xs : List Value} (hxs : ∀ v ∈ xs, v.IsNumber) :
    Judged kind xs ((array xs).ask kind) ↔
      ¬((CutOff xs ∨ StopsAtInfinity xs) ∨ Rounds xs) := by
  have helements := elements_array hxs
  by_cases hreal : xs.any isReal = true
  · rw [if_pos hreal] at helements
    have hmachine : ∀ v ∈ xs.map asReal, v.IsNumber :=
      List.forall_mem_map.mpr fun v hv => isNumber_asReal (hxs v hv)
    have htuple := judged_tuple_iff kind hmachine
    rw [cutOff_map_asReal hxs, StopsAtInfinity, firstNotFinite?_map_asReal hxs, ← StopsAtInfinity,
      ← ask_congr helements] at htuple
    by_cases hall : ∃ is, List.Forall₂ Indexes xs is
    · -- All numbers are indices as machine numbers too, but perhaps others.
      obtain ⟨js, hjs⟩ := (exists_indices_map_asReal hxs).mpr hall
      obtain ⟨is, his⟩ := hall
      have hright : ¬(CutOff xs ∨ StopsAtInfinity xs) := by
        rintro (hcut | hstops)
        · exact hcut.no_indices ⟨is, his⟩
        · exact not_stopsAtInfinity (forall₂_denotes_of_indexes his) hstops
      have hout := (judged_iff_of_indices hjs).mp (htuple.mpr hright)
      rw [judged_iff_of_indices his, hout, or_iff_right hright, rounds_iff hxs ⟨is, his⟩ hreal,
        not_not, ← eq_iff_forall_asReal his hjs]
      simp
    · have hmachineNone := mt (exists_indices_map_asReal hxs).mp hall
      rw [or_iff_left fun h : Rounds xs => hall h.indices, ← htuple, judged_iff_of_none hall,
        judged_iff_of_none hmachineNone]
  · rw [if_neg hreal] at helements
    have hnone : ¬Rounds xs := by
      rintro ⟨_, ⟨x, hx⟩, _⟩
      exact hreal (List.any_eq_true.mpr ⟨_, hx, rfl⟩)
    rw [or_iff_left hnone, ask_congr helements, judged_tuple_iff kind hxs]

theorem not_rounds_of_small {xs : List Value} (h : ∀ i : ℤ, .int i ∈ xs → |i| < 2 ^ 53) :
    ¬Rounds xs := by
  rintro ⟨_, _, i, hi, hchanged⟩
  have hsmall := h i hi
  obtain ⟨k, hk, _, hsame⟩ := exactValue?_ofInt (i := i) (by omega)
  rw [hsame hsmall] at hk
  exact hchanged hk

/-- Lists answer right but for machine numbers from `2 ^ 63` on. Tuples and arrays do not where
fractions are cut off or an infinity comes first among what is not finite, and arrays do not where
whole numbers are rounded. -/
theorem containers_judged_iff (kind : Kind) {xs : List Value} (hxs : ∀ v ∈ xs, v.IsNumber) :
    (Judged kind xs (askList kind xs) ↔ ¬Exceeds xs) ∧
      (Judged kind xs ((tuple xs).ask kind) ↔ ¬(CutOff xs ∨ StopsAtInfinity xs)) ∧
      (Judged kind xs ((array xs).ask kind) ↔
        ¬((CutOff xs ∨ StopsAtInfinity xs) ∨ Rounds xs)) :=
  ⟨judged_list_iff kind hxs, judged_tuple_iff kind hxs, judged_array_iff kind hxs⟩

def mixedIndices : List Value := [.int 2, .real 3.0]

theorem containers_judged_iff_mixed :
    askList .nonneg mixedIndices = .ok ⟨.nonneg, [2, 3]⟩ ∧
      (tuple mixedIndices).ask .nonneg = .ok ⟨.nonneg, [2, 3]⟩ ∧
      (array mixedIndices).ask .nonneg = .ok ⟨.nonneg, [2, 3]⟩ := by
  have hthree : exactValue? 3.0 = some ((3 : ℕ) : ℚ) := by decide +kernel
  have hindices : List.Forall₂ Indexes mixedIndices [2, 3] := .cons rfl (.cons hthree .nil)
  have hnumbers : ∀ v ∈ mixedIndices, v.IsNumber :=
    List.forall_mem_cons.mpr ⟨.int 2 (by norm_num), List.forall_mem_singleton.mpr (.real 3.0)⟩
  obtain ⟨hlist, htuple, harray⟩ := containers_judged_iff .nonneg hnumbers
  have hright : ¬(CutOff mixedIndices ∨ StopsAtInfinity mixedIndices) := by
    rintro (hcut | hstops)
    · exact hcut.no_indices ⟨_, hindices⟩
    · exact not_stopsAtInfinity (forall₂_denotes_of_indexes hindices) hstops
  have hrounds : ¬Rounds mixedIndices := by
    apply not_rounds_of_small
    intro i hi
    obtain rfl : i = 2 := by simpa [mixedIndices] using hi
    norm_num
  have hexceeds : ¬Exceeds mixedIndices := by
    rintro ⟨_, x, hx, q, hq, hlarge⟩
    obtain rfl : x = 3.0 := by simpa [mixedIndices] using hx
    obtain rfl := Option.some.inj (hthree.symm.trans hq)
    norm_num at hlarge
  exact ⟨(hlist.mpr hexceeds).taken _ hindices, (htuple.mpr hright).taken _ hindices,
    (harray.mpr (not_or.mpr ⟨hright, hrounds⟩)).taken _ hindices⟩

def halfBelow : List Value := [.int 2, .real (-0.5)]

theorem not_judged_halfBelow :
    (∀ v ∈ halfBelow, v.IsNumber) ∧
      (tuple halfBelow).ask .nonneg = .ok ⟨.nonneg, [2, 0]⟩ ∧
      (array halfBelow).ask .nonneg = .ok ⟨.nonneg, [2, 0]⟩ ∧
      ¬Judged .nonneg halfBelow ((tuple halfBelow).ask .nonneg) ∧
      ¬Judged .nonneg halfBelow ((array halfBelow).ask .nonneg) := by
  have hnumbers : ∀ v ∈ halfBelow, v.IsNumber :=
    List.forall_mem_cons.mpr ⟨.int 2 (by norm_num), List.forall_mem_singleton.mpr (.real (-0.5))⟩
  have htuple : (tuple halfBelow).ask .nonneg = .ok ⟨.nonneg, [2, 0]⟩ := by decide +kernel
  have harray : (array halfBelow).ask .nonneg = .ok ⟨.nonneg, [2, 0]⟩ := by decide +kernel
  have hvalue : exactValue? (-0.5) = some (-1 / 2) := by decide +kernel
  have hhalf : (Value.real (-0.5)).IsFractional := ⟨-1 / 2, hvalue, by decide +kernel⟩
  have hrefused : ¬∃ is, List.Forall₂ Indexes halfBelow is := by
    rw [exists_forall₂_iff]
    intro hall
    obtain ⟨i, hi⟩ := hall (.real (-0.5)) (by simp [halfBelow])
    exact hi.not_isFractional hhalf
  have hwrong : ¬Judged .nonneg halfBelow (.ok ⟨.nonneg, [2, 0]⟩) := by
    rw [judged_iff_of_none hrefused]
    simp
  exact ⟨hnumbers, htuple, harray, by rwa [htuple], by rwa [harray]⟩

end Container

end ConeLift
