import ConeLift.Proofs.Lift.Outcome
import ConeLift.Scalar.Extended

/-!
The same cones may be written down in several ways: with empty cones in between, in pieces, and
with second-order constraint cones before or after linear ones. Neither what is built nor what is
refused depends on it.
-/

namespace ConeLift

theorem quadraticCones_append (ks ls : List Cone) :
    quadraticCones (ks ++ ls) = quadraticCones ks ++ quadraticCones ls :=
  List.filter_append ks ls

structure SameRows (ks ls : List Cone) : Prop where
  unsupported : firstUnsupported ks = firstUnsupported ls
  linear : (Partition.ofCones ks).linear = (Partition.ofCones ls).linear
  secondOrder : (Partition.ofCones ks).secondOrder = (Partition.ofCones ls).secondOrder
  quadratic : quadraticCones ks = quadraticCones ls

structure SameVariables (α : Type) [Scalar α] (ks ls : List Cone) : Prop where
  unsupported : firstUnsupported ks = firstUnsupported ls
  quadratic : quadraticCones ks = quadraticCones ls
  bounds : ∀ B : Bounds α, ks.foldlM Bounds.applyCone B = ls.foldlM Bounds.applyCone B

variable {α : Type} [Scalar α] {ks ls : List Cone}

theorem SameRows.within (h : SameRows ks ls) (before after : List Cone) :
    SameRows (before ++ ks ++ after) (before ++ ls ++ after) where
  unsupported := by simp only [firstUnsupported_append, h.unsupported]
  linear := by simp only [Partition.linear_append, h.linear]
  secondOrder := by simp only [Partition.secondOrder_append, h.secondOrder]
  quadratic := by simp only [quadraticCones_append, h.quadratic]

theorem SameVariables.within (h : SameVariables α ks ls) (before after : List Cone) :
    SameVariables α (before ++ ks ++ after) (before ++ ls ++ after) where
  unsupported := by simp only [firstUnsupported_append, h.unsupported]
  quadratic := by simp only [quadraticCones_append, h.quadratic]
  bounds B := by simp only [List.foldlM_append, h.bounds]

theorem Bounds.applyAuxiliary_quadraticCones (B : Bounds α) (first : ℤ) (cones : List Cone) :
    B.applyAuxiliary first (quadraticCones cones) = B.applyAuxiliary first cones := by
  induction cones generalizing B first with
  | nil => rfl
  | cons k ks ih =>
    by_cases hk : (k.isSecondOrder && !k.indices.isEmpty) = true
    · rw [quadraticCones_cons_of_pos hk, applyAuxiliary, if_pos hk, applyAuxiliary, if_pos hk]
      simp only [ih]
    · rw [quadraticCones_cons_of_neg hk, ih]
      conv_rhs => rw [applyAuxiliary, if_neg hk]

theorem auxiliaryQuadratics_quadraticCones (first : ℤ) (cones : List Cone) :
    auxiliaryQuadratics (α := α) first (quadraticCones cones) =
      auxiliaryQuadratics first cones := by
  induction cones generalizing first with
  | nil => rfl
  | cons k ks ih =>
    by_cases hk : (k.isSecondOrder && !k.indices.isEmpty) = true
    · rw [quadraticCones_cons_of_pos hk, auxiliaryQuadratics, if_pos hk, auxiliaryQuadratics,
        if_pos hk, ih]
    · rw [quadraticCones_cons_of_neg hk, ih]
      conv_rhs => rw [auxiliaryQuadratics, if_neg hk]

section

variable {ks' ls' : List Cone} (hrows : SameRows ks ls) (hvariables : SameVariables α ks' ls')

include hrows hvariables

theorem Bounds.ofVariables_congr (numOrig numAux : ℤ) :
    ofVariables (α := α) ks' ks numOrig numAux = ofVariables ls' ls numOrig numAux := by
  have hauxiliary (B : Bounds α) : B.applyAuxiliary numOrig ks = B.applyAuxiliary numOrig ls := by
    rw [← applyAuxiliary_quadraticCones, hrows.quadratic, applyAuxiliary_quadraticCones]
  simp only [ofVariables, hvariables.bounds, hauxiliary]

theorem coneQuadratics_congr (numOrig : ℤ) :
    coneQuadratics (α := α) ks' ks numOrig = coneQuadratics ls' ls numOrig := by
  have hauxiliary : auxiliaryQuadratics (α := α) numOrig ks = auxiliaryQuadratics numOrig ls := by
    rw [← auxiliaryQuadratics_quadraticCones, hrows.quadratic, auxiliaryQuadratics_quadraticCones]
  have hquadratic := hvariables.quadratic
  rw [quadraticCones, quadraticCones] at hquadratic
  rw [coneQuadratics, coneQuadratics, hquadratic, hauxiliary]

theorem Lifted.checkKinds_congr : checkKinds ks ks' = checkKinds ls ls' := by
  rw [checkKinds_eq, checkKinds_eq, firstUnsupported_append, firstUnsupported_append,
    hrows.unsupported, hvariables.unsupported]

theorem Lifted.ofNumbers_congr (n : Numbers α) : ofNumbers n ks ks' = ofNumbers n ls ls' := by
  have hparts : Partition.ofCones ks = Partition.ofCones ls := by
    rw [Partition.mk.injEq]
    exact ⟨hrows.linear, hrows.secondOrder⟩
  simp only [ofNumbers, hparts, Bounds.ofVariables_congr hrows hvariables,
    coneQuadratics_congr hrows hvariables]

end

/-- An empty cone disappears, and pieces of a linear cone become one. -/
inductive Joins : List Cone → List Cone → Prop where
  | empty (k : Cone) (hkind : k.kind.supported = true) (hk : k.indices = []) : Joins [k] []
  | pieces (kind : Kind) (hkind : kind ≠ .secondOrder) (is js : List ℕ) :
    Joins [⟨kind, is⟩, ⟨kind, js⟩] [⟨kind, is ++ js⟩]

theorem Joins.sameRows (h : Joins ks ls) : SameRows ks ls := by
  cases h with
  | empty k hkind hk =>
    constructor
    · simp [firstUnsupported, hkind]
    · simp [Partition.ofCones, List.filter_cons, hk]
    · simp [Partition.ofCones, List.filter_cons, hk]
    · simp [quadraticCones, hk]
  | pieces kind hkind is js =>
    have hlinear (is : List ℕ) : Cone.isSecondOrder ⟨kind, is⟩ = false := by
      simpa [Cone.isSecondOrder] using hkind
    constructor
    · simp only [firstUnsupported, List.find?_cons]
      cases kind.supported <;> rfl
    · simp [Partition.ofCones, hlinear]
    · simp [Partition.ofCones, hlinear]
    · simp [quadraticCones, hlinear]

theorem Joins.sameVariables (h : Joins ks ls) : SameVariables α ks ls := by
  refine ⟨h.sameRows.unsupported, h.sameRows.quadratic, ?_⟩
  intro B
  cases h with
  | empty k hkind hk =>
    have happly : B.applyCone k = .ok B := by simp [Bounds.applyCone, hk, pure, Except.pure]
    rw [List.foldlM_cons, happly]
    rfl
  | pieces kind hkind is js =>
    have hlinear (is : List ℕ) : Cone.isSecondOrder ⟨kind, is⟩ = false := by
      simpa [Cone.isSecondOrder] using hkind
    simp [Bounds.applyCone, hlinear, List.foldlM_append]

theorem sameRows_exchange {k l : Cone} (hk : k.isSecondOrder = true)
    (hl : l.isSecondOrder = false) : SameRows [k, l] [l, k] := by
  have hkind : k.kind.supported = true := by
    have hk : k.kind = .secondOrder := by simpa [Cone.isSecondOrder] using hk
    rw [hk]
    rfl
  constructor
  · simp [firstUnsupported, List.find?_cons, hkind]
  · simp [Partition.ofCones, hk, hl]
  · simp [Partition.ofCones, hk, hl]
  · simp [quadraticCones, hk, hl, List.filter_cons]

/-- The same problem with its cones written down in another way. -/
inductive Respelt : ConicData α → ConicData α → Prop where
  | constraintCones (d : ConicData α) {ks ls : List Cone} (before after : List Cone)
    (h : Joins ks ls) (hd : d.constraintCones = before ++ ks ++ after) :
    Respelt d { d with constraintCones := before ++ ls ++ after }
  | variableCones (d : ConicData α) {ks ls : List Cone} (before after : List Cone)
    (h : Joins ks ls) (hd : d.variableCones = before ++ ks ++ after) :
    Respelt d { d with variableCones := before ++ ls ++ after }
  | exchange (d : ConicData α) (before after : List Cone) {k l : Cone}
    (hk : k.isSecondOrder = true) (hl : l.isSecondOrder = false)
    (hd : d.constraintCones = before ++ [k, l] ++ after) :
    Respelt d { d with constraintCones := before ++ [l, k] ++ after }

namespace Lifted

variable {d d' : ConicData α}

theorem build_congr (hnumbers : readNumbers d = readNumbers d')
    (hrows : SameRows d.constraintCones d'.constraintCones)
    (hvariables : SameVariables α d.variableCones d'.variableCones) : build d = build d' := by
  simp only [build, hnumbers, checkKinds_congr hrows hvariables,
    ofNumbers_congr hrows hvariables]

theorem build_of_respelt (h : Respelt d d') : build d = build d' := by
  cases h with
  | constraintCones before after h hd =>
    refine build_congr rfl ?_ ⟨rfl, rfl, fun _ => rfl⟩
    rw [hd]
    exact h.sameRows.within before after
  | variableCones before after h hd =>
    refine build_congr rfl ⟨rfl, rfl, rfl, rfl⟩ ?_
    rw [hd]
    exact h.sameVariables.within before after
  | exchange before after hk hl hd =>
    refine build_congr rfl ?_ ⟨rfl, rfl, fun _ => rfl⟩
    rw [hd]
    exact (sameRows_exchange hk hl).within before after

/-- After any number of respellings, in either direction, the same problem is built, or the same
error reported. -/
theorem build_respelling (h : Relation.EqvGen Respelt d d') : build d = build d' := by
  induction h with
  | rel d d' h => exact build_of_respelt h
  | refl d => rfl
  | symm d d' _ ih => exact ih.symm
  | trans d d' d'' _ _ ih ih' => exact ih.trans ih'

def spelled (constraintCones variableCones : List Cone) : ConicData Extended where
  cost := .ofList [.finite 1, .finite 1]
  matrix := .compressed ⟨2, [[(0, .finite 1)], [(1, .finite 2)], [(0, .finite 3)]]⟩
  rightHand := .ofList [.finite 5, .finite 6, .finite 7]
  constraintCones
  variableCones

theorem build_respelling_spelled :
    build (spelled [⟨.secondOrder, [2, 0]⟩, ⟨.zero, [1, 0]⟩] [⟨.nonneg, [0, 1]⟩]) =
        build (spelled [⟨.zero, [1]⟩, ⟨.secondOrder, [2, 0]⟩, ⟨.zero, [0]⟩]
          [⟨.secondOrder, []⟩, ⟨.nonneg, [0, 1]⟩]) ∧
      ∃ p, build (spelled [⟨.secondOrder, [2, 0]⟩, ⟨.zero, [1, 0]⟩] [⟨.nonneg, [0, 1]⟩]) = .ok p ∧
        p.numLinear = 2 ∧ p.numAux = 2 := by
  have hpieces := Respelt.constraintCones (spelled [⟨.secondOrder, [2, 0]⟩, ⟨.zero, [1]⟩,
    ⟨.zero, [0]⟩] [⟨.nonneg, [0, 1]⟩]) [⟨.secondOrder, [2, 0]⟩] []
    (.pieces .zero (by decide) [1] [0]) rfl
  have hexchange := Respelt.exchange (spelled [⟨.secondOrder, [2, 0]⟩, ⟨.zero, [1]⟩,
    ⟨.zero, [0]⟩] [⟨.nonneg, [0, 1]⟩]) [] [⟨.zero, [0]⟩] rfl rfl rfl
  have hempty := Respelt.variableCones (spelled [⟨.zero, [1]⟩, ⟨.secondOrder, [2, 0]⟩,
    ⟨.zero, [0]⟩] [⟨.secondOrder, []⟩, ⟨.nonneg, [0, 1]⟩]) [] [⟨.nonneg, [0, 1]⟩]
    (.empty ⟨.secondOrder, []⟩ rfl rfl) rfl
  refine ⟨build_respelling ?_, _, rfl, rfl, rfl⟩
  exact .trans _ _ _ (.symm _ _ (.rel _ _ hpieces)) (.trans _ _ _ (.rel _ _ hexchange)
    (.symm _ _ (.rel _ _ hempty)))

end Lifted

end ConeLift
