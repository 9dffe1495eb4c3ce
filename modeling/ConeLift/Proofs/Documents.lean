import ConeLift.Proofs.Coordinates
import ConeLift.Wire.Check
import ConeLift.Wire.Dump

namespace ConeLift

namespace Checked

variable {β γ : Type}

theorem both_eq_ok_iff (a : Checked β) (b : Checked γ) (p : β × γ) :
    both a b = .ok p ↔ a = .ok p.1 ∧ b = .ok p.2 := by
  cases a with
  | error fs => cases b <;> simp [both]
  | ok x =>
    cases b with
    | error gs => simp [both]
    | ok y => simp [both, Prod.ext_iff]

theorem under_eq_ok_iff (step : Step) (a : Checked β) (b : β) : under step a = .ok b ↔ a = .ok b := by
  cases a <;> simp [under]

theorem items_eq_ok_iff (check : β → Checked γ) (i : ℕ) (xs : List β) (ys : List γ) :
    items check i xs = .ok ys ↔ List.Forall₂ (fun x y => check x = .ok y) xs ys := by
  induction xs generalizing i ys with
  | nil => simp [items, eq_comm]
  | cons x xs ih =>
    simp only [items, map_eq_ok_iff, both_eq_ok_iff, under_eq_ok_iff, ih,
      List.forall₂_cons_left_iff]
    constructor
    · rintro ⟨p, ⟨hx, hxs⟩, rfl⟩
      exact ⟨p.1, p.2, hx, hxs, rfl⟩
    · rintro ⟨y, ys, hx, hxs, rfl⟩
      exact ⟨(y, ys), ⟨hx, hxs⟩, rfl⟩

end Checked

theorem Kind.mem_all (k : Kind) : k ∈ all := by cases k <;> decide

namespace Value

open Checked

variable {β : Type}

theorem required_eq_ok_iff (fields : List (String × Value)) (name : String)
    (check : Value → Checked β) (b : β) :
    required fields name check = .ok b ↔ ∃ v, lookup fields name = some v ∧ check v = .ok b := by
  rw [required, under_eq_ok_iff]
  cases lookup fields name with
  | none => simp [fail]
  | some v => simp

theorem optional_eq_ok_iff (fields : List (String × Value)) (name : String)
    (check : Value → Checked β) (absent b : β) :
    optional fields name check absent = .ok b ↔
      (∃ v, lookup fields name = some v ∧ check v = .ok b) ∨
        lookup fields name = none ∧ b = absent := by
  rw [optional]
  cases lookup fields name with
  | none => simp [eq_comm]
  | some v => simp [under_eq_ok_iff]

theorem toList_eq_ok_iff (check : Value → Checked β) (v : Value) (bs : List β) :
    v.toList check = .ok bs ↔
      ∃ xs, v = .list xs ∧ List.Forall₂ (fun x b => check x = .ok b) xs bs := by
  cases v with
  | list xs => simp [toList, items_eq_ok_iff]
  | _ => simp [toList, fail]

theorem toRecord_eq_ok_iff (v : Value) (fields : List (String × Value)) :
    v.toRecord = .ok fields ↔ v = .record fields := by
  cases v with
  | record fs => simp [toRecord]
  | _ => simp [toRecord, fail]

theorem toList_map {check : Value → Checked β} {f : β → Value} {bs : List β}
    (h : ∀ b ∈ bs, check (f b) = .ok b) : (Value.list (bs.map f)).toList check = .ok bs := by
  rw [toList_eq_ok_iff]
  refine ⟨_, rfl, ?_⟩
  rw [List.forall₂_map_left_iff]
  exact List.forall₂_same.mpr h

theorem eq_name_of_toKind {v : Value} {k : Kind} (h : v.toKind = .ok k) : v = .text k.name := by
  cases v with
  | text s =>
    rw [toKind] at h
    cases hs : Kind.ofName? s with
    | none =>
      rw [hs] at h
      cases h
    | some k' =>
      rw [hs] at h
      cases h
      have hname : decide (k.name = s) = true := List.find?_some (p := fun k : Kind => k.name = s) hs
      rw [of_decide_eq_true hname]
  | _ => cases h

def indexValues : Value → List Value
  | .int i => [.int i]
  | .bool b => [.bool b]
  | .list xs => xs
  | _ => []

def listUnder (fields : List (String × Value)) (name : String) : List Value :=
  match lookup fields name with
  | some (.list xs) => xs
  | _ => []

section

-- However texts are read as numbers.
variable [Text.Rules]

theorem toNat_eq_ok_iff (v : Value) (i : ℕ) : v.toNat = .ok i ↔ v.toInt = .ok (i : ℤ) := by
  rw [toNat, bind_eq_ok_iff]
  constructor
  · rintro ⟨j, hj, h⟩
    split_ifs at h with hneg
    · cases h
    · cases h
      rwa [Int.toNat_of_nonneg (not_lt.mp hneg)]
  · intro h
    refine ⟨i, h, ?_⟩
    rw [if_neg (not_lt.mpr (Int.natCast_nonneg i)), Int.toNat_natCast]

theorem forall₂_of_toIndices {v : Value} {is : List ℕ} (h : v.toIndices = .ok is) :
    List.Forall₂ (fun (x : Value) (i : ℕ) => x.toInt = .ok (i : ℤ)) v.indexValues is := by
  -- All three ways to write indices down are read as a list.
  have hitems : ∀ xs : List Value, items toNat 0 xs = .ok is →
      List.Forall₂ (fun (x : Value) (i : ℕ) => x.toInt = .ok (i : ℤ)) xs is := by
    intro xs hxs
    exact ((items_eq_ok_iff _ _ _ _).mp hxs).imp fun x i => (toNat_eq_ok_iff x i).mp
  cases v with
  | int i => exact hitems _ h
  | bool b => exact hitems _ h
  | list xs => exact hitems xs h
  | _ => cases h

/-- A record that names the kind of a cone and lists its indices, each of them a whole number that
is not negative, in the order of the cone. -/
structure DescribesCone (v : Value) (k : Cone) : Prop where
  record : ∃ fields, v = .record fields ∧ lookup fields "kind" = some (.text k.kind.name) ∧
    List.Forall₂ (fun (x : Value) (i : ℕ) => x.toInt = .ok (i : ℤ))
      ((lookup fields "indices").elim [] indexValues) k.indices
  kind : k.kind.name ∈ Kind.all.map Kind.name

theorem coneOfFields_eq_ok_iff (fields : List (String × Value)) (k : Cone) :
    coneOfFields fields = .ok k ↔ required fields "kind" toKind = .ok k.kind ∧
      optional fields "indices" toIndices [] = .ok k.indices := by
  rw [coneOfFields, map_eq_ok_iff]
  simp only [both_eq_ok_iff]
  constructor
  · rintro ⟨p, h, rfl⟩
    exact h
  · intro h
    exact ⟨(k.kind, k.indices), h, rfl⟩

theorem describesCone_of_toCone {v : Value} {k : Cone} (h : v.toCone = .ok k) :
    v.DescribesCone k := by
  obtain ⟨fields, hfields, hcone⟩ := (bind_eq_ok_iff _ _ _).mp h
  obtain ⟨hkind, hindices⟩ := (coneOfFields_eq_ok_iff _ _).mp hcone
  obtain ⟨kv, hkv, hk⟩ := (required_eq_ok_iff _ _ _ _).mp hkind
  refine ⟨⟨fields, (toRecord_eq_ok_iff _ _).mp hfields, ?_, ?_⟩, ?_⟩
  · rw [hkv, eq_name_of_toKind hk]
  · rcases (optional_eq_ok_iff _ _ _ _ _).mp hindices with ⟨iv, hiv, hi⟩ | ⟨hnone, habsent⟩
    · rw [hiv]
      exact forall₂_of_toIndices hi
    · rw [hnone, habsent]
      exact .nil
  · exact List.mem_map_of_mem k.kind.mem_all

theorem toCone_toValue (k : Cone) : k.toValue.toCone = .ok k := by
  have hkind : toKind (.text k.kind.name) = .ok k.kind := by
    rw [toKind, Kind.ofName?_name]
  have hindices : toIndices (.ofNats k.indices) = .ok k.indices := by
    apply toList_map
    intro i _
    exact (toNat_eq_ok_iff _ i).mpr rfl
  apply (coneOfFields_eq_ok_iff _ _).mpr
  rw [required_eq_ok_iff, optional_eq_ok_iff]
  exact ⟨⟨_, rfl, hkind⟩, .inl ⟨_, rfl, hindices⟩⟩

theorem tripletsOfFields_eq_ok_iff (fields : List (String × Value)) (T : Triplets Float) :
    tripletsOfFields fields = .ok T ↔
      (required fields "shape" toPair = .ok (T.numRows, T.numCols) ∧
        optional fields "rows" (toList toInt) [] = .ok T.rows ∧
        optional fields "cols" (toList toInt) [] = .ok T.cols ∧
        optional fields "vals" (toList toReal) [] = .ok T.vals) ∧
      T.inconsistency? = none := by
  rw [tripletsOfFields, bind_eq_ok_iff]
  simp only [both_eq_ok_iff]
  constructor
  · rintro ⟨p, h, hT⟩
    cases hwhy : Triplets.inconsistency? ⟨p.1.1, p.1.2, p.2.1, p.2.2.1, p.2.2.2⟩ with
    | some why =>
      simp only [hwhy] at hT
      cases hT
    | none =>
      simp only [hwhy] at hT
      cases hT
      exact ⟨h, hwhy⟩
  · rintro ⟨h, hT⟩
    refine ⟨((T.numRows, T.numCols), T.rows, T.cols, T.vals), h, ?_⟩
    simp only [hT]

theorem toTriplets_toValue {T : Triplets Float} (h : T.inconsistency? = none) :
    T.toValue.toTriplets = .ok T := by
  apply (tripletsOfFields_eq_ok_iff _ _).mpr
  simp only [required_eq_ok_iff, optional_eq_ok_iff]
  refine ⟨⟨⟨_, rfl, rfl⟩, .inl ⟨_, rfl, toList_map fun _ _ => rfl⟩,
    .inl ⟨_, rfl, toList_map fun _ _ => rfl⟩, .inl ⟨_, rfl, toList_map fun _ _ => rfl⟩⟩, h⟩

theorem problemOfFields_eq_ok_iff (fields : List (String × Value)) (P : Problem Float) :
    problemOfFields fields = .ok P ↔
      (optional fields "name" toText "problem" = .ok P.name ∧
        required fields "c" (toList toReal) = .ok P.cost ∧
        required fields "A" toTriplets = .ok P.matrix ∧
        required fields "b" (toList toReal) = .ok P.rightHand ∧
        optional fields "constr_cones" (toList toCone) [] = .ok P.constraintCones ∧
        optional fields "var_cones" (toList toCone) [] = .ok P.variableCones) ∧
      P.inconsistency? = none := by
  rw [problemOfFields, bind_eq_ok_iff]
  simp only [both_eq_ok_iff]
  constructor
  · rintro ⟨p, h, hP⟩
    cases hwhy : Problem.inconsistency?
        ⟨p.1, p.2.1, p.2.2.1, p.2.2.2.1, p.2.2.2.2.1, p.2.2.2.2.2⟩ with
    | some why =>
      simp only [hwhy] at hP
      cases hP
    | none =>
      simp only [hwhy] at hP
      cases hP
      exact ⟨h, hwhy⟩
  · rintro ⟨h, hP⟩
    refine ⟨(P.name, P.cost, P.matrix, P.rightHand, P.constraintCones, P.variableCones), h, ?_⟩
    simp only [hP]

theorem toProblem_toValue {P : Problem Float} (h : P.Valid) : P.toValue.toProblem = .ok P := by
  apply (problemOfFields_eq_ok_iff _ _).mpr
  -- Every field is there under its name, optional ones too, so no default is used.
  simp only [required_eq_ok_iff, optional_eq_ok_iff]
  refine ⟨⟨.inl ⟨_, rfl, rfl⟩, ⟨_, rfl, toList_map fun _ _ => rfl⟩,
    ⟨_, rfl, toTriplets_toValue h.matrix⟩, ⟨_, rfl, toList_map fun _ _ => rfl⟩,
    .inl ⟨_, rfl, toList_map fun k _ => toCone_toValue k⟩,
    .inl ⟨_, rfl, toList_map fun k _ => toCone_toValue k⟩⟩, h.sizes⟩

theorem describesCones_of_optional {fields : List (String × Value)} {name : String}
    {ks : List Cone} (h : optional fields name (toList toCone) [] = .ok ks) :
    List.Forall₂ DescribesCone (listUnder fields name) ks := by
  rw [listUnder]
  rcases (optional_eq_ok_iff _ _ _ _ _).mp h with ⟨v, hv, hks⟩ | ⟨hnone, rfl⟩
  · obtain ⟨xs, rfl, hxs⟩ := (toList_eq_ok_iff _ _ _).mp hks
    rw [hv]
    exact hxs.imp fun x k => describesCone_of_toCone
  · rw [hnone]
    exact .nil

theorem valid_of_toProblem {v : Value} {P : Problem Float} (h : v.toProblem = .ok P) :
    P.Valid := by
  obtain ⟨fields, _, hproblem⟩ := (bind_eq_ok_iff _ _ _).mp h
  obtain ⟨⟨_, _, hmatrix, _⟩, hsizes⟩ := (problemOfFields_eq_ok_iff _ _).mp hproblem
  obtain ⟨mv, _, hT⟩ := (required_eq_ok_iff _ _ _ _).mp hmatrix
  obtain ⟨mfields, _, htriplets⟩ := (bind_eq_ok_iff _ _ _).mp hT
  exact ⟨((tripletsOfFields_eq_ok_iff _ _).mp htriplets).2, hsizes⟩

/-- A problem that passes the checks has agreeing sizes, entries inside its shape, and the cones
that the document lists; and the document that shows it passes them as the same problem. -/
theorem toProblem_settles {v : Value} {P : Problem Float} (h : v.toProblem = .ok P) :
    ((P.cost.length : ℤ) = P.matrix.numCols ∧ (P.rightHand.length : ℤ) = P.matrix.numRows) ∧
    ((P.matrix.rows.length = P.matrix.cols.length ∧
        P.matrix.cols.length = P.matrix.vals.length) ∧
      (∀ i ∈ P.matrix.rows, 0 ≤ i ∧ i < P.matrix.numRows) ∧
      ∀ j ∈ P.matrix.cols, 0 ≤ j ∧ j < P.matrix.numCols) ∧
    (∃ fields, v = .record fields ∧
      List.Forall₂ DescribesCone (listUnder fields "constr_cones") P.constraintCones ∧
      List.Forall₂ DescribesCone (listUnder fields "var_cones") P.variableCones) ∧
    P.toValue.toProblem = .ok P := by
  have hvalid := valid_of_toProblem h
  obtain ⟨fields, hfields, hproblem⟩ := (bind_eq_ok_iff _ _ _).mp h
  obtain ⟨⟨_, _, _, _, hconstraint, hvariable⟩, _⟩ := (problemOfFields_eq_ok_iff _ _).mp hproblem
  exact ⟨Problem.sizes_of_valid hvalid, (P.matrix.inconsistency?_eq_none_iff).mp hvalid.matrix,
    ⟨fields, (toRecord_eq_ok_iff _ _).mp hfields, describesCones_of_optional hconstraint,
      describesCones_of_optional hvariable⟩,
    toProblem_toValue hvalid⟩

end

def laxDocument : Value :=
  .record [
    ("b", .list [.text "nan"]),
    ("c", .list [.text "1_0.5", .bool true]),
    ("A", .record [
      ("shape", .list [.text "1", .real 2.0]),
      ("rows", .list [.bool false]),
      ("cols", .list [.text "1.0"]),
      ("vals", .list [.int 3])]),
    ("constr_cones", .list [.record [("indices", .bool false), ("kind", .text "SOC")]]),
    ("var_cones", .list [.record [("kind", .text "Free"), ("indices", .list [.text "1", .int 0])]]),
    ("note", .null)]

def laxProblem : Problem Float where
  name := "problem"
  cost := [10.5, 1.0]
  matrix := ⟨1, 2, [0], [1], [3.0]⟩
  rightHand := [0.0 / 0.0]
  constraintCones := [⟨.secondOrder, [0]⟩]
  variableCones := [⟨.free, [1, 0]⟩]

theorem toProblem_settles_lax :
    laxDocument.toProblem = .ok laxProblem ∧ laxProblem.toValue.toProblem = .ok laxProblem := by
  have hread : laxDocument.toProblem = .ok laxProblem := by rfl
  exact ⟨hread, (toProblem_settles hread).2.2.2⟩

end Value
end ConeLift
