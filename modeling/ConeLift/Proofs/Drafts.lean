import ConeLift.Instance.Basic
import ConeLift.Proofs.Coordinates

namespace ConeLift

variable {α : Type}

theorem RowMatrix.listing_concat (w : ℕ) (rows : List (List (ℕ × α))) (row : List (ℕ × α)) :
    (RowMatrix.mk w (rows ++ [row])).listing =
      (RowMatrix.mk w rows).listing ++ row.map fun e => (rows.length, e) := by
  rw [listing_eq_zip, listing_eq_zip, numRows, numRows, List.length_append, List.length_singleton,
    List.range_succ, List.zip_append (by simp), List.flatMap_append]
  simp

theorem Triplets.ofRows_concat (w : ℕ) (rows : List (List (ℕ × α))) (row : List (ℕ × α)) :
    ofRows ⟨w, rows ++ [row]⟩ =
      { numRows := rows.length + 1
        numCols := w
        rows := (ofRows ⟨w, rows⟩).rows ++ row.map fun _ => (rows.length : ℤ)
        cols := (ofRows ⟨w, rows⟩).cols ++ row.map fun e => (e.1 : ℤ)
        vals := (ofRows ⟨w, rows⟩).vals ++ row.map Prod.snd } := by
  simp only [ofRows_eq_listing, RowMatrix.listing_concat, List.map_append, List.map_map,
    Function.comp_def, RowMatrix.numRows, List.length_append, List.length_singleton, Nat.cast_add,
    Nat.cast_one]

namespace Instance.Draft

def write (d : Draft α) (row : List (ℕ × α)) (b : α) (count : ℕ) : Draft α where
  rows := d.rows ++ row.map fun _ => (d.next : ℤ)
  cols := d.cols ++ row.map fun e => (e.1 : ℤ)
  vals := d.vals ++ row.map Prod.snd
  rightHand := d.rightHand ++ [b]
  drawn := d.drawn + count

section

variable [Scalar α]

theorem cap_eq_write (d : Draft α) (j : ℕ) : d.cap (j + 1) = d.write [(j + 1, 1)] 1 0 := rfl

theorem lead_eq_write (d : Draft α) : d.lead = d.write [(0, -1)] 0 0 := rfl

theorem foldl_drawEntry (u : ℕ → α) (row : ℕ) (js : List ℤ) (d : Draft α) :
    js.foldl (drawEntry u row) d =
      { d with
        rows := d.rows ++ js.map fun _ => (row : ℤ)
        cols := d.cols ++ js
        vals := d.vals ++
          (List.range js.length).map fun k => symmetric coefRange (u (d.drawn + k))
        drawn := d.drawn + js.length } := by
  induction js generalizing d with
  | nil => simp
  | cons j js ih =>
    have hshift (k : ℕ) : d.drawn + 1 + k = d.drawn + (k + 1) := by omega
    rw [List.foldl_cons, ih]
    simp only [drawEntry, entry, draw, List.append_assoc, List.singleton_append, List.map_cons,
      List.length_cons, List.range_succ_eq_map, List.map_map, Function.comp_def, hshift,
      Nat.succ_eq_add_one, Nat.add_zero]

theorem drawRow_eq_write (u : ℕ → α) (m : ℕ) (d : Draft α) :
    d.drawRow u ((List.range m).map fun j : ℕ => (j : ℤ) + 1) =
      d.write ((List.range m).map fun j => (j + 1, symmetric coefRange (u (d.drawn + j))))
        (symmetric rightHandRange (u (d.drawn + m))) (m + 1) := by
  rw [drawRow, foldl_drawEntry]
  simp [write, close, draw, Function.comp_def, Nat.add_assoc]

end

structure Holds (d : Draft α) (w : ℕ) (rows : List (List (ℕ × α))) (right : List α)
    (drawn : ℕ) : Prop where
  matrix : d.matrix w = .ofRows ⟨w, rows⟩
  rightHand : d.rightHand = right
  drawn : d.drawn = drawn

variable {d : Draft α} {w k : ℕ} {rows : List (List (ℕ × α))} {right : List α}

theorem holds_blank (w : ℕ) : (blank : Draft α).Holds w [] [] 0 := ⟨rfl, rfl, rfl⟩

theorem Holds.next (h : d.Holds w rows right k) : d.next = rows.length := by
  have hnumRows : (d.next : ℤ) = (rows.length : ℤ) := congrArg Triplets.numRows h.matrix
  exact_mod_cast hnumRows

theorem Holds.write (h : d.Holds w rows right k) (row : List (ℕ × α)) (b : α) (count : ℕ) :
    (d.write row b count).Holds w (rows ++ [row]) (right ++ [b]) (k + count) := by
  have hrows : d.rows = (Triplets.ofRows ⟨w, rows⟩).rows := congrArg Triplets.rows h.matrix
  have hcols : d.cols = (Triplets.ofRows ⟨w, rows⟩).cols := congrArg Triplets.cols h.matrix
  have hvals : d.vals = (Triplets.ofRows ⟨w, rows⟩).vals := congrArg Triplets.vals h.matrix
  have hnext : (d.write row b count).next = rows.length + 1 := by
    rw [← h.next, Draft.next, Draft.write, List.length_append, List.length_singleton, Draft.next]
  constructor
  · rw [Triplets.ofRows_concat, Draft.matrix, hnext]
    simp only [Draft.write, h.next, hrows, hcols, hvals, Nat.cast_add, Nat.cast_one]
  · rw [Draft.write, h.rightHand]
  · rw [Draft.write, h.drawn]

variable [Scalar α]

theorem Holds.caps (h : d.Holds w rows right k) (m : ℕ) :
    (((List.range m).map fun j : ℕ => (j : ℤ) + 1).foldl cap d).Holds w
      (rows ++ (List.range m).map fun i => [(i + 1, 1)]) (right ++ List.replicate m 1) k := by
  induction m with
  | zero => simpa using h
  | succ m ih =>
    have hlast := ih.write [(m + 1, 1)] 1 0
    rw [← cap_eq_write] at hlast
    simpa [List.range_succ, List.replicate_succ'] using hlast

theorem Holds.drawRows (h : d.Holds w rows right k) (u : ℕ → α) (m count : ℕ) :
    ((List.range count).foldl
        (fun d _ => d.drawRow u ((List.range m).map fun j : ℕ => (j : ℤ) + 1)) d).Holds w
      (rows ++ (List.range count).map fun r =>
        (List.range m).map fun j => (j + 1, symmetric coefRange (u (k + r * (m + 1) + j))))
      (right ++ (List.range count).map fun r =>
        symmetric rightHandRange (u (k + r * (m + 1) + m)))
      (k + count * (m + 1)) := by
  induction count with
  | zero => simpa using h
  | succ count ih =>
    have hlast := ih.write
      ((List.range m).map fun j => (j + 1, symmetric coefRange (u (k + count * (m + 1) + j))))
      (symmetric rightHandRange (u (k + count * (m + 1) + m))) (m + 1)
    have hdrawn := drawRow_eq_write u m ((List.range count).foldl
      (fun d _ => d.drawRow u ((List.range m).map fun j : ℕ => (j : ℤ) + 1)) d)
    rw [ih.drawn] at hdrawn
    rw [← hdrawn] at hlast
    rw [List.range_succ, List.foldl_append, List.foldl_cons, List.foldl_nil, List.map_append,
      List.map_append, ← List.append_assoc, ← List.append_assoc, Nat.add_mul, Nat.one_mul,
      ← Nat.add_assoc]
    exact hlast

end Instance.Draft

end ConeLift
