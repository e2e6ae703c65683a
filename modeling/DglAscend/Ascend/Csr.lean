import Mathlib.Tactic

/-!
# CSR matrices

A CSR matrix as its index arrays say: the rows are consecutive ranges of edges, and every edge has
a column.
-/

namespace DglAscend.Ascend

/-- A CSR matrix. -/
structure Csr where
  numRows : ℕ
  numCols : ℕ
  indptr : List ℕ
  indices : List ℕ
  indptr_length : indptr.length = numRows + 1
  indptr_zero : indptr.getD 0 0 = 0
  indptr_mono : ∀ r < numRows, indptr.getD r 0 ≤ indptr.getD (r + 1) 0
  indptr_last : indptr.getD numRows 0 = indices.length
  col_lt : ∀ c ∈ indices, c < numCols

namespace Csr

variable {csr : Csr} {r r' a b : ℕ}

/-- The first edge of a row. -/
def ptr (csr : Csr) (r : ℕ) : ℕ := csr.indptr.getD r 0

/-- The column of an edge. -/
def col (csr : Csr) (e : ℕ) : ℕ := csr.indices.getD e 0

/-- The edges between two positions. -/
def edgesBetween (a b : ℕ) : List ℕ := List.range' a (b - a)

/-- The edges of a row. -/
def rowEdges (csr : Csr) (r : ℕ) : List ℕ := edgesBetween (csr.ptr r) (csr.ptr (r + 1))

/-- The columns of a row. -/
def rowCols (csr : Csr) (r : ℕ) : List ℕ := (csr.rowEdges r).map csr.col

lemma mem_edgesBetween {e : ℕ} : e ∈ edgesBetween a b ↔ a ≤ e ∧ e < b := by
  rw [edgesBetween, List.mem_range'_1]
  omega

lemma edgesBetween_append {c : ℕ} (hab : a ≤ b) (hbc : b ≤ c) :
    edgesBetween a b ++ edgesBetween b c = edgesBetween a c := by
  have happ := List.range'_append_1 (s := a) (m := b - a) (n := c - b)
  rw [edgesBetween, edgesBetween, edgesBetween]
  rw [show a + (b - a) = b by omega, show b - a + (c - b) = c - a by omega] at happ
  exact happ

lemma ptr_mono (hr : r ≤ r') (hr' : r' ≤ csr.numRows) : csr.ptr r ≤ csr.ptr r' := by
  induction r', hr using Nat.le_induction with
  | base => exact le_refl _
  | succ k _ ih => exact (ih (by omega)).trans (csr.indptr_mono k (by omega))

lemma flatMap_rowEdges (hr : r ≤ r') (hr' : r' ≤ csr.numRows) :
    (List.range' r (r' - r)).flatMap csr.rowEdges = edgesBetween (csr.ptr r) (csr.ptr r') := by
  induction r', hr using Nat.le_induction with
  | base => simp [edgesBetween]
  | succ k hk ih =>
      have ih := ih (by omega)
      rw [show k + 1 - r = k - r + 1 by omega, List.range'_1_concat, List.flatMap_append,
        List.flatMap_singleton, ih, show r + (k - r) = k by omega]
      exact edgesBetween_append (ptr_mono hk (by omega)) (csr.indptr_mono k (by omega))

/-- Two edges from row 0 to column 0. -/
def parallelEdges : Csr where
  numRows := 1
  numCols := 1
  indptr := [0, 2]
  indices := [0, 0]
  indptr_length := rfl
  indptr_zero := rfl
  indptr_mono := by decide
  indptr_last := rfl
  col_lt := by decide

end Csr

end DglAscend.Ascend
