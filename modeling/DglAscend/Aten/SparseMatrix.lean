import Mathlib.Data.List.GetD
import DglAscend.Lib.CountingSort
import DglAscend.Lib.Slots

/-!
# COO and CSR matrices

`aten/coo.h` and `aten/csr.h` on the host.  A matrix stores its entries `(row, column, id)`; the id
of an entry is its place when the data array is null, and an array without elements is null.
-/

namespace DglAscend.Aten

/-- Row, column and edge id. -/
abbrev Entry := ℕ × ℕ × ℕ

/-- The entry of the transposed matrix. -/
def Entry.swap (e : Entry) : Entry := (e.2.1, e.1, e.2.2)

/-- `CHECK_NO_OVERFLOW` for arrays of `bits`-bit ids. -/
def noOverflow (bits val : ℕ) : Bool := bits = 32 → val ≤ 0x7FFFFFFF

/-- The conversion of an `int64_t` to the type of the ids. -/
def castId (bits : ℕ) (x : ℤ) : ℤ := if bits = 32 then x.bmod (2 ^ 32) else x

variable {bits m n : ℕ}

lemma castId_eq (h : noOverflow bits n = true) : castId bits n = n := by
  unfold castId
  by_cases hbits : bits = 32
  · have hle : n ≤ 0x7FFFFFFF := of_decide_eq_true h hbits
    rw [if_pos hbits, Int.bmod_eq_of_le_mul_two] <;> omega
  · rw [if_neg hbits]

lemma noOverflow_mono (hmn : m ≤ n) (h : noOverflow bits n = true) : noOverflow bits m = true :=
  decide_eq_true fun hbits => hmn.trans (of_decide_eq_true h hbits)

/-- What is converted to itself is of the type. -/
lemma noOverflow_of_castId {x : ℤ} (h : castId bits x = n) : noOverflow bits n = true := by
  refine decide_eq_true fun hbits => ?_
  have hlt := Int.bmod_lt (x := x) (m := 2 ^ 32) (by omega)
  rw [castId, if_pos hbits] at h
  omega

/-- `COOMatrix`, with the width of its ids. -/
structure COOMatrix where
  bits : ℕ
  numRows : ℕ
  numCols : ℕ
  row : List ℕ
  col : List ℕ
  data : List ℕ
  rowSorted : Bool
  colSorted : Bool
  deriving DecidableEq, Repr

/-- `CSRMatrix`, with the width of its ids. -/
structure CSRMatrix where
  bits : ℕ
  numRows : ℕ
  numCols : ℕ
  indptr : List ℕ
  indices : List ℕ
  data : List ℕ
  sorted : Bool
  deriving DecidableEq, Repr

/-- The id at a place of a data array that may be null. -/
def idAt (data : List ℕ) (i : ℕ) : ℕ := if data = [] then i else data.getD i 0

/-- A data array numbers `n` entries. -/
def Numbers (data : List ℕ) (n : ℕ) : Prop := data = [] ∨ data.Perm (List.range n)

lemma map_idAt_nil (n : ℕ) : (List.range n).map (idAt []) = List.range n := by
  have hid : idAt [] = id := funext fun i => if_pos rfl
  rw [hid, List.map_id]

variable {data : List ℕ}

lemma map_idAt_eq (hlen : data.length = n) (hd : data ≠ []) :
    (List.range n).map (idAt data) = data := by
  apply List.ext_getElem
  · rw [List.length_map, List.length_range, hlen]
  · intro i hi hi'
    rw [List.getElem_map, List.getElem_range, idAt, if_neg hd, List.getD_eq_getElem _ _ hi']

lemma Numbers.length (h : Numbers data n) (hd : data ≠ []) : data.length = n := by
  rw [(h.resolve_left hd).length_eq, List.length_range]

lemma Numbers.map_idAt_eq (h : Numbers data n) (hd : data ≠ []) :
    (List.range n).map (idAt data) = data := Aten.map_idAt_eq (h.length hd) hd

lemma Numbers.map_idAt (h : Numbers data n) :
    ((List.range n).map (idAt data)).Perm (List.range n) := by
  by_cases hd : data = []
  · rw [hd, map_idAt_nil]
  · rw [h.map_idAt_eq hd]
    exact h.resolve_left hd

/-! ## COO -/

namespace COOMatrix

variable {coo : COOMatrix}

/-- The number of entries. -/
def nnz (coo : COOMatrix) : ℕ := coo.row.length

/-- `COOHasData`. -/
def hasData (coo : COOMatrix) : Bool := coo.data ≠ []

/-- The entry at a place. -/
def entry (coo : COOMatrix) (i : ℕ) : Entry :=
  (coo.row.getD i 0, coo.col.getD i 0, idAt coo.data i)

/-- The entries in the order of the arrays. -/
def entries (coo : COOMatrix) : List Entry := (List.range coo.nnz).map coo.entry

/-- The arrays describe a matrix of the given shape. -/
structure Valid (coo : COOMatrix) : Prop where
  col_length : coo.col.length = coo.nnz
  row_lt : ∀ r ∈ coo.row, r < coo.numRows
  col_lt : ∀ c ∈ coo.col, c < coo.numCols
  numbers : Numbers coo.data coo.nnz
  sorted : coo.rowSorted = true → coo.row.Pairwise (· ≤ ·)

/-- The arrays belong together and the rows are rows of the matrix. -/
structure InRange (coo : COOMatrix) : Prop where
  col_length : coo.col.length = coo.nnz
  row_lt : ∀ r ∈ coo.row, r < coo.numRows
  data_length : coo.data ≠ [] → coo.data.length = coo.nnz
  sorted : coo.rowSorted = true → coo.row.Pairwise (· ≤ ·)

lemma Valid.inRange (h : coo.Valid) : coo.InRange where
  col_length := h.col_length
  row_lt := h.row_lt
  data_length := h.numbers.length
  sorted := h.sorted

/-- The columns within a row are sorted. -/
def ColsSorted (coo : COOMatrix) : Prop :=
  coo.colSorted = true → coo.entries.Pairwise fun e e' => e.1 = e'.1 → e.2.1 ≤ e'.2.1

/-- `aten::COOTranspose`: the flags are not handed on. -/
def transpose (coo : COOMatrix) : COOMatrix where
  bits := coo.bits
  numRows := coo.numCols
  numCols := coo.numRows
  row := coo.col
  col := coo.row
  data := coo.data
  rowSorted := false
  colSorted := false

lemma Valid.transpose (h : coo.Valid) : coo.transpose.Valid where
  col_length := h.col_length.symm
  row_lt := h.col_lt
  col_lt := h.row_lt
  numbers := by
    show Numbers coo.data coo.col.length
    rw [h.col_length]
    exact h.numbers
  sorted := nofun

lemma map_fst_entries (coo : COOMatrix) : coo.entries.map Prod.fst = coo.row := by
  apply List.ext_getElem
  · rw [List.length_map, entries, List.length_map, List.length_range, nnz]
  · intro i hi hi'
    rw [List.getElem_map]
    simp only [entries, List.getElem_map, List.getElem_range, entry]
    exact List.getD_eq_getElem _ _ hi'

lemma Valid.entries_transpose (h : coo.Valid) : coo.transpose.entries = coo.entries.map .swap := by
  rw [entries, entries, List.map_map]
  show (List.range coo.col.length).map _ = _
  rw [h.col_length]
  rfl

lemma Valid.entry_lt (h : coo.Valid) {e : Entry} (he : e ∈ coo.entries) :
    e.1 < coo.numRows ∧ e.2.1 < coo.numCols := by
  obtain ⟨i, hi, rfl⟩ := List.mem_map.1 he
  have hi := List.mem_range.1 hi
  constructor
  · show coo.row.getD i 0 < _
    rw [List.getD_eq_getElem _ _ hi]
    exact h.row_lt _ (List.getElem_mem hi)
  · show coo.col.getD i 0 < _
    have hi' : i < coo.col.length := by rwa [h.col_length]
    rw [List.getD_eq_getElem _ _ hi']
    exact h.col_lt _ (List.getElem_mem hi')

end COOMatrix

/-! ## CSR -/

namespace CSRMatrix

variable {csr : CSRMatrix}

/-- The number of entries. -/
def nnz (csr : CSRMatrix) : ℕ := csr.indices.length

/-- `CSRHasData`. -/
def hasData (csr : CSRMatrix) : Bool := csr.data ≠ []

/-- `indptr[r]` -/
def ptr (csr : CSRMatrix) (r : ℕ) : ℕ := csr.indptr.getD r 0

/-- `for (j = indptr[r]; j < indptr[r + 1]; ++j)` -/
def places (csr : CSRMatrix) (r : ℕ) : List ℕ :=
  List.range' (csr.ptr r) (csr.ptr (r + 1) - csr.ptr r)

/-- The entry at place `j` of row `r`. -/
def entry (csr : CSRMatrix) (r j : ℕ) : Entry := (r, csr.indices.getD j 0, idAt csr.data j)

/-- The entries of a row. -/
def rowEntries (csr : CSRMatrix) (r : ℕ) : List Entry := (csr.places r).map (csr.entry r)

/-- The entries, row by row. -/
def entries (csr : CSRMatrix) : List Entry := (List.range csr.numRows).flatMap csr.rowEntries

/-- The arrays describe a matrix of the given shape. -/
structure Valid (csr : CSRMatrix) : Prop where
  indptr_length : csr.indptr.length = csr.numRows + 1
  ptr_zero : csr.ptr 0 = 0
  ptr_mono : ∀ r < csr.numRows, csr.ptr r ≤ csr.ptr (r + 1)
  ptr_last : csr.ptr csr.numRows = csr.nnz
  col_lt : ∀ c ∈ csr.indices, c < csr.numCols
  numbers : Numbers csr.data csr.nnz

/-- The columns of a row are sorted. -/
def ColsSorted (csr : CSRMatrix) : Prop :=
  csr.sorted = true → ∀ r < csr.numRows, ((csr.rowEntries r).map fun e => e.2.1).Pairwise (· ≤ ·)

/-- The rows are consecutive ranges of the places. -/
structure Framed (csr : CSRMatrix) : Prop where
  ptr_zero : csr.ptr 0 = 0
  ptr_mono : ∀ r < csr.numRows, csr.ptr r ≤ csr.ptr (r + 1)
  ptr_last : csr.ptr csr.numRows = csr.nnz

lemma Framed.flatMap_places (h : csr.Framed) :
    (List.range csr.numRows).flatMap csr.places = List.range csr.nnz := by
  rw [← h.ptr_last]
  exact slotItems_eq h.ptr_zero h.ptr_mono

variable {r s i j : ℕ}

lemma Framed.place_lt (h : csr.Framed) (hr : r < csr.numRows) (hj : j ∈ csr.places r) :
    j < csr.nnz := by
  have hmem : j ∈ (List.range csr.numRows).flatMap csr.places :=
    List.mem_flatMap.2 ⟨r, List.mem_range.2 hr, hj⟩
  rw [h.flatMap_places] at hmem
  exact List.mem_range.1 hmem

lemma Framed.map_entries (h : csr.Framed) :
    csr.entries.map (fun e => e.2.2) = (List.range csr.nnz).map (idAt csr.data) := by
  rw [← h.flatMap_places, entries, List.map_flatMap, List.map_flatMap]
  congr 1
  funext r
  rw [rowEntries, List.map_map]
  rfl

lemma Framed.length_entries (h : csr.Framed) : csr.entries.length = csr.nnz := by
  have hlen := congrArg List.length h.map_entries
  rwa [List.length_map, List.length_map, List.length_range] at hlen

namespace Valid

section

variable (h : csr.Valid)
include h

lemma framed : csr.Framed := ⟨h.ptr_zero, h.ptr_mono, h.ptr_last⟩

lemma flatMap_places :
    (List.range csr.numRows).flatMap csr.places = List.range csr.nnz := h.framed.flatMap_places

lemma ptr_le (hrs : r ≤ s) (hs : s ≤ csr.numRows) :
    csr.ptr r ≤ csr.ptr s := boundary_mono h.ptr_mono hrs hs

lemma place_lt (hr : r < csr.numRows) (hj : j ∈ csr.places r) :
    j < csr.nnz := h.framed.place_lt hr hj

lemma row_unique (hr : r < csr.numRows) (hs : s < csr.numRows) (hjr : j ∈ csr.places r)
    (hjs : j ∈ csr.places s) : r = s := by
  have hjr := List.mem_range'_1.1 hjr
  have hjs := List.mem_range'_1.1 hjs
  have hr' := h.ptr_mono r hr
  have hs' := h.ptr_mono s hs
  by_contra hne
  rcases Nat.lt_or_gt_of_ne hne with hlt | hlt
  · have hle : csr.ptr (r + 1) ≤ csr.ptr s := h.ptr_le hlt hs.le
    omega
  · have hle : csr.ptr (s + 1) ≤ csr.ptr r := h.ptr_le hlt hr.le
    omega

lemma exists_row (hj : j < csr.nnz) : ∃ r < csr.numRows, j ∈ csr.places r := by
  have hmem : j ∈ (List.range csr.numRows).flatMap csr.places := by
    rw [h.flatMap_places]
    exact List.mem_range.2 hj
  obtain ⟨r, hr, hj⟩ := List.mem_flatMap.1 hmem
  exact ⟨r, List.mem_range.1 hr, hj⟩

lemma row_mono (hr : r < csr.numRows) (hs : s < csr.numRows) (hi : i ∈ csr.places r)
    (hj : j ∈ csr.places s) (hij : i ≤ j) : r ≤ s := by
  by_contra hlt
  have hi := (List.mem_range'_1.1 hi).1
  have hj := (List.mem_range'_1.1 hj).2
  have hs' := h.ptr_mono s hs
  have hle : csr.ptr (s + 1) ≤ csr.ptr r := h.ptr_le (Nat.not_le.1 hlt) hr.le
  omega

lemma map_entries :
    csr.entries.map (fun e => e.2.2) = (List.range csr.nnz).map (idAt csr.data) := h.framed.map_entries

/-- The ids of a valid matrix are `0, …, nnz - 1`. -/
theorem ids_perm : (csr.entries.map fun e => e.2.2).Perm (List.range csr.nnz) := by
  rw [h.map_entries]
  exact h.numbers.map_idAt

lemma length_entries : csr.entries.length = csr.nnz := h.framed.length_entries

lemma entry_lt {e : Entry} (he : e ∈ csr.entries) : e.1 < csr.numRows ∧ e.2.1 < csr.numCols := by
  obtain ⟨r, hr, he⟩ := List.mem_flatMap.1 he
  obtain ⟨j, hj, rfl⟩ := List.mem_map.1 he
  have hr := List.mem_range.1 hr
  refine ⟨hr, ?_⟩
  have hlt := h.place_lt hr hj
  show csr.indices.getD j 0 < _
  rw [List.getD_eq_getElem _ _ hlt]
  exact h.col_lt _ (List.getElem_mem hlt)

end

end Valid

end CSRMatrix

end DglAscend.Aten
