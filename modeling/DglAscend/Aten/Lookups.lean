import DglAscend.Aten.Slices
import DglAscend.Lib.Loops
import DglAscend.Lib.StdAlgorithms

/-!
# Lookups in matrices

The functions of `cpu/spmat_op_impl_coo.cc` and `cpu/spmat_op_impl_csr.cc` that look entries up, with
the checks of `array.cc`.  In a CSR matrix that is marked as sorted the columns of a row are searched
by bisection.
-/

namespace DglAscend.Aten

/-- The id arrays of a call fit: their lengths are the same or one of them is 1. -/
def fits (rows cols : List ℕ) : Bool :=
  rows.length = cols.length ∨ rows.length = 1 ∨ cols.length = 1

/-- The pairs that a call looks up; an array of length 1 goes with every element of the other. -/
def broadcast (rows cols : List ℕ) : List (ℕ × ℕ) :=
  if rows.length = 1 ∧ cols.length ≠ 1 then cols.map fun c => (rows.getD 0 0, c)
  else if cols.length = 1 ∧ rows.length ≠ 1 then rows.map fun r => (r, cols.getD 0 0)
  else rows.zip cols

/-- The loop of the array versions of `COOIsNonZero` and `CSRIsNonZero` ends at the larger length. -/
def readsWithin (rows cols : List ℕ) : Bool := (broadcast rows cols).length = max rows.length cols.length

namespace COOMatrix

variable (coo : COOMatrix)

/-- `COOIsNonZero`. -/
def isNonZero (row col : ℕ) : Except Fault Bool :=
  if coo.numRows ≤ row ∨ coo.numCols ≤ col then .error .raised
  else .ok (coo.entries.any fun e => e.1 = row ∧ e.2.1 = col)

/-- `COOIsNonZero` of id arrays. -/
def isNonZeros (rows cols : List ℕ) : Except Fault (List Bool) :=
  if readsWithin rows cols then (broadcast rows cols).mapM fun p => coo.isNonZero p.1 p.2
  else .error .outOfBounds

/-- `COOGetRowNNZ`. -/
def getRowNNZ (row : ℕ) : Except Fault ℕ :=
  if coo.numRows ≤ row then .error .raised else .ok (coo.entries.countP fun e => e.1 = row)

/-- `COOGetRowNNZ` of an id array. -/
def getRowsNNZ (rows : List ℕ) : Except Fault (List ℕ) := rows.mapM coo.getRowNNZ

/-- `COOGetRowDataAndIndices`: the entries of a row. -/
def getRowDataAndIndices (row : ℕ) : Except Fault (List Entry) :=
  if coo.numRows ≤ row then .error .raised else .ok (coo.entries.filter fun e => e.1 = row)

/-- `COOGetDataAndIndices`.  From 200 lookups on the entries are listed in the order of an
`unordered_multimap`. -/
def getDataAndIndices (multimap : AnyOrder Entry) (rows cols : List ℕ) :
    Except Fault (List (List Entry)) :=
  if !fits rows cols then .error .raised
  else (broadcast rows cols).mapM fun p =>
    if coo.numRows ≤ p.1 ∨ coo.numCols ≤ p.2 then .error .raised
    else
      let found := coo.entries.filter fun e => e.1 = p.1 ∧ e.2.1 = p.2
      .ok (if 200 ≤ max rows.length cols.length then multimap.run found else found)

/-- `COOSort`: by rows, and by columns within a row. -/
def sort (sort : StdSort Entry) : COOMatrix :=
  if coo.colSorted then coo
  else
    ofEntries coo.bits coo.numRows coo.numCols
      (sort.run (fun a b => if a.1 ≠ b.1 then a.1 < b.1 else a.2.1 < b.2.1) coo.entries) true true

end COOMatrix

namespace CSRMatrix

variable {α : Type} (csr : CSRMatrix)

/-- The inner loop of `CSRIsNonZero`, which reads the row without a check. -/
def isNonZero (row col : ℕ) : Except Fault Bool :=
  if csr.numRows ≤ row then .error .outOfBounds
  else if csr.sorted then .ok (binarySearch (fun e : Entry => e.2.1) col (csr.rowEntries row))
  else .ok ((csr.rowEntries row).any fun e => e.2.1 = col)

/-- `CSRIsNonZero` of id arrays. -/
def isNonZeros (rows cols : List ℕ) : Except Fault (List Bool) :=
  if readsWithin rows cols then (broadcast rows cols).mapM fun p => csr.isNonZero p.1 p.2
  else .error .outOfBounds

/-- `CSRGetRowNNZ` of an id array: there is no check. -/
def getRowsNNZ (rows : List ℕ) : Except Fault (List ℕ) :=
  rows.mapM fun row =>
    if csr.numRows ≤ row then .error .outOfBounds else .ok (csr.ptr (row + 1) - csr.ptr row)

/-- `CSRGetRowColumnIndices`. -/
def getRowColumnIndices (row : ℕ) : Except Fault (List ℕ) :=
  if csr.numRows ≤ row then .error .raised
  else .ok ((csr.places row).map fun j => csr.indices.getD j 0)

/-- `CSRGetRowData`.  Without a data array the ids begin at the offset in bytes. -/
def getRowData (row : ℕ) : Except Fault (List ℕ) :=
  if csr.numRows ≤ row then .error .raised
  else .ok (if csr.hasData then (csr.places row).map fun j => csr.data.getD j 0
    else List.range' (csr.ptr row * (csr.bits / 8)) (csr.ptr (row + 1) - csr.ptr row))

/-- `CSRGetData`: what belongs to the first entry at every pair of indices, which is its id or the
weight of its id. -/
def getData (value : ℕ → α) (filler : α) (rows cols : List ℕ) : Except Fault (List α) :=
  if !fits rows cols then .error .raised
  else if !readsWithin rows cols then .error .outOfBounds
  else (broadcast rows cols).mapM fun p =>
    if csr.numRows ≤ p.1 ∨ csr.numCols ≤ p.2 then .error .raised
    else
      let found := if csr.sorted then
          (lowerBound (fun e : Entry => e.2.1) p.2 (csr.rowEntries p.1)).head?.filter
            fun e => e.2.1 = p.2
        else (csr.rowEntries p.1).find? fun e => e.2.1 = p.2
      .ok ((found.map fun e => value e.2.2).getD filler)

/-- `CSRGetDataAndIndices`.  The search in a sorted row reads the data array without looking whether
there is one. -/
def getDataAndIndices (rows cols : List ℕ) : Except Fault (List (List Entry)) :=
  if !fits rows cols then .error .raised
  else (broadcast rows cols).mapM fun p =>
    if csr.numRows ≤ p.1 ∨ csr.numCols ≤ p.2 then .error .raised
    else if csr.sorted then
      let found := (lowerBound (fun e : Entry => e.2.1) p.2 (csr.rowEntries p.1)).takeWhile
        fun e => e.2.1 = p.2
      if !csr.hasData && !found.isEmpty then .error .outOfBounds else .ok found
    else .ok ((csr.rowEntries p.1).filter fun e => e.2.1 = p.2)

end CSRMatrix

/-! ## What is found -/

section Found

variable {α β : Type} {f : α → Except Fault β} {g : α → β} {rows cols : List ℕ}

lemma mem_broadcast {p : ℕ × ℕ} (hp : p ∈ broadcast rows cols) : p.1 ∈ rows ∧ p.2 ∈ cols := by
  rw [broadcast] at hp
  split at hp
  · rename_i h
    obtain ⟨r, hr⟩ := List.length_eq_one_iff.1 h.1
    obtain ⟨c, hc, rfl⟩ := List.mem_map.1 hp
    rw [hr]
    exact ⟨List.mem_cons_self, hc⟩
  · split at hp
    · rename_i h
      obtain ⟨c, hc⟩ := List.length_eq_one_iff.1 h.1
      obtain ⟨r, hr, rfl⟩ := List.mem_map.1 hp
      rw [hc]
      exact ⟨hr, List.mem_cons_self⟩
    · exact List.of_mem_zip hp

variable (rows cols : List ℕ)

/-- Exchanging the arrays exchanges the pairs. -/
lemma broadcast_swap : broadcast cols rows = (broadcast rows cols).map Prod.swap := by
  rw [broadcast, broadcast]
  by_cases hr : rows.length = 1
  · by_cases hc : cols.length = 1
    · rw [if_neg (by simp [hr]), if_neg (by simp [hc]), if_neg (by simp [hc]), if_neg (by simp [hr]),
        List.zip_swap]
    · rw [if_neg (by simp [hc]), if_pos ⟨hr, hc⟩, if_pos ⟨hr, hc⟩, List.map_map]
      rfl
  · by_cases hc : cols.length = 1
    · rw [if_pos ⟨hc, hr⟩, if_neg (by simp [hr]), if_pos ⟨hc, hr⟩, List.map_map]
      rfl
    · rw [if_neg (by simp [hc]), if_neg (by simp [hr]), if_neg (by simp [hr]), if_neg (by simp [hc]),
        List.zip_swap]

lemma readsWithin_swap : readsWithin cols rows = readsWithin rows cols := by
  rw [readsWithin, readsWithin, broadcast_swap, List.length_map, max_comm]

lemma fits_swap : fits cols rows = fits rows cols := by
  rw [fits, fits]
  grind

end Found

namespace CSRMatrix

variable {csr : CSRMatrix} {r c : ℕ}

lemma filter_entries (hr : r < csr.numRows) :
    (csr.entries.filter fun e => e.1 = r) = csr.rowEntries r := by
  have hrow (s : ℕ) : ((csr.rowEntries s).filter fun e => e.1 = r) =
      if s = r then csr.rowEntries r else [] := by
    by_cases hs : s = r
    · subst hs
      rw [if_pos rfl, List.filter_eq_self]
      intro e he
      obtain ⟨j, -, rfl⟩ := List.mem_map.1 he
      simp [entry]
    · rw [if_neg hs, List.filter_eq_nil_iff]
      intro e he
      obtain ⟨j, -, rfl⟩ := List.mem_map.1 he
      simpa [entry] using hs
  have hrange (n : ℕ) : ((List.range n).flatMap fun s => if s = r then csr.rowEntries r else []) =
      if r < n then csr.rowEntries r else [] := by
    induction n with
    | zero => rfl
    | succ n ih =>
        rw [List.range_succ, List.flatMap_append, ih, List.flatMap_singleton]
        by_cases hlt : r < n
        · rw [if_pos hlt, if_neg (by omega), if_pos (by omega), List.append_nil]
        · by_cases heq : n = r
          · rw [if_neg hlt, if_pos heq, if_pos (by omega), List.nil_append]
          · rw [if_neg hlt, if_neg heq, if_neg (by omega), List.append_nil]
  rw [entries, List.filter_flatMap]
  simp only [hrow]
  rw [hrange, if_pos hr]

lemma filter_rowEntries (hr : r < csr.numRows) :
    ((csr.rowEntries r).filter fun e => e.2.1 = c) =
      csr.entries.filter fun e => e.1 = r ∧ e.2.1 = c := by
  rw [← filter_entries hr, List.filter_filter]
  apply List.filter_congr
  intro e _
  rw [Bool.decide_and, Bool.and_comm]

lemma isNonZero_eq (hs : csr.ColsSorted) (hr : r < csr.numRows) :
    csr.isNonZero r c = .ok (csr.entries.any fun e => e.1 = r ∧ e.2.1 = c) := by
  have hany : ((csr.rowEntries r).any fun e => e.2.1 = c) =
      csr.entries.any fun e => e.1 = r ∧ e.2.1 = c := by
    rw [← filter_entries hr, List.any_filter]
    congr 1
    funext e
    rw [Bool.decide_and]
  rw [isNonZero, if_neg (Nat.not_le.2 hr)]
  split
  · rename_i hsorted
    rw [binarySearch_eq (hs hsorted r hr), hany]
  · rw [hany]

lemma getDataAndIndices_eq {rows cols : List ℕ} (hs : csr.ColsSorted)
    (hdata : csr.hasData = true ∨ csr.entries = []) (hfits : fits rows cols = true)
    (hrows : ∀ r ∈ rows, r < csr.numRows) (hcols : ∀ c ∈ cols, c < csr.numCols) :
    csr.getDataAndIndices rows cols = .ok ((broadcast rows cols).map fun p =>
      csr.entries.filter fun e => e.1 = p.1 ∧ e.2.1 = p.2) := by
  rw [getDataAndIndices, if_neg (by simp [hfits])]
  apply mapM_ok
  intro p hp
  obtain ⟨hp1, hp2⟩ := mem_broadcast hp
  have hr := hrows _ hp1
  have hc := hcols _ hp2
  rw [if_neg (by omega)]
  split
  · rename_i hsorted
    simp only
    rw [takeWhile_lowerBound (hs hsorted p.1 hr), filter_rowEntries hr, if_neg]
    rcases hdata with hdata | hdata
    · simp [hdata]
    · simp [hdata]
  · rw [filter_rowEntries hr]

lemma length_places : (csr.places r).length = csr.ptr (r + 1) - csr.ptr r := by
  rw [places, List.length_range']

lemma getRowsNNZ_eq {rows : List ℕ} (hrows : ∀ r ∈ rows, r < csr.numRows) :
    csr.getRowsNNZ rows = .ok (rows.map fun r => csr.entries.countP fun e => e.1 = r) := by
  apply mapM_ok
  intro r hr
  rw [if_neg (Nat.not_le.2 (hrows r hr)), List.countP_eq_length_filter, filter_entries (hrows r hr),
    rowEntries, List.length_map, length_places]

lemma getRowColumnIndices_eq (hr : r < csr.numRows) :
    csr.getRowColumnIndices r =
      .ok ((csr.entries.filter fun e => e.1 = r).map fun e => e.2.1) := by
  rw [getRowColumnIndices, if_neg (Nat.not_le.2 hr), filter_entries hr, rowEntries, List.map_map]
  rfl

lemma getRowData_eq (hdata : csr.hasData = true ∨ csr.entries = []) (hr : r < csr.numRows) :
    csr.getRowData r = .ok ((csr.entries.filter fun e => e.1 = r).map fun e => e.2.2) := by
  rw [getRowData, if_neg (Nat.not_le.2 hr)]
  congr 1
  cases hh : csr.hasData with
  | true =>
      have hne : csr.data ≠ [] := by simpa [hasData] using hh
      rw [if_pos rfl, filter_entries hr, rowEntries, List.map_map]
      apply List.map_congr_left
      intro j _
      show _ = idAt csr.data j
      rw [idAt, if_neg hne]
  | false =>
      have hnil := hdata.resolve_left (by simp [hh])
      have hlen : csr.ptr (r + 1) - csr.ptr r = 0 := by
        rw [← length_places, List.length_eq_zero_iff]
        have hrow := filter_entries hr
        rw [hnil, List.filter_nil, rowEntries, Eq.comm, List.map_eq_nil_iff] at hrow
        exact hrow
      rw [if_neg (by simp), hlen, hnil]
      rfl

end CSRMatrix

namespace COOMatrix

variable {coo : COOMatrix} {r c : ℕ}

lemma isNonZero_eq (hr : r < coo.numRows) (hc : c < coo.numCols) :
    coo.isNonZero r c = .ok (coo.entries.any fun e => e.1 = r ∧ e.2.1 = c) := by
  rw [isNonZero, if_neg (by omega)]

lemma getRowsNNZ_eq {rows : List ℕ} (hrows : ∀ r ∈ rows, r < coo.numRows) :
    coo.getRowsNNZ rows = .ok (rows.map fun r => coo.entries.countP fun e => e.1 = r) := by
  apply mapM_ok
  intro r hr
  rw [getRowNNZ, if_neg (Nat.not_le.2 (hrows r hr))]

end COOMatrix

end DglAscend.Aten
