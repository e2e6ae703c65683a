import DglAscend.Aten.CooToCsrThreads

/-!
# Conversions keep the entries

`CSRTranspose`, `CSRToCOO` and `CSRToCOODataAsOrder` of `cpu/spmat_op_impl_csr.cc`.  Every
conversion of a valid matrix is valid and has the same entries up to their order, transposed where
the conversion transposes; their ids stay with them.
-/

namespace DglAscend.Aten

namespace CSRMatrix

/-- `CSRTranspose`: a counting sort by columns. -/
def transpose (csr : CSRMatrix) : CSRMatrix :=
  let Bp := exclusiveSum 0 (countKeys csr.numCols csr.indices)
  let filled := (List.range csr.numRows).foldl
    (fun s i => (csr.places i).foldl
      (fun s j => placeItem s (csr.indices.getD j 0, (i, idAt csr.data j))) s)
    (Bp, List.replicate csr.nnz (0, 0))
  { bits := csr.bits
    numRows := csr.numCols
    numCols := csr.numRows
    indptr := shift filled.1
    indices := filled.2.map Prod.fst
    data := filled.2.map Prod.snd
    sorted := false }

/-- `CSRToCOO`. -/
def toCOO (csr : CSRMatrix) : COOMatrix where
  bits := csr.bits
  numRows := csr.numRows
  numCols := csr.numCols
  row := (List.range csr.numRows).flatMap fun r => (csr.places r).map fun _ => r
  col := csr.indices
  data := csr.data
  rowSorted := true
  colSorted := csr.sorted

/-- `ret_row_data[id] = row; ret_col_data[id] = col` -/
def putAt (s : List ℕ × List ℕ) (e : Entry) : List ℕ × List ℕ :=
  (s.1.set e.2.2 e.1, s.2.set e.2.2 e.2.1)

/-- `CSRToCOODataAsOrder`: every entry goes to the place that its id says. -/
def toCOODataAsOrder (csr : CSRMatrix) : COOMatrix :=
  let ret := (List.range csr.numRows).foldl
    (fun s row => (csr.places row).foldl (fun s j => putAt s (csr.entry row j)) s)
    (List.replicate csr.nnz 0, List.replicate csr.nnz 0)
  { bits := csr.bits
    numRows := csr.numRows
    numCols := csr.numCols
    row := ret.1
    col := ret.2
    data := []
    rowSorted := false
    colSorted := false }

end CSRMatrix

/-! ## From COO to CSR -/

variable {r j : ℕ}

namespace COOMatrix

variable {coo : COOMatrix}

lemma bucketed_nnz (h : coo.Valid) : coo.bucketed.nnz = coo.nnz := by
  show ((List.map _ _).map _).length = _
  rw [List.length_map, List.length_map, length_bucketOrder h.inRange.rowAt_lt]

lemma bucketed_ptr (hr : r ≤ coo.numRows) :
    coo.bucketed.ptr r = bucketStart coo.rowAt coo.nnz r := by
  show ((List.range (coo.numRows + 1)).map _).getD r 0 = _
  rw [List.getD_eq_getElem _ _ (by simpa using Nat.lt_succ_of_le hr), List.getElem_map,
    List.getElem_range]

/-- What the CSR arrays hold at the place of an entry. -/
lemma bucketed_entry {i j : ℕ}
    (hj : (bucketOrder coo.rowAt coo.numRows coo.nnz)[j]? = some i) (r : ℕ) :
    coo.bucketed.entry r j = (r, coo.colAt i, idAt coo.data i) := by
  obtain ⟨hlt, hget⟩ := List.getElem?_eq_some_iff.1 hj
  have hdata : coo.bucketed.data =
      (bucketOrder coo.rowAt coo.numRows coo.nnz).map fun i => idAt coo.data i := by
    show (List.map _ _).map _ = _
    rw [List.map_map]
    rfl
  have hindices : coo.bucketed.indices =
      (bucketOrder coo.rowAt coo.numRows coo.nnz).map coo.colAt := by
    show (List.map _ _).map _ = _
    rw [List.map_map]
    rfl
  have hne : coo.bucketed.data ≠ [] := by
    rw [hdata]
    intro hnil
    rw [List.map_eq_nil_iff.1 hnil] at hlt
    exact absurd hlt (Nat.not_lt_zero j)
  rw [CSRMatrix.entry, idAt, if_neg hne, hdata, hindices,
    List.getD_eq_getElem _ _ (by rwa [List.length_map]),
    List.getD_eq_getElem _ _ (by rwa [List.length_map]), List.getElem_map, List.getElem_map, hget]

lemma bucketed_rowEntries (hr : r < coo.numRows) :
    coo.bucketed.rowEntries r = (bucket coo.rowAt coo.nnz r).map coo.entry := by
  rw [CSRMatrix.rowEntries, CSRMatrix.places, bucketed_ptr hr.le, bucketed_ptr hr,
    bucketStart_succ, Nat.add_sub_cancel_left, ← length_bucket]
  apply List.ext_getElem
  · rw [List.length_map, List.length_map, List.length_range']
  · intro k hk hk'
    rw [List.length_map] at hk'
    rw [List.getElem_map, List.getElem_map, List.getElem_range', Nat.one_mul]
    have hget : (bucketOrder coo.rowAt coo.numRows coo.nnz)[bucketStart coo.rowAt coo.nnz r + k]? =
        some ((bucket coo.rowAt coo.nnz r)[k]) := by
      rw [bucketOrder_getElem? hr hk', List.getElem?_eq_getElem hk']
    have hrow := (mem_bucket.1 (List.getElem_mem hk')).2
    rw [bucketed_entry hget, entry]
    congr 1
    exact hrow.symm

/-- The rows of the CSR matrix, one after the other. -/
theorem entries_bucketed (coo : COOMatrix) :
    coo.bucketed.entries = (bucketOrder coo.rowAt coo.numRows coo.nnz).map coo.entry := by
  rw [CSRMatrix.entries, bucketOrder, List.map_flatMap]
  apply List.flatMap_congr
  intro r hr
  exact bucketed_rowEntries (List.mem_range.1 hr)

lemma bucketed_colsSorted (h : coo.ColsSorted) : coo.bucketed.ColsSorted := by
  intro hs r hr
  have hsub : ((bucket coo.rowAt coo.nnz r).map coo.entry).Sublist coo.entries :=
    List.Sublist.map _ List.filter_sublist
  rw [bucketed_rowEntries hr, List.pairwise_map]
  apply List.Pairwise.imp_of_mem _ ((h hs).sublist hsub)
  intro e e' he he' hle
  apply hle
  obtain ⟨i, hi, rfl⟩ := List.mem_map.1 he
  obtain ⟨j, hj, rfl⟩ := List.mem_map.1 he'
  exact (mem_bucket.1 hi).2.trans (mem_bucket.1 hj).2.symm

lemma bucketed_data (coo : COOMatrix) : coo.bucketed.hasData = true ∨ coo.bucketed.entries = [] := by
  by_cases hd : coo.bucketed.data = []
  · right
    have hnil : bucketOrder coo.rowAt coo.numRows coo.nnz = [] :=
      List.map_eq_nil_iff.1 (List.map_eq_nil_iff.1 hd)
    rw [entries_bucketed, hnil]
    rfl
  · left
    simpa [CSRMatrix.hasData] using hd

lemma entries_bucketed_perm (h : coo.Valid) : coo.bucketed.entries.Perm coo.entries := by
  rw [entries_bucketed, entries]
  exact (bucketOrder_perm h.inRange.rowAt_lt).map _

lemma valid_bucketed (h : coo.Valid) : coo.bucketed.Valid where
  indptr_length := by
    show (List.map _ _).length = _
    rw [List.length_map, List.length_range]
    rfl
  ptr_zero := bucketed_ptr (Nat.zero_le _)
  ptr_mono := by
    intro r hr
    rw [bucketed_ptr (le_of_lt hr), bucketed_ptr hr, bucketStart_succ]
    exact Nat.le_add_right _ _
  ptr_last := by
    rw [bucketed_nnz h]
    exact (bucketed_ptr le_rfl).trans (bucketStart_last h.inRange.rowAt_lt)
  col_lt := by
    intro c hc
    obtain ⟨x, hx, rfl⟩ := List.mem_map.1 hc
    obtain ⟨i, hi, rfl⟩ := List.mem_map.1 hx
    have hi : i < coo.col.length := by
      rw [h.col_length]
      exact (mem_bucketOrder.1 hi).1
    show coo.col.getD i 0 < coo.numCols
    rw [List.getD_eq_getElem _ _ hi]
    exact h.col_lt _ (List.getElem_mem hi)
  numbers := by
    right
    rw [bucketed_nnz h]
    have hdata : coo.bucketed.data =
        (bucketOrder coo.rowAt coo.numRows coo.nnz).map (idAt coo.data) := by
      show (List.map _ _).map _ = _
      rw [List.map_map]
      rfl
    rw [hdata]
    exact ((bucketOrder_perm h.inRange.rowAt_lt).map _).trans h.numbers.map_idAt

end COOMatrix

/-! ## From CSR to COO -/

namespace CSRMatrix.Framed

variable {csr : CSRMatrix} (h : csr.Framed)
include h

lemma toCOO_row_length : csr.toCOO.row.length = csr.nnz := by
  have hlen := congrArg List.length h.flatMap_places
  rw [List.length_flatMap, List.length_range] at hlen
  show (List.flatMap _ _).length = _
  simpa [List.length_flatMap] using hlen

lemma toCOO_rowAt (hr : r < csr.numRows) (hj : j ∈ csr.places r) : csr.toCOO.row.getD j 0 = r := by
  obtain ⟨k, hk, rfl⟩ := List.mem_iff_getElem.1 hj
  have hbefore : (((List.range csr.numRows).take r).flatMap
      fun r => (csr.places r).map fun _ => r).length = csr.ptr r := by
    have hslots := congrArg List.length (slotItems_eq (n := r) h.ptr_zero
      fun p hp => h.ptr_mono p (hp.trans hr))
    rw [slotItems, List.length_flatMap, List.length_range] at hslots
    rw [List.take_range, min_eq_left hr.le, List.length_flatMap, ← hslots]
    simp [places]
  have hget := getElem?_flatMap (List.range csr.numRows)
    (fun r => (csr.places r).map fun _ => r) (i := r) (x := r) (k := k)
    (List.getElem?_range hr) (by simpa using hk)
  rw [hbefore] at hget
  have hplace : (csr.places r)[k] = csr.ptr r + k := by simp [places]
  rw [hplace, List.getD_eq_getElem?_getD]
  show ((List.flatMap _ _)[_]?).getD 0 = _
  rw [hget, List.getElem?_map, List.getElem?_eq_getElem hk]
  rfl

lemma toCOO_entry (hr : r < csr.numRows) (hj : j ∈ csr.places r) :
    csr.toCOO.entry j = csr.entry r j := by
  rw [COOMatrix.entry, h.toCOO_rowAt hr hj]
  rfl

/-- The COO arrays list the entries row by row. -/
theorem entries_toCOO : csr.toCOO.entries = csr.entries := by
  rw [COOMatrix.entries, COOMatrix.nnz, h.toCOO_row_length, ← h.flatMap_places, List.map_flatMap,
    CSRMatrix.entries]
  apply List.flatMap_congr
  intro r hr
  apply List.map_congr_left
  intro j hj
  exact h.toCOO_entry (List.mem_range.1 hr) hj

end CSRMatrix.Framed

namespace CSRMatrix.Valid

variable {csr : CSRMatrix} (h : csr.Valid)
include h

lemma toCOO_row_length : csr.toCOO.row.length = csr.nnz := h.framed.toCOO_row_length

lemma toCOO_rowAt (hr : r < csr.numRows) (hj : j ∈ csr.places r) :
    csr.toCOO.row.getD j 0 = r := h.framed.toCOO_rowAt hr hj

lemma entries_toCOO : csr.toCOO.entries = csr.entries := h.framed.entries_toCOO

lemma valid_toCOO : csr.toCOO.Valid where
  col_length := h.toCOO_row_length.symm
  row_lt := by
    intro r hr
    obtain ⟨r', hr', hr⟩ := List.mem_flatMap.1 hr
    obtain ⟨_, _, rfl⟩ := List.mem_map.1 hr
    exact List.mem_range.1 hr'
  col_lt := h.col_lt
  numbers := by
    rw [COOMatrix.nnz, h.toCOO_row_length]
    exact h.numbers
  sorted := by
    intro _
    show (List.flatMap _ _).Pairwise _
    rw [List.pairwise_flatMap]
    constructor
    · intro r _
      rw [List.pairwise_map]
      exact List.pairwise_of_forall fun _ _ => le_rfl
    · refine List.Pairwise.imp ?_ List.pairwise_lt_range
      intro r s hrs x hx y hy
      obtain ⟨_, _, rfl⟩ := List.mem_map.1 hx
      obtain ⟨_, _, rfl⟩ := List.mem_map.1 hy
      exact hrs.le

/-! ## Transposing -/

/-- The transposition is the counting sort of the transposed COO arrays. -/
lemma transpose_eq : csr.transpose = csr.toCOO.transpose.bucketed := by
  have hnnz : csr.toCOO.transpose.nnz = csr.nnz := rfl
  have hitems : (List.range csr.nnz).map
      (fun j => (csr.toCOO.transpose.rowAt j, csr.toCOO.transpose.item j)) =
      (List.range csr.numRows).flatMap fun i => (csr.places i).map
        fun j => (csr.indices.getD j 0, (i, idAt csr.data j)) := by
    rw [← h.flatMap_places, List.map_flatMap]
    apply List.flatMap_congr
    intro r hr
    apply List.map_congr_left
    intro j hj
    show (_, (csr.toCOO.row.getD j 0, _)) = _
    rw [h.toCOO_rowAt (List.mem_range.1 hr) hj]
    rfl
  rw [← h.valid_toCOO.transpose.inRange.unsortedSmall_eq, COOMatrix.unsortedSmallCOOToCSR, hnnz, hitems]
  simp only [List.foldl_flatMap, List.foldl_map]
  rfl

theorem entries_transpose_perm : csr.transpose.entries.Perm (csr.entries.map .swap) := by
  rw [h.transpose_eq, ← h.entries_toCOO, ← h.valid_toCOO.entries_transpose]
  exact COOMatrix.entries_bucketed_perm h.valid_toCOO.transpose

lemma valid_transpose : csr.transpose.Valid := by
  rw [h.transpose_eq]
  exact COOMatrix.valid_bucketed h.valid_toCOO.transpose

/-! ## In the order of the ids -/

lemma ids_nodup : (csr.entries.map fun e => e.2.2).Nodup :=
  (h.ids_perm.nodup_iff).2 List.nodup_range

/-- The entries are written where their ids say. -/
lemma dataAsOrder_arrays :
    (csr.toCOODataAsOrder.row.length = csr.nnz ∧ csr.toCOODataAsOrder.col.length = csr.nnz) ∧
      ∀ e ∈ csr.entries, csr.toCOODataAsOrder.row[e.2.2]? = some e.1 ∧
        csr.toCOODataAsOrder.col[e.2.2]? = some e.2.1 := by
  have hput (l : List Entry) (s : List ℕ × List ℕ) (hs : s.1.length = csr.nnz)
      (hs' : s.2.length = csr.nnz) (hnodup : (l.map fun e => e.2.2).Nodup)
      (hlt : ∀ e ∈ l, e.2.2 < csr.nnz) :
      ((l.foldl putAt s).1.length = csr.nnz ∧ (l.foldl putAt s).2.length = csr.nnz) ∧
        (∀ e ∈ l, (l.foldl putAt s).1[e.2.2]? = some e.1 ∧
          (l.foldl putAt s).2[e.2.2]? = some e.2.1) := by
    induction l using List.reverseRecOn with
    | nil => exact ⟨⟨hs, hs'⟩, nofun⟩
    | append_singleton l e ih =>
        rw [List.map_append, List.nodup_append] at hnodup
        obtain ⟨⟨h1, h2⟩, hget⟩ := ih hnodup.1 fun e he => hlt e (List.mem_append_left _ he)
        have he := hlt e (List.mem_append_right _ List.mem_cons_self)
        rw [List.foldl_append, List.foldl_cons, List.foldl_nil]
        refine ⟨⟨(List.length_set).trans h1, (List.length_set).trans h2⟩, ?_⟩
        intro e' he'
        show ((l.foldl putAt s).1.set _ _)[_]? = _ ∧ ((l.foldl putAt s).2.set _ _)[_]? = _
        rcases List.mem_append.1 he' with he' | he'
        · have hne : e.2.2 ≠ e'.2.2 := fun heq =>
            hnodup.2.2 _ (List.mem_map_of_mem he') _ (by simp) heq.symm
          rw [List.getElem?_set_ne hne, List.getElem?_set_ne hne]
          exact hget e' he'
        · obtain rfl := List.mem_singleton.1 he'
          rw [List.getElem?_set_self (by omega), List.getElem?_set_self (by omega)]
          exact ⟨rfl, rfl⟩
  have hlt : ∀ e ∈ csr.entries, e.2.2 < csr.nnz := fun e he =>
    List.mem_range.1 (h.ids_perm.mem_iff.1 (List.mem_map_of_mem he))
  have hrun := hput csr.entries (List.replicate csr.nnz 0, List.replicate csr.nnz 0)
    List.length_replicate List.length_replicate h.ids_nodup hlt
  have hfold : csr.entries.foldl putAt (List.replicate csr.nnz 0, List.replicate csr.nnz 0) =
      (csr.toCOODataAsOrder.row, csr.toCOODataAsOrder.col) := by
    rw [entries, List.foldl_flatMap]
    simp only [rowEntries, List.foldl_map]
    rfl
  rwa [hfold] at hrun

/-- The COO arrays in the order of the ids have the same entries. -/
theorem entries_dataAsOrder_perm : csr.toCOODataAsOrder.entries.Perm csr.entries := by
  obtain ⟨⟨hrow, -⟩, hget⟩ := h.dataAsOrder_arrays
  have hentry : csr.entries.map (fun e => csr.toCOODataAsOrder.entry e.2.2) = csr.entries := by
    nth_rewrite 2 [← List.map_id csr.entries]
    apply List.map_congr_left
    intro e he
    obtain ⟨h1, h2⟩ := hget e he
    rw [COOMatrix.entry, List.getD_eq_getElem?_getD, List.getD_eq_getElem?_getD, h1, h2]
    rfl
  have hmap := h.ids_perm.map csr.toCOODataAsOrder.entry
  rw [List.map_map] at hmap
  show (List.map _ (List.range csr.toCOODataAsOrder.row.length)).Perm _
  rw [hrow]
  exact (hmap.symm.trans (List.Perm.of_eq hentry))

lemma valid_dataAsOrder : csr.toCOODataAsOrder.Valid where
  col_length := by
    obtain ⟨⟨hrow, hcol⟩, -⟩ := h.dataAsOrder_arrays
    exact hcol.trans hrow.symm
  row_lt := by
    intro r hr
    obtain ⟨i, hi, rfl⟩ := List.mem_iff_getElem.1 hr
    have hmem : csr.toCOODataAsOrder.entry i ∈ csr.entries :=
      h.entries_dataAsOrder_perm.mem_iff.1 (List.mem_map_of_mem (List.mem_range.2 hi))
    have hlt := (h.entry_lt hmem).1
    rwa [COOMatrix.entry, List.getD_eq_getElem _ _ hi] at hlt
  col_lt := by
    intro c hc
    obtain ⟨i, hi, rfl⟩ := List.mem_iff_getElem.1 hc
    obtain ⟨⟨hrow, hcol⟩, -⟩ := h.dataAsOrder_arrays
    have hi' : i < csr.toCOODataAsOrder.nnz := by
      rw [COOMatrix.nnz, hrow, ← hcol]
      exact hi
    have hmem : csr.toCOODataAsOrder.entry i ∈ csr.entries :=
      h.entries_dataAsOrder_perm.mem_iff.1 (List.mem_map_of_mem (List.mem_range.2 hi'))
    have hlt := (h.entry_lt hmem).2
    rwa [COOMatrix.entry, List.getD_eq_getElem _ _ hi] at hlt
  numbers := Or.inl rfl
  sorted := nofun

end CSRMatrix.Valid

end DglAscend.Aten
