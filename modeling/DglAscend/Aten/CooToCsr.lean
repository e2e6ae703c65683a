import DglAscend.Aten.SparseMatrix

/-!
# From COO to CSR

`COOToCSR` of `cpu/spmat_op_impl_coo.cc` with the four algorithms that it chooses from.  All of
them compute the matrix whose rows list the entries in the order of the COO arrays
(`COOMatrix.bucketed`), for every number of threads.
-/

namespace DglAscend.Aten

namespace COOMatrix

variable {coo : COOMatrix} {T : ℕ}

/-- The row of an entry. -/
def rowAt (coo : COOMatrix) : ℕ → ℕ := keyAt coo.row

/-- The column of an entry. -/
def colAt (coo : COOMatrix) (i : ℕ) : ℕ := coo.col.getD i 0

/-- The CSR matrix of the three arrays. -/
def toCSR (coo : COOMatrix) (indptr : List ℕ) (items : List (ℕ × ℕ)) : CSRMatrix where
  bits := coo.bits
  numRows := coo.numRows
  numCols := coo.numCols
  indptr := indptr
  indices := items.map Prod.fst
  data := items.map Prod.snd
  sorted := coo.colSorted

/-- What is stored for an entry: `Bi[…] = col[i]; Bx[…] = data ? data[i] : i` -/
def item (coo : COOMatrix) (i : ℕ) : ℕ × ℕ := (coo.colAt i, idAt coo.data i)

/-- The fresh arrays `Bi` and `Bx`. -/
def blank (n : ℕ) : List (ℕ × ℕ) := List.replicate n (0, 0)

/-! ## The algorithms -/

/-- The row before the one of entry `i`, where the scan of `SortedCOOToCSR` stands. -/
def prevRow (coo : COOMatrix) (i : ℕ) : ℕ := if i = 0 then 0 else coo.rowAt (i - 1)

/-- `while (row != stop) { ++row; Bp[row] = v; }` -/
def markRows (row stop v : ℕ) (b : List ℕ) : List ℕ :=
  (List.range' (row + 1) (stop - row)).foldl (fun b r => b.set r v) b

/-- `SortedCOOToCSR`: the columns stay where they are, and the changes of the row are marked.  A
thread starts at the row of the entry before its first one, so the marks are those of one scan. -/
def sortedCOOToCSR (coo : COOMatrix) : CSRMatrix :=
  let Bp := (List.range coo.nnz).foldl (fun b i => markRows (coo.prevRow i) (coo.rowAt i) i b)
    (List.replicate (coo.numRows + 1) 0)
  { bits := coo.bits
    numRows := coo.numRows
    numCols := coo.numCols
    indptr := if 0 < coo.nnz then markRows (coo.prevRow coo.nnz) coo.numRows coo.nnz Bp
      else List.replicate (coo.numRows + 1) 0
    indices := coo.col
    data := if coo.hasData then coo.data else List.range coo.nnz
    sorted := coo.colSorted }

/-- `UnSortedSmallCOOToCSR`: a counting sort by rows. -/
def unsortedSmallCOOToCSR (coo : COOMatrix) : CSRMatrix :=
  let Bp := exclusiveSum 0 (countKeys coo.numRows coo.row)
  let filled := ((List.range coo.nnz).map fun i => (coo.rowAt i, coo.item i)).foldl placeItem
    (Bp, blank coo.nnz)
  coo.toCSR (shift filled.1) filled.2

/-- `(total + T - 1) / T`: what each of `T` threads takes. -/
def chunk (total T : ℕ) : ℕ := (total + T - 1) / T

/-- `nz_start`, cut off at the end. -/
def nzStart (coo : COOMatrix) (T t : ℕ) : ℕ := min coo.nnz (t * chunk coo.nnz T)

/-- The thread that takes entry `i`. -/
def threadOf (coo : COOMatrix) (T i : ℕ) : ℕ := i / chunk coo.nnz T

/-- The rows of the entries of a thread, from its first entry to entry `stop`. -/
def rowsFrom (coo : COOMatrix) (T t stop : ℕ) : List ℕ :=
  (coo.row.take stop).drop (coo.nzStart T t)

/-- `local_ptrs[t][r]` when the entries are counted. -/
def localCount (coo : COOMatrix) (T t r : ℕ) : ℕ :=
  (coo.rowsFrom T t (coo.nzStart T (t + 1))).count r

/-- `local_ptrs[t][r]` after the prefix sum over the threads. -/
def localPtr (coo : COOMatrix) (T t r : ℕ) : ℕ :=
  ((List.range t).map fun j => coo.localCount T j r).sum

/-- `Bp[r]`, when the sums of the earlier rows are added. -/
def denseBp (coo : COOMatrix) (T r : ℕ) : ℕ :=
  ((List.range r).map fun q => coo.localPtr T T q).sum

/-- `Bp[r] + local_ptrs[thread_id][r]++` -/
def densePlace (coo : COOMatrix) (T i : ℕ) : ℕ :=
  let t := coo.threadOf T i
  coo.denseBp T (coo.rowAt i) + coo.localPtr T t (coo.rowAt i) +
    (coo.rowsFrom T t i).count (coo.rowAt i)

/-- `UnSortedDenseCOOToCSR`: every thread counts its entries by rows and writes behind those of the
earlier threads. -/
def unsortedDenseCOOToCSR (T : ℕ) (coo : COOMatrix) : CSRMatrix :=
  coo.toCSR ((List.range (coo.numRows + 1)).map (coo.denseBp T))
    (writeAt (coo.densePlace T) coo.item coo.nnz (blank coo.nnz))

/-- The thread that takes a row. -/
def rowThread (coo : COOMatrix) (T r : ℕ) : ℕ := r / chunk coo.numRows T

/-- `p_sum[t][j]` when the entries are counted by the threads of their rows. -/
def pSumCount (coo : COOMatrix) (T t j : ℕ) : ℕ :=
  ((coo.rowsFrom T t (coo.nzStart T (t + 1))).map (coo.rowThread T)).count j

/-- `p_sum[t][j]` when it is accumulated. -/
def pSum (coo : COOMatrix) (T t j : ℕ) : ℕ :=
  ((List.range j).map fun j' => ((List.range T).map fun t' => coo.pSumCount T t' j').sum).sum +
    ((List.range t).map fun t' => coo.pSumCount T t' j).sum

/-- `data_pos[row_thread_id]++` -/
def sparsePos (coo : COOMatrix) (T i : ℕ) : ℕ :=
  let t := coo.threadOf T i
  let j := coo.rowThread T (coo.rowAt i)
  coo.pSum T t j + ((coo.rowsFrom T t i).map (coo.rowThread T)).count j

/-- `Si`: the entries, sorted by the threads of their rows. -/
def sortedPos (coo : COOMatrix) (T : ℕ) : List ℕ :=
  writeAt (coo.sparsePos T) id coo.nnz (List.replicate coo.nnz 0)

/-- `i_end` of a thread, `i_start` of the next one. -/
def iStart (coo : COOMatrix) (T t : ℕ) : ℕ := if t < T then coo.pSum T 0 t else coo.nnz

/-- `n_start`, cut off at the end. -/
def nStart (coo : COOMatrix) (T t : ℕ) : ℕ := min coo.numRows (t * chunk coo.numRows T)

/-- The second half of `UnSortedSparseCOOToCSR` in one thread: a counting sort of the entries of its
rows, `Bp[n_start + 1 .. n_end]` and the part of `Bi` and `Bx` from `i_start` to `i_end`. -/
def sparseThread (coo : COOMatrix) (T t : ℕ) : List ℕ × List (ℕ × ℕ) :=
  let Si := ((coo.sortedPos T).take (coo.iStart T (t + 1))).drop (coo.iStart T t)
  let rows := Si.map fun i => coo.rowAt i - coo.nStart T t
  let Bp := exclusiveSum 0 (countKeys (coo.nStart T (t + 1) - coo.nStart T t) rows)
  let filled := (Si.map fun i => (coo.rowAt i - coo.nStart T t, coo.item i)).foldl placeItem
    (Bp, blank Si.length)
  (filled.1.map fun c => coo.iStart T t + c, filled.2)

/-- `UnSortedSparseCOOToCSR`: the entries are first sorted by the threads of their rows. -/
def unsortedSparseCOOToCSR (T : ℕ) (coo : COOMatrix) : CSRMatrix :=
  coo.toCSR (0 :: (List.range T).flatMap fun t => (coo.sparseThread T t).1)
    ((List.range T).flatMap fun t => (coo.sparseThread T t).2)

/-- `COOToCSRAlg`. -/
inductive Alg
  | sorted
  | unsortedSmall
  | unsortedSparse
  | unsortedDense
  deriving DecidableEq, Repr

/-- `WhichCOOToCSR`, with `numThreads` threads. -/
def whichCOOToCSR (numThreads : ℕ) (coo : COOMatrix) : Alg :=
  if coo.rowSorted then .sorted
  else
    let typeScale := coo.bits / 8 / 2
    if coo.nnz < 50 * numThreads * typeScale * typeScale ∨ numThreads = 1 then .unsortedSmall
    else if typeScale * coo.nnz < numThreads * coo.numRows then .unsortedSparse
    else .unsortedDense

/-- `COOToCSR`, with `numThreads` threads. -/
def cooToCSR (numThreads : ℕ) (coo : COOMatrix) : Option CSRMatrix :=
  if noOverflow coo.bits coo.nnz then
    some <| match whichCOOToCSR numThreads coo with
      | .sorted => coo.sortedCOOToCSR
      | .unsortedSmall => coo.unsortedSmallCOOToCSR
      | .unsortedSparse =>
          coo.unsortedSparseCOOToCSR (min numThreads (2 + (coo.nnz + coo.numRows) / 1000))
      | .unsortedDense => coo.unsortedDenseCOOToCSR numThreads
  else none

/-- The rows list the entries in the order of the arrays. -/
def bucketed (coo : COOMatrix) : CSRMatrix :=
  coo.toCSR ((List.range (coo.numRows + 1)).map (bucketStart coo.rowAt coo.nnz))
    ((bucketOrder coo.rowAt coo.numRows coo.nnz).map coo.item)

/-! ## The scan -/

lemma length_markRows (row stop v : ℕ) (b : List ℕ) : (markRows row stop v b).length = b.length := by
  rw [markRows]
  induction List.range' (row + 1) (stop - row) generalizing b with
  | nil => rfl
  | cons r rs ih => rw [List.foldl_cons, ih, List.length_set]

lemma markRows_getD {row stop v r : ℕ} {b : List ℕ} (hr : r < b.length) :
    (markRows row stop v b).getD r 0 = if row < r ∧ r ≤ stop then v else b.getD r 0 := by
  have hset (l : List ℕ) (b : List ℕ) (hb : r < b.length) :
      (l.foldl (fun b q => b.set q v) b).getD r 0 = if r ∈ l then v else b.getD r 0 := by
    induction l generalizing b with
    | nil => simp
    | cons q qs ih =>
        rw [List.foldl_cons, ih _ (by rwa [List.length_set]), getD_set b v hb]
        by_cases hq : r ∈ qs
        · rw [if_pos hq, if_pos (List.mem_cons_of_mem q hq)]
        · rw [if_neg hq]
          by_cases h : q = r
          · rw [if_pos h, if_pos (by simp [h])]
          · rw [if_neg h, if_neg (by simpa [hq] using Ne.symm h)]
  rw [markRows, hset _ _ hr]
  congr 1
  rw [List.mem_range'_1, eq_iff_iff]
  omega

/-! ## The counting sorts -/

lemma map_fst_items :
    ((List.range coo.nnz).map fun i => (coo.rowAt i, coo.item i)).map Prod.fst = coo.row := by
  apply List.ext_getElem
  · simp [nnz]
  · intro i hi hi'
    simp [rowAt, keyAt, hi']

namespace InRange

variable (h : coo.InRange)
include h

lemma rowAt_lt : ∀ i < coo.nnz, coo.rowAt i < coo.numRows := by
  intro i hi
  rw [rowAt, keyAt, List.getD_eq_getElem _ _ hi]
  exact h.row_lt _ (List.getElem_mem hi)

lemma items_lt : ∀ x ∈ (List.range coo.nnz).map fun i => (coo.rowAt i, coo.item i),
    x.1 < coo.numRows := by
  intro x hx
  obtain ⟨i, hi, rfl⟩ := List.mem_map.1 hx
  exact h.rowAt_lt i (List.mem_range.1 hi)

/-- The placing loop of `UnSortedSmallCOOToCSR`. -/
lemma placed_rows :
    ((List.range coo.nnz).map fun i => (coo.rowAt i, coo.item i)).foldl placeItem
        (exclusiveSum 0 (countKeys coo.numRows coo.row), blank coo.nnz) =
      ((List.range coo.numRows).map fun r => bucketStart coo.rowAt coo.nnz (r + 1),
        (bucketOrder coo.rowAt coo.numRows coo.nnz).map coo.item) := by
  have hfst := coo.map_fst_items
  have hkeys := h.items_lt
  set items := (List.range coo.nnz).map fun i => (coo.rowAt i, coo.item i) with hitems
  have hlen : items.length = coo.nnz := by rw [hitems, List.length_map, List.length_range]
  have hplace := placeItems_eq items (0, 0) (blank coo.nnz) hkeys (by simp [blank, hlen])
  rw [hfst, hlen, ← rowAt] at hplace
  have hstart : exclusiveSum 0 (countKeys coo.numRows coo.row) =
      (List.range coo.numRows).map (bucketStart coo.rowAt coo.nnz) := exclusiveSum_countKeys _ _
  rw [hstart, hplace]
  congr 1
  apply List.map_congr_left
  intro i hi
  have hi := (mem_bucketOrder.1 hi).1
  rw [List.getD_eq_getElem _ _ (by rwa [hlen])]
  simp [hitems]

lemma unsortedSmall_eq : coo.unsortedSmallCOOToCSR = coo.bucketed := by
  rw [unsortedSmallCOOToCSR, bucketed]
  simp only [h.placed_rows]
  rw [shift_cursors]

section

variable (hs : coo.rowSorted = true)
include hs

lemma rowAt_mono {i j : ℕ} (hij : i ≤ j) (hj : j < coo.nnz) : coo.rowAt i ≤ coo.rowAt j := by
  rw [rowAt, keyAt, keyAt, List.getD_eq_getElem _ _ hj,
    List.getD_eq_getElem _ _ (by exact hij.trans_lt hj)]
  rcases hij.eq_or_lt with rfl | hlt
  · exact le_rfl
  · exact List.pairwise_iff_getElem.1 (h.sorted hs) i j _ hj hlt

lemma prevRow_le {i j : ℕ} (hij : i ≤ j) (hj : j < coo.nnz) : coo.prevRow i ≤ coo.rowAt j := by
  rw [prevRow]
  split
  · exact Nat.zero_le _
  · exact h.rowAt_mono hs (by omega) hj

lemma le_prevRow {i j : ℕ} (hij : i < j) (hj : j ≤ coo.nnz) : coo.rowAt i ≤ coo.prevRow j := by
  rw [prevRow, if_neg (by omega)]
  exact h.rowAt_mono hs (by omega) (by omega)

/-- The rows between two neighbours in the scan begin at the second one. -/
lemma bucketStart_between {i r : ℕ} (hi : i ≤ coo.nnz) (hlo : coo.prevRow i < r)
    (hhi : ∀ j, i ≤ j → j < coo.nnz → r ≤ coo.rowAt j) : bucketStart coo.rowAt coo.nnz r = i :=
  bucketStart_eq hi (fun _ hj => (h.le_prevRow hs hj hi).trans_lt hlo) hhi

lemma sortedIndptr_eq : coo.sortedCOOToCSR.indptr =
      (List.range (coo.numRows + 1)).map (bucketStart coo.rowAt coo.nnz) := by
  set scan := fun (b : List ℕ) (i : ℕ) => markRows (coo.prevRow i) (coo.rowAt i) i b with hscan
  set zeros := List.replicate (coo.numRows + 1) 0 with hzeros
  have hlen (m : ℕ) : ((List.range m).foldl scan zeros).length = coo.numRows + 1 := by
    induction m with
    | zero => simp [hzeros]
    | succ m ih => rw [List.range_succ, List.foldl_append, List.foldl_cons, List.foldl_nil, hscan,
        length_markRows, ← hscan, ih]
  have hzero : bucketStart coo.rowAt coo.nnz 0 = 0 := rfl
  -- The scan has marked the rows up to the one where it stands.
  have hmarked (m : ℕ) (hm : m ≤ coo.nnz) (r : ℕ) (hr : r ≤ coo.prevRow m)
      (hrn : r < coo.numRows + 1) :
      ((List.range m).foldl scan zeros).getD r 0 = bucketStart coo.rowAt coo.nnz r := by
    induction m with
    | zero =>
        obtain rfl : r = 0 := by simpa [prevRow] using hr
        rw [hzero]
        simp [hzeros]
    | succ m ih =>
        rw [List.range_succ, List.foldl_append, List.foldl_cons, List.foldl_nil, hscan,
          markRows_getD (by rw [← hscan, hlen]; exact hrn), ← hscan]
        have hr' : r ≤ coo.rowAt m := by simpa [prevRow] using hr
        by_cases hlo : coo.prevRow m < r
        · rw [if_pos ⟨hlo, hr'⟩, h.bucketStart_between hs (by omega) hlo]
          exact fun j hmj hj => hr'.trans (h.rowAt_mono hs hmj hj)
        · rw [if_neg (by omega), ih (by omega) (by omega)]
  show (if 0 < coo.nnz then
    markRows (coo.prevRow coo.nnz) coo.numRows coo.nnz ((List.range coo.nnz).foldl scan zeros)
    else zeros) = _
  by_cases hnnz : 0 < coo.nnz
  · rw [if_pos hnnz]
    apply List.ext_getElem
    · rw [length_markRows, hlen, List.length_map, List.length_range]
    · intro r hr hr'
      rw [length_markRows, hlen] at hr
      rw [← List.getD_eq_getElem _ 0, markRows_getD (by rwa [hlen]), List.getElem_map,
        List.getElem_range]
      by_cases hlo : coo.prevRow coo.nnz < r
      · rw [if_pos ⟨hlo, by omega⟩, h.bucketStart_between hs le_rfl hlo (by omega)]
      · rw [if_neg (by omega), hmarked _ le_rfl _ (by omega) hr]
  · rw [if_neg hnnz]
    obtain hnnz : coo.nnz = 0 := by omega
    apply List.ext_getElem
    · simp [hzeros]
    · intro r hr hr'
      rw [List.getElem_map, List.getElem_range, hnnz, bucketStart_eq_countP]
      simp [hzeros]

lemma sorted_eq : coo.sortedCOOToCSR = coo.bucketed := by
  have horder : bucketOrder coo.rowAt coo.numRows coo.nnz = List.range coo.nnz :=
    bucketOrder_of_mono h.rowAt_lt fun _ _ hij hj => h.rowAt_mono hs hij hj
  have hcol : (List.range coo.nnz).map coo.colAt = coo.col := by
    apply List.ext_getElem
    · rw [List.length_map, List.length_range, h.col_length]
    · intro i hi hi'
      rw [List.getElem_map, List.getElem_range, colAt, List.getD_eq_getElem _ _ hi']
  have hdata : (List.range coo.nnz).map (idAt coo.data) =
      if coo.hasData then coo.data else List.range coo.nnz := by
    by_cases hd : coo.data = []
    · simp only [hasData, hd, ne_eq, not_true_eq_false, decide_false, Bool.false_eq_true, if_false]
      exact map_idAt_nil _
    · rw [if_pos (by simp [hasData, hd])]
      exact map_idAt_eq (h.data_length hd) hd
  have hptr := h.sortedIndptr_eq hs
  rw [bucketed, horder, toCSR, List.map_map, List.map_map, ← hptr]
  show _ = CSRMatrix.mk _ _ _ _ ((List.range coo.nnz).map coo.colAt)
    ((List.range coo.nnz).map (idAt coo.data)) _
  rw [hcol, hdata]
  rfl

end

end InRange

end COOMatrix

end DglAscend.Aten
