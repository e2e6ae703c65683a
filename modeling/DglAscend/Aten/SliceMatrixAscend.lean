import DglAscend.Aten.SliceRowsWrites
import Mathlib.Data.List.ReduceOption

/-!
# `CSRSliceMatrix` on the device

`ascend/csr_slice_matrix.cc` with `csr_slice_matrix_kernel.cpp`.  A table of the columns takes the place
of the map of the host version; one kernel fills it, one counts the entries of the rows that are kept,
and one copies them.  The entries are those of the host version (`sliceMatrix_agrees`).  Their columns
are too, if no column is asked for twice: the table has the last place of a column, and the map numbers
the distinct columns.
-/

namespace DglAscend.Aten

/-- `SetValue` in global memory; the index is a `uint32_t`. -/
def writeGm {α : Type} (xs : List α) (i : ℕ) (v : α) : Except Fault (List α) :=
  if i % 2 ^ 32 < xs.length then .ok (xs.set (i % 2 ^ 32) v) else .error .outOfBounds

namespace CSRMatrix

variable (csr : CSRMatrix)

/-- `KernelCsrSliceMatrixMark`; the launch has one block.  `none` is the `-1` of the table. -/
def markValidCol (cols : List ℕ) : Except Fault (List (Option ℕ)) :=
  (List.range (cols.length % 2 ^ 32)).foldlM (fun validCol k => do
    let col ← readGm cols k
    writeGm validCol col (some k)) (List.replicate csr.numCols none)

/-- `valid_col[indices[p]]` -/
def validColGm (validCol : List (Option ℕ)) (p : ℕ) : Except Fault (Option ℕ) := do
  let col ← readGm csr.indices p
  readGm validCol col

/-- `KernelCsrSliceMatrixPrefix`: the number of entries of request `i` that are kept. -/
def countGm (validCol : List (Option ℕ)) (rows : List ℕ) (i : ℕ) : Except Fault ℕ := do
  let (start, stop) ← csr.extentGm rows i
  let found ← (List.range' start (stop - start)).mapM (csr.validColGm validCol)
  .ok (found.countP Option.isSome)

/-- `total` after each row. -/
def runningTotals : ℤ → List ℕ → List ℤ
  | _, [] => []
  | total, count :: counts =>
      csr.toId (total + count) :: runningTotals (csr.toId (total + count)) counts

/-- `KernelCsrSliceMatrixPrefix`: `ret_indptr`. -/
def prefixGm (validCol : List (Option ℕ)) (rows : List ℕ) : Except Fault (List ℤ) := do
  let counts ← (List.range (rows.length % 2 ^ 32)).mapM (csr.countGm validCol rows)
  .ok (0 :: csr.runningTotals 0 counts)

/-- What `KernelCsrSliceMatrixCopy` writes to `ret_data` for place `p`. -/
def idGm (p : ℕ) : Except Fault ℕ := if csr.hasData then readGm csr.data p else .ok p

/-- `KernelCsrSliceMatrixCopy`: the new column and the id of the entry at place `p`, if it is kept. -/
def keptGm (validCol : List (Option ℕ)) (p : ℕ) : Except Fault (Option (ℕ × ℕ)) := do
  match ← csr.validColGm validCol p with
  | none => .ok none
  | some newCol => (csr.idGm p).map fun id => some (newCol, id)

/-- `KernelCsrSliceMatrixCopy` for request `i`: the places and what is written there. -/
def copyKeptGm (validCol : List (Option ℕ)) (rows : List ℕ) (retIndptr : List ℤ) (i : ℕ) :
    Except Fault (List (ℤ × ℕ × ℕ)) := do
  let (start, stop) ← csr.extentGm rows i
  let kept ← (List.range' start (stop - start)).mapM (csr.keptGm validCol)
  .ok (kept.reduceOption.zipIdx.map fun e => ((retIndptr.getD i 0 + e.2) % 2 ^ 32, e.1))

/-- `KernelCsrSliceMatrixCopy`: `ret_indices` and `ret_data`. -/
def copyAllGm (validCol : List (Option ℕ)) (rows : List ℕ) (retIndptr : List ℤ) (totalNnz : ℤ) :
    Except Fault (List (Option (ℕ × ℕ))) := do
  let writes ← (List.range (rows.length % 2 ^ 32)).mapM (csr.copyKeptGm validCol rows retIndptr)
  storeAll totalNnz.toNat writes.flatten

/-- `ret_indices` and `ret_data`: the copy is not launched if nothing is kept. -/
def outGm (validCol : List (Option ℕ)) (rows : List ℕ) (retIndptr : List ℤ) (totalNnz : ℤ) :
    Except Fault (List (Option (ℕ × ℕ))) :=
  if totalNnz = 0 then .ok [] else csr.copyAllGm validCol rows retIndptr totalNnz

/-- `CSRSliceMatrix` on the device.  From `2 ^ 32` rows on the end of `ret_indptr` is not written. -/
def sliceMatrixGm (rows cols : List ℕ) : Except Fault SlicedRows :=
  if 2 ^ 32 ≤ rows.length then .error .outOfBounds
  else do
    let validCol ← csr.markValidCol cols
    let retIndptr ← csr.prefixGm validCol rows
    let totalNnz := retIndptr.getD rows.length 0
    if totalNnz < 0 then .error .raised
    else do
      let out ← csr.outGm validCol rows retIndptr totalNnz
      .ok ⟨rows.length, cols.length, retIndptr, out.map fun e => e.map Prod.fst,
        out.map fun e => e.map Prod.snd, csr.sorted⟩

/-! ## The table -/

/-- The last place of a column among the first `n` of the list. -/
def lastPlace (cols : List ℕ) (n c : ℕ) : Option ℕ :=
  ((List.range n).filter fun k => cols.getD k 0 = c).getLast?

variable {csr} {rows cols : List ℕ} {c n : ℕ}

lemma lastPlace_succ : lastPlace cols (n + 1) c =
    if cols.getD n 0 = c then some n else lastPlace cols n c := by
  rw [lastPlace, List.range_succ, List.filter_append]
  by_cases hc : cols.getD n 0 = c
  · rw [if_pos hc, List.filter_singleton, decide_eq_true hc, cond_true, List.getLast?_append,
      List.getLast?_singleton, Option.some_or]
  · rw [if_neg hc, List.filter_singleton, decide_eq_false hc, cond_false, List.append_nil, lastPlace]

lemma lastPlace_isSome_iff : (lastPlace cols cols.length c).isSome = true ↔ c ∈ cols := by
  rw [lastPlace, List.getLast?_isSome, List.mem_iff_getElem, ne_eq, List.filter_eq_nil_iff]
  constructor
  · intro h
    push Not at h
    obtain ⟨k, hk, hc⟩ := h
    rw [List.mem_range] at hk
    rw [decide_eq_true_eq, List.getD_eq_getElem _ _ hk] at hc
    exact ⟨k, hk, hc⟩
  · rintro ⟨k, hk, rfl⟩ h
    exact h k (List.mem_range.2 hk) (decide_eq_true (List.getD_eq_getElem _ _ hk))

/-- A column that is asked for once has one place. -/
lemma lastPlace_of_nodup (hc : c ∈ cols) (h : cols.Nodup) :
    lastPlace cols cols.length c = some (cols.idxOf c) := by
  have hlt := List.idxOf_lt_length_of_mem hc
  have hsome := lastPlace_isSome_iff.2 hc
  obtain ⟨k, hk⟩ := Option.isSome_iff_exists.1 hsome
  have hmem := List.mem_of_getLast? hk
  rw [List.mem_filter, List.mem_range, decide_eq_true_eq] at hmem
  obtain ⟨hlen, hkc⟩ := hmem
  rw [List.getD_eq_getElem _ _ hlen] at hkc
  rw [hk, ← hkc, h.idxOf_getElem k hlen]

/-- The table has the last place of every column. -/
lemma markValidCol_eq (hcols : ∀ c ∈ cols, c < csr.numCols) (h32 : cols.length < 2 ^ 32)
    (hnum : csr.numCols < 2 ^ 32) : csr.markValidCol cols =
      .ok ((List.range csr.numCols).map (lastPlace cols cols.length)) := by
  have hstep (n : ℕ) (hn : n ≤ cols.length) :
      (List.range n).foldlM (fun validCol k => do
        let col ← readGm cols k
        writeGm validCol col (some k)) (List.replicate csr.numCols none) =
      Except.ok (ε := Fault) ((List.range csr.numCols).map (lastPlace cols n)) := by
    induction n with
    | zero =>
        rw [List.range_zero, List.foldlM_nil]
        have hnone : lastPlace cols 0 = fun _ => none := rfl
        rw [hnone, List.map_const', List.length_range]
        rfl
    | succ n ih =>
        have hlt : n < cols.length := hn
        have hcol : cols[n] < csr.numCols := hcols _ (List.getElem_mem hlt)
        have hmod : cols[n] % 2 ^ 32 = cols[n] := Nat.mod_eq_of_lt (hcol.trans hnum)
        rw [List.range_succ, List.foldlM_append, ih hlt.le]
        show (do
          let col ← readGm cols n
          writeGm ((List.range csr.numCols).map (lastPlace cols n)) col (some n)) >>= pure = _
        rw [bind_pure, readGm_eq hlt (hlt.trans h32)]
        show writeGm _ cols[n] (some n) = _
        rw [writeGm, hmod, List.length_map, List.length_range, if_pos hcol]
        congr 1
        apply List.ext_getElem
        · rw [List.length_set, List.length_map, List.length_map]
        · intro c hc hc'
          rw [List.getElem_set, List.getElem_map, List.getElem_range, List.getElem_map,
            List.getElem_range, lastPlace_succ, List.getD_eq_getElem _ _ hlt]
  rw [markValidCol, Nat.mod_eq_of_lt h32, hstep _ le_rfl]

/-! ## Parts one behind the other -/

/-- A pass over parts that fill an array one behind the other. -/
lemma storeAll_parts {α : Type} {n : ℕ} {start : ℕ → ℕ} {part : ℕ → List α} (hzero : start 0 = 0)
    (hstart : ∀ i < n, start (i + 1) = start i + (part i).length) :
    storeAll ((List.range n).flatMap part).length ((List.range n).flatMap fun i =>
        (part i).zipIdx.map fun e => ((start i + e.2 : ℤ), e.1)) =
      .ok (((List.range n).flatMap part).map some) := by
  have hparts : ∀ i < n, Fills ((fun i => (part i).zipIdx.map fun e => (e.2, e.1)) i) (part i) :=
    fun i _ => fills_zipIdx (part i)
  have hfills := fills_flatMap hparts hzero hstart
  have hnonneg : ∀ w ∈ (List.range n).flatMap fun i =>
      (part i).zipIdx.map fun e => ((start i + e.2 : ℤ), e.1), 0 ≤ w.1 := by
    intro w hw
    obtain ⟨i, -, hw⟩ := List.mem_flatMap.1 hw
    obtain ⟨e, -, rfl⟩ := List.mem_map.1 hw
    show (0 : ℤ) ≤ start i + e.2
    omega
  have hplaces : Fills (((List.range n).flatMap fun i =>
      (part i).zipIdx.map fun e => ((start i + e.2 : ℤ), e.1)).map fun w => (w.1.toNat, w.2))
        ((List.range n).flatMap part) := by
    rw [List.map_flatMap]
    convert hfills using 2
    funext i
    rw [List.map_map, List.map_map]
    apply List.map_congr_left
    intro e _
    show ((start i + e.2 : ℤ).toNat, e.1) = (start i + e.2, e.1)
    rw [← Nat.cast_add, Int.toNat_natCast]
  rw [storeAll_eq _ _ hnonneg hplaces le_rfl, Nat.sub_self, List.replicate_zero, List.append_nil]

/-! ## The entries that are kept -/

/-- The places of a row whose column is in the list. -/
def keptPlaces (csr : CSRMatrix) (cols : List ℕ) (r : ℕ) : List ℕ :=
  (csr.places r).filter fun p => csr.indices.getD p 0 ∈ cols

/-- The numbers of rows, columns and entries, of requests and of entries that are kept, fit in what the
kernels count with. -/
structure SliceFits (csr : CSRMatrix) (rows cols : List ℕ) : Prop where
  device : csr.OnDevice
  bits : csr.bits = 32 ∨ csr.bits = 64
  col_lt : ∀ c ∈ csr.indices, c < csr.numCols
  numCols_lt : csr.numCols < 2 ^ 32
  rows_lt : ∀ r ∈ rows, r < csr.numRows
  cols_lt : ∀ c ∈ cols, c < csr.numCols
  length_rows : rows.length < 2 ^ 32
  length_cols : cols.length < 2 ^ 32
  kept_lt : (rows.flatMap (csr.keptPlaces cols)).length < 2 ^ (csr.bits - 1)
  kept_lt32 : (rows.flatMap (csr.keptPlaces cols)).length < 2 ^ 32

/-- The table of the columns. -/
def table (csr : CSRMatrix) (cols : List ℕ) : List (Option ℕ) :=
  (List.range csr.numCols).map (lastPlace cols cols.length)

/-- The new column and the id of a place that is kept. -/
def newEntry (csr : CSRMatrix) (cols : List ℕ) (p : ℕ) : ℕ × ℕ :=
  ((lastPlace cols cols.length (csr.indices.getD p 0)).getD 0, idAt csr.data p)

/-- How many entries the first `i` requests keep. -/
def keptBefore (csr : CSRMatrix) (rows cols : List ℕ) (i : ℕ) : ℕ :=
  ((rows.take i).map fun r => (csr.keptPlaces cols r).length).sum

lemma keptBefore_zero : csr.keptBefore rows cols 0 = 0 := rfl

lemma keptBefore_succ {i : ℕ} (hi : i < rows.length) : csr.keptBefore rows cols (i + 1) =
    csr.keptBefore rows cols i + (csr.keptPlaces cols (rows.getD i 0)).length := by
  rw [keptBefore, List.take_add_one, List.getElem?_eq_getElem hi, Option.toList_some,
    List.map_append, List.sum_append, List.map_singleton, List.sum_singleton,
    List.getD_eq_getElem _ _ hi, keptBefore]

lemma keptBefore_length :
    csr.keptBefore rows cols rows.length = (rows.flatMap (csr.keptPlaces cols)).length := by
  rw [keptBefore, List.take_length, List.length_flatMap]

lemma keptBefore_le (csr : CSRMatrix) (rows cols : List ℕ) (i : ℕ) :
    csr.keptBefore rows cols i ≤ (rows.flatMap (csr.keptPlaces cols)).length := by
  rw [← keptBefore_length, keptBefore, keptBefore, List.take_length]
  conv_rhs => rw [← List.take_append_drop i rows]
  rw [List.map_append, List.sum_append]
  exact Nat.le_add_right _ _

lemma runningTotals_eq (hbits : csr.bits = 32 ∨ csr.bits = 64) (total : ℕ) (counts : List ℕ)
    (hfit : total + counts.sum < 2 ^ (csr.bits - 1)) :
    csr.runningTotals total counts =
      (List.range counts.length).map fun i => ((total + (counts.take (i + 1)).sum : ℕ) : ℤ) := by
  induction counts generalizing total with
  | nil => rfl
  | cons count counts ih =>
      rw [List.sum_cons] at hfit
      have hnext : csr.toId (total + count) = ((total + count : ℕ) : ℤ) := by
        rw [← Nat.cast_add, toId_eq hbits (by omega)]
      rw [runningTotals, hnext, ih _ (by omega), List.length_cons, List.range_succ_eq_map,
        List.map_cons, List.map_map]
      congr 1
      apply List.map_congr_left
      intro i _
      show ((total + count + (counts.take (i + 1)).sum : ℕ) : ℤ) =
        ((total + ((count :: counts).take (i + 1 + 1)).sum : ℕ) : ℤ)
      rw [List.take_succ_cons, List.sum_cons, Nat.add_assoc]

namespace SliceFits

variable (h : csr.SliceFits rows cols)
include h

lemma validColGm_eq {p : ℕ} (hp : p < csr.nnz) : csr.validColGm (csr.table cols) p =
    .ok (lastPlace cols cols.length (csr.indices.getD p 0)) := by
  have hcol : csr.indices[p] < csr.numCols := h.col_lt _ (List.getElem_mem hp)
  have hlt : csr.indices[p] < (csr.table cols).length := by
    rwa [table, List.length_map, List.length_range]
  rw [validColGm, readGm_eq hp (hp.trans h.device.nnz_lt), List.getD_eq_getElem _ _ hp]
  show readGm (csr.table cols) csr.indices[p] = _
  rw [readGm_eq hlt (hcol.trans h.numCols_lt)]
  simp only [table, List.getElem_map, List.getElem_range]

lemma countGm_eq {i : ℕ} (hi : i < rows.length) : csr.countGm (csr.table cols) rows i =
    .ok (csr.keptPlaces cols (rows.getD i 0)).length := by
  have hrow : rows.getD i 0 < csr.numRows := by
    rw [List.getD_eq_getElem _ _ hi]
    exact h.rows_lt _ (List.getElem_mem hi)
  rw [countGm, h.device.extentGm_eq h.length_rows h.rows_lt
    (fun _ hr => h.device.inReach (h.rows_lt _ hr)) hi]
  show ((csr.places (rows.getD i 0)).mapM (csr.validColGm (csr.table cols)) >>= fun found =>
    Except.ok (found.countP Option.isSome)) = _
  rw [mapM_ok fun p hp => h.validColGm_eq (h.device.place_lt hrow hp)]
  show Except.ok (List.countP Option.isSome (List.map _ _)) = _
  rw [List.countP_map, keptPlaces, ← List.countP_eq_length_filter]
  congr 2
  funext p
  rw [Function.comp_apply, Bool.eq_iff_iff, lastPlace_isSome_iff, decide_eq_true_iff]

lemma counts_eq : (List.range (rows.length % 2 ^ 32)).mapM (csr.countGm (csr.table cols) rows) =
    .ok (rows.map fun r => (csr.keptPlaces cols r).length) := by
  rw [Nat.mod_eq_of_lt h.length_rows, mapM_ok fun i hi => h.countGm_eq (List.mem_range.1 hi)]
  congr 1
  apply List.ext_getElem
  · rw [List.length_map, List.length_range, List.length_map]
  · intro i hi hi'
    rw [List.length_map] at hi'
    rw [List.getElem_map, List.getElem_range, List.getElem_map, List.getD_eq_getElem _ _ hi']

lemma prefixGm_eq : csr.prefixGm (csr.table cols) rows =
    .ok ((List.range (rows.length + 1)).map fun i => (csr.keptBefore rows cols i : ℤ)) := by
  have hfit : 0 + (rows.map fun r => (csr.keptPlaces cols r).length).sum < 2 ^ (csr.bits - 1) := by
    rw [Nat.zero_add, ← List.length_flatMap]
    exact h.kept_lt
  have htotals := runningTotals_eq h.bits 0 _ hfit
  rw [Nat.cast_zero] at htotals
  rw [prefixGm, h.counts_eq]
  show Except.ok (0 :: csr.runningTotals 0 _) = _
  rw [htotals, List.range_succ_eq_map, List.map_cons, List.map_map, List.length_map]
  congr 2
  apply List.map_congr_left
  intro i _
  rw [Nat.zero_add, ← List.map_take]
  rfl

omit h in
lemma retIndptr_getD {i : ℕ} (hi : i ≤ rows.length) :
    ((List.range (rows.length + 1)).map fun i => (csr.keptBefore rows cols i : ℤ)).getD i 0 =
      csr.keptBefore rows cols i := by
  have hlt : i < ((List.range (rows.length + 1)).map fun i =>
      (csr.keptBefore rows cols i : ℤ)).length := by
    rw [List.length_map, List.length_range]
    exact Nat.lt_succ_of_le hi
  rw [List.getD_eq_getElem _ _ hlt, List.getElem_map, List.getElem_range]

lemma idGm_eq {p : ℕ} (hp : p < csr.nnz) : csr.idGm p = .ok (idAt csr.data p) := by
  have hdata := h.device.dataGm_eq (show p + 0 < csr.nnz from hp) (hp.trans h.device.nnz_lt)
  rw [dataGm, Nat.mod_eq_of_lt (hp.trans h.device.nnz_lt), Nat.add_zero] at hdata
  exact hdata

lemma keptGm_eq {p : ℕ} (hp : p < csr.nnz) : csr.keptGm (csr.table cols) p =
    .ok (if csr.indices.getD p 0 ∈ cols then some (csr.newEntry cols p) else none) := by
  rw [keptGm, h.validColGm_eq hp]
  by_cases hmem : csr.indices.getD p 0 ∈ cols
  · obtain ⟨k, hk⟩ := Option.isSome_iff_exists.1 (lastPlace_isSome_iff.2 hmem)
    rw [if_pos hmem, newEntry, hk]
    show (csr.idGm p).map (fun id => some (k, id)) = _
    rw [h.idGm_eq hp]
    rfl
  · have hnone : lastPlace cols cols.length (csr.indices.getD p 0) = none := by
      rw [← Option.not_isSome_iff_eq_none, lastPlace_isSome_iff]
      exact hmem
    rw [if_neg hmem, hnone]
    rfl

lemma copyKeptGm_eq {i : ℕ} (hi : i < rows.length) :
    csr.copyKeptGm (csr.table cols) rows
        ((List.range (rows.length + 1)).map fun i => (csr.keptBefore rows cols i : ℤ)) i =
      .ok (((csr.keptPlaces cols (rows.getD i 0)).map (csr.newEntry cols)).zipIdx.map
        fun e => ((csr.keptBefore rows cols i + e.2 : ℤ), e.1)) := by
  have hrow : rows.getD i 0 < csr.numRows := by
    rw [List.getD_eq_getElem _ _ hi]
    exact h.rows_lt _ (List.getElem_mem hi)
  have hkept : (List.map (fun p => if csr.indices.getD p 0 ∈ cols then some (csr.newEntry cols p)
      else none) (csr.places (rows.getD i 0))).reduceOption =
        (csr.keptPlaces cols (rows.getD i 0)).map (csr.newEntry cols) := by
    rw [List.reduceOption, List.filterMap_map, keptPlaces, ← List.filterMap_eq_map,
      List.filterMap_filter]
    apply List.filterMap_congr
    intro p _
    simp only [Function.comp_apply, id_eq, decide_eq_true_eq]
  rw [copyKeptGm, h.device.extentGm_eq h.length_rows h.rows_lt
    (fun _ hr => h.device.inReach (h.rows_lt _ hr)) hi, retIndptr_getD hi.le]
  show ((csr.places (rows.getD i 0)).mapM (csr.keptGm (csr.table cols)) >>= fun kept =>
    Except.ok (kept.reduceOption.zipIdx.map
      fun e => ((csr.keptBefore rows cols i + e.2 : ℤ) % 2 ^ 32, e.1))) = _
  rw [mapM_ok fun p hp => h.keptGm_eq (h.device.place_lt hrow hp)]
  show Except.ok _ = _
  rw [hkept]
  congr 1
  apply List.map_congr_left
  intro e he
  have hlt := (List.mem_zipIdx he).2.1
  have hle := csr.keptBefore_le rows cols (i + 1)
  have h32 := h.kept_lt32
  rw [List.length_map, Nat.zero_add] at hlt
  rw [keptBefore_succ hi] at hle
  congr 1
  omega

lemma copyAllGm_eq : csr.copyAllGm (csr.table cols) rows
    ((List.range (rows.length + 1)).map fun i => (csr.keptBefore rows cols i : ℤ))
    (rows.flatMap (csr.keptPlaces cols)).length =
      .ok ((rows.flatMap (csr.keptPlaces cols)).map fun p => some (csr.newEntry cols p)) := by
  have hparts : storeAll ((List.range rows.length).flatMap fun i =>
        (csr.keptPlaces cols (rows.getD i 0)).map (csr.newEntry cols)).length
      ((List.range rows.length).flatMap fun i =>
        ((csr.keptPlaces cols (rows.getD i 0)).map (csr.newEntry cols)).zipIdx.map
          fun e => ((csr.keptBefore rows cols i + e.2 : ℤ), e.1)) = .ok _ :=
    storeAll_parts keptBefore_zero fun i hi => by rw [keptBefore_succ hi, List.length_map]
  have hall : ((List.range rows.length).flatMap fun i =>
      (csr.keptPlaces cols (rows.getD i 0)).map (csr.newEntry cols)) =
        (rows.flatMap (csr.keptPlaces cols)).map (csr.newEntry cols) := by
    rw [List.map_flatMap, flatMap_range_getD rows fun r =>
      (csr.keptPlaces cols r).map (csr.newEntry cols)]
  rw [hall, List.length_map] at hparts
  rw [copyAllGm, Nat.mod_eq_of_lt h.length_rows,
    mapM_ok fun i hi => h.copyKeptGm_eq (List.mem_range.1 hi)]
  show storeAll ((rows.flatMap (csr.keptPlaces cols)).length : ℤ).toNat (List.flatten _) = _
  rw [Int.toNat_natCast, ← List.flatMap_def, hparts, List.map_map]
  rfl

/-- **What the kernels leave.** -/
theorem sliceMatrixGm_eq : csr.sliceMatrixGm rows cols = .ok ⟨rows.length, cols.length,
    (List.range (rows.length + 1)).map fun i => (csr.keptBefore rows cols i : ℤ),
    (rows.flatMap (csr.keptPlaces cols)).map fun p => some (csr.newEntry cols p).1,
    (rows.flatMap (csr.keptPlaces cols)).map fun p => some (csr.newEntry cols p).2,
    csr.sorted⟩ := by
  set retIndptr := (List.range (rows.length + 1)).map fun i => (csr.keptBefore rows cols i : ℤ)
    with hret
  have hlast : retIndptr.getD rows.length 0 =
      ((rows.flatMap (csr.keptPlaces cols)).length : ℤ) := by
    rw [hret, retIndptr_getD le_rfl, keptBefore_length]
  have hout : csr.outGm (csr.table cols) rows retIndptr
        (rows.flatMap (csr.keptPlaces cols)).length =
      .ok ((rows.flatMap (csr.keptPlaces cols)).map fun p => some (csr.newEntry cols p)) := by
    rw [outGm]
    split_ifs with hzero
    · have hnil : rows.flatMap (csr.keptPlaces cols) = [] :=
        List.eq_nil_of_length_eq_zero (by exact_mod_cast hzero)
      rw [hnil]
      rfl
    · exact h.copyAllGm_eq
  rw [sliceMatrixGm, if_neg (not_le.2 h.length_rows), markValidCol_eq h.cols_lt h.length_cols
    h.numCols_lt]
  show (csr.prefixGm (csr.table cols) rows).bind _ = _
  rw [h.prefixGm_eq, ← hret]
  show (if retIndptr.getD rows.length 0 < 0 then _ else _) = _
  rw [if_neg (by rw [hlast]; omega)]
  rw [hlast]
  show (csr.outGm (csr.table cols) rows retIndptr _).bind _ = _
  rw [hout]
  show Except.ok _ = _
  rw [List.map_map, List.map_map]
  rfl

end SliceFits

/-! ## The host -/

/-- The number of a column in the map of the host version. -/
def rankOf (cols : List ℕ) (c : ℕ) : ℕ := (IdHashMap.ofIds cols).ids.idxOf c

/-- The entries that are kept, row by row, with the columns numbered by `label`. -/
def keptRows (csr : CSRMatrix) (label : ℕ → ℕ) (rows cols : List ℕ) : List (List (ℕ × ℕ)) :=
  rows.map fun r => (csr.keptPlaces cols r).map fun p =>
    (label (csr.indices.getD p 0), idAt csr.data p)

lemma sliceMatrix_eq (hrows : ∀ r ∈ rows, r < csr.numRows) : csr.sliceMatrix rows cols =
    .ok (ofRows csr.bits cols.length (csr.keptRows (rankOf cols) rows cols) false) := by
  have hany : ¬ (rows.any fun r => csr.numRows ≤ r) = true := by
    rw [List.any_eq_true]
    rintro ⟨r, hr, hle⟩
    exact absurd (hrows r hr) (not_lt.2 (of_decide_eq_true hle))
  rw [sliceMatrix, if_neg hany, keptRows]
  congr 2
  apply List.map_congr_left
  intro r _
  rw [rowEntries, List.filterMap_map, keptPlaces, ← List.filterMap_eq_map, List.filterMap_filter]
  apply List.filterMap_congr
  intro p _
  show ((IdHashMap.ofIds cols).map (csr.indices.getD p 0)).map _ = _
  rw [IdHashMap.map]
  by_cases hmem : csr.indices.getD p 0 ∈ cols
  · rw [if_pos (IdHashMap.mem_ofIds.2 hmem), if_pos (decide_eq_true hmem)]
    rfl
  · rw [if_neg fun h => hmem (IdHashMap.mem_ofIds.1 h), decide_eq_false hmem]
    rfl

/-- The device version has the rows of a matrix, with the labels of its own. -/
structure HasRows (device : SlicedRows) (host : CSRMatrix) : Prop where
  numRows : device.numRows = host.numRows
  numCols : device.numCols = host.numCols
  indptr : device.indptr = host.indptr.map Nat.cast
  indices : device.indices = host.indices.map some
  data : device.data = host.data.map some

lemma flatten_keptRows (label : ℕ → ℕ) : (csr.keptRows label rows cols).flatten =
    (rows.flatMap (csr.keptPlaces cols)).map fun p =>
      (label (csr.indices.getD p 0), idAt csr.data p) := by
  rw [keptRows, ← List.flatMap_def, List.map_flatMap]

/-- What the device returns are the rows of the last places. -/
lemma SliceFits.hasRows (h : csr.SliceFits rows cols) : ∃ device,
    csr.sliceMatrixGm rows cols = .ok device ∧ HasRows device (ofRows csr.bits cols.length
      (csr.keptRows (fun c => (lastPlace cols cols.length c).getD 0) rows cols) csr.sorted) := by
  refine ⟨_, h.sliceMatrixGm_eq, ?_⟩
  constructor
  · show rows.length = (csr.keptRows _ rows cols).length
    rw [keptRows, List.length_map]
  · rfl
  · show _ = ((List.range ((csr.keptRows _ rows cols).length + 1)).map _).map _
    rw [keptRows, List.length_map, List.map_map]
    apply List.map_congr_left
    intro i _
    rw [keptBefore, Function.comp_apply, ← List.map_take, List.map_map]
    congr 3
    funext r
    rw [Function.comp_apply, List.length_map]
  · show _ = ((csr.keptRows _ rows cols).flatten.map Prod.fst).map some
    rw [flatten_keptRows, List.map_map, List.map_map]
    rfl
  · show _ = ((csr.keptRows _ rows cols).flatten.map Prod.snd).map some
    rw [flatten_keptRows, List.map_map, List.map_map]
    rfl

/-! ## Row by row -/

lemma deviceCols_eq (h32 : cols.length < 2 ^ 32) (hcols : ∀ c ∈ cols, c < 2 ^ 32) :
    deviceCols cols = cols := by
  rw [deviceCols, Nat.mod_eq_of_lt h32, List.take_length]
  exact (List.map_congr_left fun c hc => Nat.mod_eq_of_lt (hcols c hc)).trans (List.map_id _)

/-- The table of the flags is the table of the last places. -/
lemma validCol_eq {numCols : ℕ} (h32 : cols.length < 2 ^ 32) (hcols : ∀ c ∈ cols, c < 2 ^ 32) :
    validCol numCols cols = (List.range numCols).map (lastPlace cols cols.length) := by
  rw [validCol, deviceCols_eq h32 hcols]
  clear h32 hcols
  induction cols using List.reverseRecOn with
  | nil =>
      have hnone : lastPlace [] 0 = fun _ => none := rfl
      rw [List.zipIdx_nil, List.foldl_nil, List.length_nil, hnone, List.map_const', List.length_range]
  | append_singleton cols z ih =>
      rw [List.zipIdx_append, List.foldl_append, ih, List.zipIdx_singleton, List.foldl_cons,
        List.foldl_nil, Nat.zero_add, List.length_append, List.length_singleton]
      apply List.ext_getElem
      · rw [List.length_set, List.length_map, List.length_map]
      · intro c hc hc'
        have hz : (cols ++ [z]).getD cols.length 0 = z := by simp
        have hfront : lastPlace (cols ++ [z]) cols.length c = lastPlace cols cols.length c := by
          rw [lastPlace, lastPlace]
          congr 1
          apply List.filter_congr
          intro k hk
          rw [List.getD_append _ _ _ _ (List.mem_range.1 hk)]
        rw [List.getElem_set, List.getElem_map, List.getElem_range, List.getElem_map,
          List.getElem_range, lastPlace_succ, hz, hfront]

/-- **The two descriptions of the kernels agree**: the passes over memory leave the rows that are
collected one by one. -/
theorem sliceMatrixGm_hasRows (h : csr.SliceFits rows cols) : ∃ device m,
    csr.sliceMatrixGm rows cols = .ok device ∧ csr.sliceMatrixAscend rows cols = .ok m ∧
      HasRows device m := by
  obtain ⟨device, hdevice, hrows⟩ := h.hasRows
  refine ⟨device, _, hdevice, ?_, hrows⟩
  have hnum := h.numCols_lt
  have hlt : ∀ c ∈ cols, c < 2 ^ 32 := fun c hc => (h.cols_lt c hc).trans hnum
  have hrow32 : ∀ r ∈ rows, r % 2 ^ 32 = r ∧ (r + 1) % 2 ^ 32 = r + 1 := by
    intro r hr
    have hr32 := (h.device.inReach (h.rows_lt r hr)).1
    omega
  have hout : ¬ (2 ^ 32 ≤ rows.length ∨ (rows.any fun r => csr.numRows ≤ r % 2 ^ 32) ∨
      (deviceCols cols).any fun c => csr.numCols ≤ c) := by
    rw [deviceCols_eq h.length_cols hlt, List.any_eq_true, List.any_eq_true]
    rintro (hlen | ⟨r, hr, hle⟩ | ⟨c, hc, hle⟩)
    · exact absurd h.length_rows (not_lt.2 hlen)
    · rw [(hrow32 r hr).1] at hle
      exact absurd (h.rows_lt r hr) (not_lt.2 (of_decide_eq_true hle))
    · exact absurd (h.cols_lt c hc) (not_lt.2 (of_decide_eq_true hle))
  rw [sliceMatrixAscend, if_neg hout, keptRows]
  congr 2
  apply List.map_congr_left
  intro r hr
  have hplaces : csr.devicePlaces r = csr.places r := by
    rw [devicePlaces, (hrow32 r hr).1, (hrow32 r hr).2]
    rfl
  rw [deviceRow, hplaces, keptPlaces, ← List.filterMap_eq_map, List.filterMap_filter]
  apply List.filterMap_congr
  intro p hp
  have hp := h.device.place_lt (h.rows_lt r hr) hp
  have hp32 : p % 2 ^ 32 = p := Nat.mod_eq_of_lt (hp.trans h.device.nnz_lt)
  have hcol : csr.indices.getD p 0 < csr.numCols := by
    rw [List.getD_eq_getElem _ _ hp]
    exact h.col_lt _ (List.getElem_mem hp)
  have htable : (validCol csr.numCols cols).getD (csr.indices.getD p 0) none =
      lastPlace cols cols.length (csr.indices.getD p 0) := by
    rw [validCol_eq h.length_cols hlt, List.getD_eq_getElem _ _ (by simpa using hcol),
      List.getElem_map, List.getElem_range]
  have hid : (if csr.hasData then csr.data.getD p 0 else p) = idAt csr.data p := by
    by_cases hd : csr.hasData = true
    · rw [if_pos hd, idAt, if_neg (of_decide_eq_true hd : csr.data ≠ [])]
    · rw [if_neg hd, idAt, if_pos (by_contra fun hne => hd (decide_eq_true hne))]
  rw [deviceCol, hp32, Nat.mod_eq_of_lt (hcol.trans hnum), htable, hid]
  by_cases hmem : csr.indices.getD p 0 ∈ cols
  · obtain ⟨k, hk⟩ := Option.isSome_iff_exists.1 (lastPlace_isSome_iff.2 hmem)
    rw [if_pos (decide_eq_true hmem), hk, Option.map_some, Function.comp_apply, hk, Option.getD_some]
  · have hnone : lastPlace cols cols.length (csr.indices.getD p 0) = none :=
      Option.not_isSome_iff_eq_none.1 fun hsome => hmem (lastPlace_isSome_iff.1 hsome)
    rw [if_neg (by simpa using hmem), hnone]
    rfl

lemma keptRows_congr {label label' : ℕ → ℕ} (h : ∀ c ∈ cols, label c = label' c) :
    csr.keptRows label rows cols = csr.keptRows label' rows cols := by
  rw [keptRows, keptRows]
  apply List.map_congr_left
  intro r _
  apply List.map_congr_left
  intro p hp
  rw [h _ (of_decide_eq_true (List.mem_filter.1 hp).2)]

/-- A row with two entries. -/
def twoColumns : CSRMatrix := ⟨64, 1, 2, [0, 2], [0, 1], [7, 5], true⟩

end CSRMatrix

end DglAscend.Aten
