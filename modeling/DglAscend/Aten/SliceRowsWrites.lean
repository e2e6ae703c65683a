import DglAscend.Aten.GetDataAscend
import DglAscend.Lib.DisjointWrites

/-!
# What slicing rows writes

`CSRSliceRows` for a list of row ids: the threads of `cpu/spmat_op_impl_csr.cc`, each with
consecutive rows, and the kernel of `ascend/csr_slice_rows_kernel.cpp`, which writes into arrays of
the length of the whole matrix.  Both return the rows one behind the other as long as the sums of the
degrees are ids, and on the device as long as the rows are no longer than the matrix
(`sliceRows_iff`).
-/

namespace DglAscend.Aten

/-- The arrays of a result; an element that is never written is `none`. -/
structure SlicedRows where
  numRows : ℕ
  numCols : ℕ
  indptr : List ℤ
  indices : List (Option ℕ)
  data : List (Option ℕ)
  sorted : Bool
  deriving DecidableEq, Repr

/-- The writes to an array that has been allocated with `size` elements. -/
def storeAll {α : Type} (size : ℕ) (ws : List (ℤ × α)) : Except Fault (List (Option α)) :=
  if ws.all fun w => 0 ≤ w.1 ∧ w.1 < size then
    .ok (applyWrites (List.replicate size none) (ws.map fun w => (w.1.toNat, some w.2)))
  else .error .outOfBounds

namespace CSRMatrix

variable (csr : CSRMatrix)

/-- `indptr[rid + 1] - indptr[rid]` -/
def degree (rid : ℕ) : ℕ := csr.ptr (rid + 1) - csr.ptr rid

/-- `static_cast<IdType>` -/
def toId (x : ℤ) : ℤ := x.bmod (2 ^ csr.bits)

/-- The number of entries of the rows. -/
def sumOf (rows : List ℕ) : ℕ := (rows.map csr.degree).sum

/-! ## On the host -/

/-- The first round of a thread: what `sum` is after each of its rows. -/
def localSums : ℕ → List ℕ → List ℕ
  | _, [] => []
  | sum, rid :: rids => (sum + csr.degree rid) :: localSums (sum + csr.degree rid) rids

/-- `ret_indptr_data` from element 1 on, after both rounds.  Each list of rows is that of a thread, and
`offset` is `sums[tid]`. -/
def twoRounds : ℤ → List (List ℕ) → List ℤ
  | _, [] => []
  | offset, chunk :: chunks =>
      ((csr.localSums 0 chunk).map fun sum : ℕ => csr.toId (csr.toId sum + offset)) ++
        twoRounds (csr.toId (csr.toId (csr.sumOf chunk) + offset)) chunks

/-- `std::copy` from an array of the matrix, for the row at place `i` of `rows`. -/
def copyRow (values : List ℕ) (retIndptr : List ℤ) (rows : List ℕ) (i : ℕ) : List (ℤ × ℕ) :=
  (List.range (csr.degree (rows.getD i 0))).map fun k : ℕ =>
    (retIndptr.getD i 0 + k, values.getD (csr.ptr (rows.getD i 0) + k) 0)

/-- `std::iota` from `indptr_data[rid]`. -/
def iotaRow (retIndptr : List ℤ) (rows : List ℕ) (i : ℕ) : List (ℤ × ℕ) :=
  (List.range (retIndptr.getD (i + 1) 0 - retIndptr.getD i 0).toNat).map fun k : ℕ =>
    (retIndptr.getD i 0 + k, csr.ptr (rows.getD i 0) + k)

/-- The writes to `ret_data`. -/
def dataWrites (retIndptr : List ℤ) (rows : List ℕ) : List (ℤ × ℕ) :=
  (List.range rows.length).flatMap fun i =>
    if csr.hasData then csr.copyRow csr.data retIndptr rows i else csr.iotaRow retIndptr rows i

/-- `CSRSliceRows` on the host.  The rows come with the threads that have them; the threads of the
second loop write in any order.  An `iota` that ends before its start runs off the array. -/
def sliceRowsThreads (order : AnyOrder (ℤ × ℕ)) (chunks : List (List ℕ)) :
    Except Fault SlicedRows :=
  let rows := chunks.flatten
  let retIndptr := 0 :: csr.twoRounds 0 chunks
  let nnz := retIndptr.getD rows.length 0
  if rows.any fun rid => csr.numRows ≤ rid then .error .raised
  else if nnz < 0 then .error .raised
  else if !csr.hasData && (List.range rows.length).any fun i =>
      retIndptr.getD (i + 1) 0 < retIndptr.getD i 0 then .error .outOfBounds
  else do
    let indices ← storeAll nnz.toNat
      (order.run ((List.range rows.length).flatMap (csr.copyRow csr.indices retIndptr rows)))
    let data ← storeAll nnz.toNat (order.run (csr.dataWrites retIndptr rows))
    .ok ⟨rows.length, csr.numCols, retIndptr, indices, data, csr.sorted⟩

/-! ## On the device -/

/-- Start and end of the row of request `i`. -/
def extentGm (rows : List ℕ) (i : ℕ) : Except Fault (ℕ × ℕ) := do
  let row ← readGm rows i
  let start ← readGm csr.indptr row
  let stop ← readGm csr.indptr (row % 2 ^ 32 + 1)
  .ok (start, stop)

/-- Phase 1: `total` after each row. -/
def totals : ℤ → List (ℕ × ℕ) → List ℤ
  | _, [] => []
  | total, e :: es =>
      csr.toId (total + (e.2 - e.1)) :: totals (csr.toId (total + (e.2 - e.1))) es

/-- What phase 2 writes to `ret_data` for element `j` of a row. -/
def dataGm (srcOff j : ℕ) : Except Fault ℕ :=
  if csr.hasData then readGm csr.data (srcOff % 2 ^ 32 + j) else .ok (srcOff + j)

/-- Phase 2 for one row: the places and what is written there to `ret_indices` and `ret_data`. -/
def copyGm (srcOff : ℕ) (dstOff nextOff : ℤ) : Except Fault (List (ℤ × ℕ × ℕ)) :=
  (List.range ((nextOff - dstOff) % 2 ^ 32).toNat).mapM fun j => do
    let val ← readGm csr.indices (srcOff % 2 ^ 32 + j)
    let id ← csr.dataGm srcOff j
    .ok ((dstOff % 2 ^ 32 + j) % 2 ^ 32, val, id)

/-- Phase 2. -/
def phase2 (rows : List ℕ) (extents : List (ℕ × ℕ)) (retIndptr : List ℤ) :
    Except Fault (List (Option (ℕ × ℕ))) := do
  let writes ← (List.range (rows.length % 2 ^ 32)).mapM fun i =>
    csr.copyGm (extents.getD i (0, 0)).1 (retIndptr.getD i 0) (retIndptr.getD (i + 1) 0)
  storeAll csr.nnz writes.flatten

/-- `CreateView` of the arrays with `total_nnz` elements. -/
def trimmed (rows : List ℕ) (retIndptr : List ℤ) (out : List (Option (ℕ × ℕ))) :
    Except Fault SlicedRows :=
  let totalNnz := retIndptr.getD rows.length 0
  if totalNnz < 0 ∨ csr.nnz < totalNnz then .error .raised
  else .ok ⟨rows.length, csr.numCols, retIndptr,
    (out.take totalNnz.toNat).map fun e => e.map Prod.fst,
    (out.take totalNnz.toNat).map fun e => e.map Prod.snd, csr.sorted⟩

/-- `CSRSliceRows` on the device.  The arrays have `nnz_total` elements; from `2 ^ 32` rows on the end
of `ret_indptr` is not written. -/
def sliceRowsAscend (rows : List ℕ) : Except Fault SlicedRows :=
  if 2 ^ 32 ≤ rows.length then .error .outOfBounds
  else do
    let extents ← (List.range (rows.length % 2 ^ 32)).mapM (csr.extentGm rows)
    let out ← csr.phase2 rows extents (0 :: csr.totals 0 extents)
    csr.trimmed rows (0 :: csr.totals 0 extents) out

/-! ## The rows one behind the other -/

/-- The result: the sums of the degrees, and the entries of the rows in the order of the request. -/
def concatenated (rows : List ℕ) : SlicedRows where
  numRows := rows.length
  numCols := csr.numCols
  indptr := (List.range (rows.length + 1)).map fun i => (csr.sumOf (rows.take i) : ℤ)
  indices := (rows.flatMap csr.places).map fun j => some (csr.indices.getD j 0)
  data := (rows.flatMap csr.places).map fun j => some (idAt csr.data j)
  sorted := csr.sorted

/-! ## The sums -/

variable {csr} {rows : List ℕ}

lemma sumOf_cons (rid : ℕ) (rids : List ℕ) :
    csr.sumOf (rid :: rids) = csr.degree rid + csr.sumOf rids := by
  rw [sumOf, List.map_cons, List.sum_cons, sumOf]

lemma sumOf_nil : csr.sumOf [] = 0 := rfl

lemma sumOf_append (rows rows' : List ℕ) :
    csr.sumOf (rows ++ rows') = csr.sumOf rows + csr.sumOf rows' := by
  rw [sumOf, List.map_append, List.sum_append, sumOf, sumOf]

lemma sumOf_take_succ {i : ℕ} (hi : i < rows.length) :
    csr.sumOf (rows.take (i + 1)) = csr.sumOf (rows.take i) + csr.degree (rows.getD i 0) := by
  rw [List.take_add_one, List.getElem?_eq_getElem hi, Option.toList_some, sumOf_append,
    List.getD_eq_getElem _ _ hi, sumOf_cons, sumOf_nil, Nat.add_zero]

lemma sumOf_take_le (csr : CSRMatrix) (rows : List ℕ) (i : ℕ) : csr.sumOf (rows.take i) ≤ csr.sumOf rows := by
  conv_rhs => rw [← List.take_append_drop i rows]
  rw [sumOf_append]
  exact Nat.le_add_right _ _

lemma length_flatMap_places (rows : List ℕ) :
    (rows.flatMap csr.places).length = csr.sumOf rows := by
  induction rows with
  | nil => rfl
  | cons rid rids ih =>
      rw [List.flatMap_cons, List.length_append, ih, sumOf_cons, length_places, degree]

lemma localSums_append (sum : ℕ) (rows rows' : List ℕ) :
    csr.localSums sum (rows ++ rows') =
      csr.localSums sum rows ++ csr.localSums (sum + csr.sumOf rows) rows' := by
  induction rows generalizing sum with
  | nil => rfl
  | cons rid rids ih =>
      rw [List.cons_append, localSums, ih, localSums, List.cons_append, sumOf_cons, Nat.add_assoc]

/-- A thread that starts later has the same sums, from its offset on. -/
lemma localSums_add (c sum : ℕ) (rows : List ℕ) :
    csr.localSums (c + sum) rows = (csr.localSums sum rows).map (c + ·) := by
  induction rows generalizing sum with
  | nil => rfl
  | cons rid rids ih =>
      rw [localSums, localSums, List.map_cons, ← ih, Nat.add_assoc]

lemma localSums_eq (sum : ℕ) (rows : List ℕ) :
    csr.localSums sum rows =
      (List.range rows.length).map fun i => sum + csr.sumOf (rows.take (i + 1)) := by
  induction rows generalizing sum with
  | nil => rfl
  | cons rid rids ih =>
      rw [localSums, ih, List.length_cons, List.range_succ_eq_map, List.map_cons, List.map_map]
      congr 1
      apply List.map_congr_left
      intro i _
      show _ = sum + csr.sumOf (rid :: rids.take (i + 1))
      rw [sumOf_cons, Nat.add_assoc]

lemma toId_add (x y : ℤ) : csr.toId (csr.toId x + csr.toId y) = csr.toId (x + y) := by
  rw [toId, toId, toId, toId, Int.bmod_add_bmod, Int.add_bmod_bmod]

/-- Both rounds together are one prefix sum, however the rows are shared out. -/
lemma twoRounds_eq (offset : ℕ) (chunks : List (List ℕ)) :
    csr.twoRounds (csr.toId offset) chunks =
      (csr.localSums offset chunks.flatten).map fun sum : ℕ => csr.toId sum := by
  induction chunks generalizing offset with
  | nil => rfl
  | cons chunk chunks ih =>
      have hnext : csr.toId (csr.toId (csr.sumOf chunk) + csr.toId offset) =
          csr.toId ((offset + csr.sumOf chunk : ℕ) : ℤ) := by
        rw [toId_add, Nat.cast_add, add_comm]
      have hlocal : csr.localSums offset chunk = (csr.localSums 0 chunk).map (offset + ·) :=
        csr.localSums_add offset 0 chunk
      rw [twoRounds, hnext, ih, List.flatten_cons, localSums_append, List.map_append, hlocal,
        List.map_map]
      congr 1
      apply List.map_congr_left
      intro sum _
      show csr.toId (csr.toId sum + csr.toId offset) = csr.toId ((offset + sum : ℕ) : ℤ)
      rw [toId_add, Nat.cast_add, add_comm]

lemma cons_localSums (rows : List ℕ) :
    0 :: (csr.localSums 0 rows).map (fun sum : ℕ => csr.toId sum) =
      (List.range (rows.length + 1)).map fun i => csr.toId (csr.sumOf (rows.take i)) := by
  rw [localSums_eq, List.range_succ_eq_map, List.map_cons, List.map_map, List.map_map]
  congr 1
  · show 0 = csr.toId 0
    rw [toId, Int.zero_bmod]
  · apply List.map_congr_left
    intro i _
    show csr.toId ((0 + csr.sumOf (rows.take (i + 1)) : ℕ) : ℤ) = _
    rw [Nat.zero_add]
    rfl

section Fit

variable (hbits : csr.bits = 32 ∨ csr.bits = 64)
include hbits

lemma toId_eq {x : ℕ} (hx : x < 2 ^ (csr.bits - 1)) : csr.toId x = x := by
  rw [toId]
  rcases hbits with hbits | hbits
  · rw [hbits] at hx ⊢
    exact Int.bmod_eq_of_le (by omega) (by omega)
  · rw [hbits] at hx ⊢
    exact Int.bmod_eq_of_le (by omega) (by omega)

lemma toId_lt (x : ℤ) : csr.toId x < 2 ^ (csr.bits - 1) := by
  rw [toId]
  rcases hbits with hbits | hbits
  · rw [hbits]
    have hlt := Int.bmod_lt (x := x) (m := 2 ^ 32) (by decide)
    norm_num at hlt ⊢
    exact hlt
  · rw [hbits]
    have hlt := Int.bmod_lt (x := x) (m := 2 ^ 64) (by decide)
    norm_num at hlt ⊢
    exact hlt

lemma sums_eq (hfit : csr.sumOf rows < 2 ^ (csr.bits - 1)) :
    ((List.range (rows.length + 1)).map fun i => csr.toId (csr.sumOf (rows.take i))) =
      (csr.concatenated rows).indptr := by
  apply List.map_congr_left
  intro i _
  exact toId_eq hbits ((csr.sumOf_take_le rows i).trans_lt hfit)

end Fit

lemma concatenated_indptr {i : ℕ} (hi : i ≤ rows.length) :
    (csr.concatenated rows).indptr.getD i 0 = csr.sumOf (rows.take i) := by
  show ((List.range (rows.length + 1)).map _).getD i 0 = _
  have hlt : i < ((List.range (rows.length + 1)).map fun i =>
      (csr.sumOf (rows.take i) : ℤ)).length := by
    rw [List.length_map, List.length_range]
    exact Nat.lt_succ_of_le hi
  rw [List.getD_eq_getElem _ _ hlt, List.getElem_map, List.getElem_range]

/-! ## The copies -/

lemma storeAll_eq {α : Type} (size : ℕ) (ws : List (ℤ × α)) {target : List α}
    (hnonneg : ∀ w ∈ ws, 0 ≤ w.1) (h : Fills (ws.map fun w => (w.1.toNat, w.2)) target)
    (hle : target.length ≤ size) :
    storeAll size ws = .ok (target.map some ++ List.replicate (size - target.length) none) := by
  have hlt : ∀ w ∈ ws, w.1.toNat < target.length := by
    intro w hw
    have hmem := h.places.subset (List.mem_map_of_mem (List.mem_map_of_mem hw))
    exact List.mem_range.1 hmem
  have hall : (ws.all fun w => 0 ≤ w.1 ∧ w.1 < size) = true := by
    rw [List.all_eq_true]
    intro w hw
    have := hnonneg w hw
    have := hlt w hw
    exact decide_eq_true (by omega)
  have hfills : Fills (ws.map fun w => (w.1.toNat, some w.2)) (target.map some) := by
    have hmap := h.map some
    rw [List.map_map] at hmap
    exact hmap
  have hsize : size = target.length + (size - target.length) := by omega
  rw [storeAll, if_pos hall]
  conv_lhs => rw [hsize, List.replicate_add]
  rw [applyWrites_append, hfills.applyWrites_eq (by rw [List.length_replicate, List.length_map])]
  intro w hw
  obtain ⟨w', hw', rfl⟩ := List.mem_map.1 hw
  rw [List.length_replicate]
  exact hlt w' hw'

/-- The writes of a pass over the rows, each of which fills its part. -/
lemma storeAll_rows (csr : CSRMatrix) {α : Type} {size : ℕ} {writes : ℕ → List (ℤ × α)} (value : ℕ → α)
    {ws : List (ℤ × α)} (hws : ws.Perm ((List.range rows.length).flatMap writes))
    (hwrites : ∀ i < rows.length, writes i = (List.range (csr.degree (rows.getD i 0))).map
      fun k : ℕ => ((csr.sumOf (rows.take i) + k : ℤ), value (csr.ptr (rows.getD i 0) + k)))
    (hle : csr.sumOf rows ≤ size) :
    storeAll size ws = .ok (((rows.flatMap csr.places).map fun j => some (value j)) ++
      List.replicate (size - csr.sumOf rows) none) := by
  have hfills : Fills ((List.range rows.length).flatMap fun i =>
      ((List.range (csr.degree (rows.getD i 0))).map fun k =>
        (k, value (csr.ptr (rows.getD i 0) + k))).map fun w => (csr.sumOf (rows.take i) + w.1, w.2))
      ((List.range rows.length).flatMap fun i => (csr.places (rows.getD i 0)).map value) := by
    apply fills_flatMap
    · intro i _
      have hpart : (csr.places (rows.getD i 0)).map value =
          (List.range (csr.degree (rows.getD i 0))).map fun k =>
            value (csr.ptr (rows.getD i 0) + k) := by
        rw [places, List.range'_eq_map_range, List.map_map, degree]
        rfl
      rw [hpart]
      exact fills_range _ _
    · rfl
    · intro i hi
      rw [sumOf_take_succ hi, List.length_map, length_places, degree]
  rw [flatMap_range_getD rows fun r => (csr.places r).map value, ← List.map_flatMap] at hfills
  have hcast : ((List.range rows.length).flatMap writes).map (fun w => (w.1.toNat, w.2)) =
      (List.range rows.length).flatMap fun i =>
        ((List.range (csr.degree (rows.getD i 0))).map fun k =>
          (k, value (csr.ptr (rows.getD i 0) + k))).map
            fun w => (csr.sumOf (rows.take i) + w.1, w.2) := by
    rw [List.map_flatMap]
    apply List.flatMap_congr
    intro i hi
    rw [hwrites i (List.mem_range.1 hi), List.map_map, List.map_map]
    apply List.map_congr_left
    intro k _
    show ((csr.sumOf (rows.take i) + k : ℤ).toNat, _) = _
    rw [← Nat.cast_add, Int.toNat_natCast]
    rfl
  have hlen : ((rows.flatMap csr.places).map value).length = csr.sumOf rows := by
    rw [List.length_map, length_flatMap_places]
  have hstore := storeAll_eq size ws ?_
    (hfills.perm ((hws.map _).trans (hcast ▸ List.Perm.refl _))) (hlen.trans_le hle)
  · rw [hstore, hlen, List.map_map]
    rfl
  · intro w hw
    obtain ⟨i, hi, hw⟩ := List.mem_flatMap.1 (hws.subset hw)
    rw [hwrites i (List.mem_range.1 hi)] at hw
    obtain ⟨k, -, rfl⟩ := List.mem_map.1 hw
    show 0 ≤ (csr.sumOf (rows.take i) + k : ℤ)
    omega

/-! ## The threads -/

lemma retIndptr_eq (csr : CSRMatrix) (chunks : List (List ℕ)) :
    0 :: csr.twoRounds 0 chunks = (List.range (chunks.flatten.length + 1)).map fun i =>
      csr.toId (csr.sumOf (chunks.flatten.take i)) := by
  have hzero : csr.toId ((0 : ℕ) : ℤ) = 0 := Int.zero_bmod
  rw [← cons_localSums, ← twoRounds_eq, hzero]

lemma indptr_of_sliceRowsThreads {order : AnyOrder (ℤ × ℕ)} {chunks : List (List ℕ)}
    {r : SlicedRows} (h : csr.sliceRowsThreads order chunks = .ok r) :
    r.indptr = 0 :: csr.twoRounds 0 chunks := by
  rw [sliceRowsThreads] at h
  split at h
  · cases h
  · split at h
    · cases h
    · split at h
      · cases h
      · obtain ⟨indices, -, h⟩ := bind_eq_ok_iff.1 h
        obtain ⟨data, -, h⟩ := bind_eq_ok_iff.1 h
        obtain rfl := Except.ok.inj h
        rfl

/-- The sums are ids where the first array is as it should be. -/
lemma fits_of_indptr (hbits : csr.bits = 32 ∨ csr.bits = 64)
    (h : (csr.concatenated rows).indptr = (List.range (rows.length + 1)).map fun i =>
      csr.toId (csr.sumOf (rows.take i))) : csr.sumOf rows < 2 ^ (csr.bits - 1) := by
  have hlast := List.map_inj_left.1 h rows.length (List.mem_range.2 (Nat.lt_succ_self _))
  rw [List.take_length] at hlast
  have hlt := csr.toId_lt hbits (csr.sumOf rows)
  rw [← hlast] at hlt
  exact_mod_cast hlt

/-- **The host version** returns the rows one behind the other, whatever the threads do, if and only
if the sum of their degrees is an id. -/
lemma sliceRowsThreads_iff (hbits : csr.bits = 32 ∨ csr.bits = 64) (order : AnyOrder (ℤ × ℕ))
    {chunks : List (List ℕ)} (hrows : ∀ rid ∈ chunks.flatten, rid < csr.numRows) :
    csr.sliceRowsThreads order chunks = .ok (csr.concatenated chunks.flatten) ↔
      csr.sumOf chunks.flatten < 2 ^ (csr.bits - 1) := by
  constructor
  · intro h
    have hindptr := indptr_of_sliceRowsThreads h
    rw [retIndptr_eq] at hindptr
    exact fits_of_indptr hbits hindptr
  · intro hfit
    have hret : 0 :: csr.twoRounds 0 chunks = (csr.concatenated chunks.flatten).indptr := by
      rw [retIndptr_eq, sums_eq hbits hfit]
    generalize hrowsEq : chunks.flatten = rows at *
    have hnnz : (csr.concatenated rows).indptr.getD rows.length 0 = csr.sumOf rows := by
      rw [concatenated_indptr le_rfl, List.take_length]
    have hget {i : ℕ} (hi : i < rows.length) : (csr.concatenated rows).indptr.getD (i + 1) 0 =
        (csr.concatenated rows).indptr.getD i 0 + csr.degree (rows.getD i 0) := by
      rw [concatenated_indptr hi, concatenated_indptr hi.le, sumOf_take_succ hi, Nat.cast_add]
    have hin : ¬ (rows.any fun rid => csr.numRows ≤ rid) = true := by
      rw [List.any_eq_true]
      rintro ⟨rid, hrid, hle⟩
      exact absurd (hrows rid hrid) (not_lt.2 (of_decide_eq_true hle))
    have hiota : ¬ (!csr.hasData && (List.range rows.length).any fun i =>
        (csr.concatenated rows).indptr.getD (i + 1) 0 <
          (csr.concatenated rows).indptr.getD i 0) = true := by
      rw [Bool.and_eq_true, List.any_eq_true]
      rintro ⟨-, i, hi, hlt⟩
      have hlt := of_decide_eq_true hlt
      rw [hget (List.mem_range.1 hi)] at hlt
      omega
    have hcopy (values : List ℕ) {i : ℕ} (hi : i < rows.length) :
        csr.copyRow values (csr.concatenated rows).indptr rows i =
          (List.range (csr.degree (rows.getD i 0))).map fun k : ℕ =>
            ((csr.sumOf (rows.take i) + k : ℤ), values.getD (csr.ptr (rows.getD i 0) + k) 0) := by
      rw [copyRow, concatenated_indptr hi.le]
    have hindices := csr.storeAll_rows (fun j => csr.indices.getD j 0)
      (order.perm ((List.range rows.length).flatMap
        (csr.copyRow csr.indices (csr.concatenated rows).indptr rows)))
      (fun i hi => hcopy csr.indices hi) le_rfl
    have hdata := csr.storeAll_rows (fun j => idAt csr.data j)
      (order.perm (csr.dataWrites (csr.concatenated rows).indptr rows)) ?_ le_rfl
    · rw [sliceRowsThreads, hrowsEq, hret, hnnz, if_neg hin, if_neg (by omega), if_neg hiota, Int.toNat_natCast,
        hindices, hdata, Nat.sub_self, List.replicate_zero, List.append_nil, List.append_nil]
      rfl
    · intro i hi
      by_cases hd : csr.hasData = true
      · have hne : csr.data ≠ [] := of_decide_eq_true hd
        rw [if_pos hd, hcopy csr.data hi]
        apply List.map_congr_left
        intro k _
        rw [idAt, if_neg hne]
      · have hnil : csr.data = [] := by
          by_contra hne
          exact hd (decide_eq_true hne)
        rw [if_neg hd, iotaRow, hget hi, concatenated_indptr hi.le, add_sub_cancel_left,
          Int.toNat_natCast]
        apply List.map_congr_left
        intro k _
        rw [idAt, if_pos hnil]

/-! ## The kernel -/

lemma totals_eq (h : csr.Framed) (total : ℕ) (hrows : ∀ rid ∈ rows, rid < csr.numRows) :
    csr.totals (csr.toId total) (rows.map fun rid => (csr.ptr rid, csr.ptr (rid + 1))) =
      (csr.localSums total rows).map fun sum : ℕ => csr.toId sum := by
  induction rows generalizing total with
  | nil => rfl
  | cons rid rids ih =>
      have hmono := h.ptr_mono rid (hrows rid List.mem_cons_self)
      have hdegree : (csr.ptr (rid + 1) - csr.ptr rid : ℤ) = csr.degree rid := by
        rw [degree, Nat.cast_sub hmono]
      have hnext : csr.toId (csr.toId total + csr.degree rid) =
          csr.toId ((total + csr.degree rid : ℕ) : ℤ) := by
        rw [toId, toId, toId, Int.bmod_add_bmod, Nat.cast_add]
      rw [List.map_cons, totals, hdegree, hnext, ih _ fun rid' h' => hrows rid'
        (List.mem_cons_of_mem _ h'), localSums, List.map_cons]

/-- The rows have no more entries than the matrix, and the numbers of rows and entries fit. -/
structure RowsFit (csr : CSRMatrix) (rows : List ℕ) : Prop where
  length_lt : rows.length < 2 ^ 32
  sum_le : csr.sumOf rows ≤ csr.nnz
  sum_lt : csr.sumOf rows < 2 ^ (csr.bits - 1)
  sum_le32 : csr.sumOf rows ≤ 2 ^ 32
  degree_lt : ∀ rid ∈ rows, csr.degree rid < 2 ^ 32

/-- A row is written to places of 32 bits, as many as its length in 32 bits. -/
lemma of_copyGm {srcOff : ℕ} {dstOff nextOff : ℤ} {ws : List (ℤ × ℕ × ℕ)}
    (h : csr.copyGm srcOff dstOff nextOff = .ok ws) :
    ws.length = ((nextOff - dstOff) % 2 ^ 32).toNat ∧ ∀ w ∈ ws, w.1 < 2 ^ 32 := by
  rw [copyGm] at h
  refine ⟨by rw [← (mapM_eq_ok_iff.1 h).length_eq, List.length_range], fun w hw => ?_⟩
  obtain ⟨j, -, hstep⟩ := mem_of_mapM_ok h hw
  obtain ⟨val, -, hstep⟩ := bind_eq_ok_iff.1 hstep
  obtain ⟨id, -, hstep⟩ := bind_eq_ok_iff.1 hstep
  rw [← congrArg Prod.fst (Except.ok.inj hstep)]
  exact Int.emod_lt_of_pos _ (by norm_num)

/-- A place of an array that has a value has been written to. -/
lemma mem_of_storeAll {α : Type} {size : ℕ} {ws : List (ℤ × α)} {out : List (Option α)}
    (h : storeAll size ws = .ok out) {k : ℕ} {v : α} (hk : out[k]? = some (some v)) :
    (k : ℤ) ∈ ws.map Prod.fst := by
  rw [storeAll] at h
  split at h
  · rename_i hall
    obtain rfl := Except.ok.inj h
    by_contra hnot
    rw [applyWrites_getElem?_of_notMem, List.getElem?_replicate] at hk
    · split at hk <;> cases hk
    · rintro hmem
      obtain ⟨w', hw', rfl⟩ := List.mem_map.1 hmem
      obtain ⟨w, hw, rfl⟩ := List.mem_map.1 hw'
      have hw0 := (of_decide_eq_true (List.all_eq_true.1 hall w hw)).1
      exact hnot (List.mem_map.2 ⟨w, hw, (Int.toNat_of_nonneg hw0).symm⟩)
  · cases h

lemma mem_totals {total x : ℤ} {es : List (ℕ × ℕ)} (h : x ∈ csr.totals total es) :
    ∃ y, x = csr.toId y := by
  induction es generalizing total with
  | nil => cases h
  | cons e es ih =>
      rcases List.mem_cons.1 h with rfl | h
      · exact ⟨_, rfl⟩
      · exact ih h

/-- The places of all entries have been written to: they are numbers of 32 bits, and as many as are
written. -/
lemma of_phase2 {extents : List (ℕ × ℕ)} {out : List (Option (ℕ × ℕ))} (h32 : rows.length < 2 ^ 32)
    (h : csr.phase2 rows extents (csr.concatenated rows).indptr = .ok out)
    (hout : ∀ k < csr.sumOf rows, ∃ v, out[k]? = some (some v)) :
    csr.sumOf rows ≤ 2 ^ 32 ∧ ∀ rid ∈ rows, csr.degree rid < 2 ^ 32 := by
  obtain ⟨writes, hwrites, hstore⟩ := bind_eq_ok_iff.1 h
  rw [Nat.mod_eq_of_lt h32, mapM_range_eq_ok_iff []] at hwrites
  obtain ⟨hlen, hrow⟩ := hwrites
  have hmem {k : ℕ} (hk : k < csr.sumOf rows) : (k : ℤ) ∈ writes.flatten.map Prod.fst := by
    obtain ⟨v, hv⟩ := hout k hk
    exact mem_of_storeAll hstore hv
  constructor
  · by_contra hlt
    obtain ⟨w, hw, hk⟩ := List.mem_map.1 (hmem (not_le.1 hlt))
    obtain ⟨ws, hws, hw⟩ := List.mem_flatten.1 hw
    obtain ⟨i, hi, rfl⟩ := List.mem_iff_getElem.1 hws
    have hstep := hrow i (hlen ▸ hi)
    rw [List.getD_eq_getElem _ _ hi] at hstep
    have := (of_copyGm hstep).2 w hw
    omega
  · have hlens : writes.map List.length = rows.map fun rid => csr.degree rid % 2 ^ 32 := by
      apply List.ext_getElem (by rw [List.length_map, List.length_map, hlen])
      intro i hi hi'
      rw [List.length_map] at hi hi'
      have hstep := (of_copyGm (hrow i hi')).1
      rw [List.getD_eq_getElem _ _ hi, concatenated_indptr hi'.le, concatenated_indptr hi',
        sumOf_take_succ hi', Nat.cast_add, add_sub_cancel_left,
        List.getD_eq_getElem _ _ hi'] at hstep
      rw [List.getElem_map, List.getElem_map, hstep]
      omega
    have hsub : (List.range (csr.sumOf rows)).map Nat.cast ⊆ writes.flatten.map Prod.fst := by
      intro x hx
      obtain ⟨k, hk, rfl⟩ := List.mem_map.1 hx
      exact hmem (List.mem_range.1 hk)
    have hle := ((List.nodup_range.map Nat.cast_injective).subperm hsub).length_le
    rw [List.length_map, List.length_range, List.length_map, List.length_flatten, hlens, sumOf] at hle
    by_contra hlong
    push Not at hlong
    obtain ⟨rid, hrid, hdegree⟩ := hlong
    refine absurd hle (not_le.2 (List.sum_lt_sum _ _ (fun r _ => Nat.mod_le _ _) ⟨rid, hrid, ?_⟩))
    exact (Nat.mod_lt _ (by norm_num)).trans_le hdegree

/-- The view at the end is no longer than the arrays, its elements have been written, and the sums are
ids. -/
lemma rowsFit_of_sliceRowsAscend (hbits : csr.bits = 32 ∨ csr.bits = 64)
    (hok : csr.sliceRowsAscend rows = .ok (csr.concatenated rows)) : csr.RowsFit rows := by
  rw [sliceRowsAscend] at hok
  split at hok
  · cases hok
  · rename_i h32
    obtain ⟨extents, -, hok⟩ := bind_eq_ok_iff.1 hok
    obtain ⟨out, hout, hok⟩ := bind_eq_ok_iff.1 hok
    rw [trimmed] at hok
    split at hok
    · cases hok
    · rename_i hview
      have hret : 0 :: csr.totals 0 extents = (csr.concatenated rows).indptr :=
        congrArg SlicedRows.indptr (Except.ok.inj hok)
      have htotal : (0 :: csr.totals 0 extents).getD rows.length 0 = csr.sumOf rows := by
        rw [hret, concatenated_indptr le_rfl, List.take_length]
      have hids := congrArg SlicedRows.indices (Except.ok.inj hok)
      dsimp only [concatenated] at hids
      rw [htotal, Int.toNat_natCast] at hids
      rw [htotal] at hview
      rw [hret] at hout
      obtain ⟨hle32, hdegree⟩ := of_phase2 (not_le.1 h32) hout fun k hk => by
        have hlt : k < (rows.flatMap csr.places).length := by rwa [length_flatMap_places]
        have hget := congrArg (fun l => l[k]?) hids
        rw [List.getElem?_map, List.getElem?_take_of_lt hk, List.getElem?_map,
          List.getElem?_eq_getElem hlt] at hget
        obtain ⟨e, he, hget⟩ := Option.map_eq_some_iff.1 hget
        obtain ⟨v, rfl, -⟩ := Option.map_eq_some_iff.1 hget
        exact ⟨v, he⟩
      refine ⟨not_le.1 h32, by omega, ?_, hle32, hdegree⟩
      have hmem : (csr.sumOf rows : ℤ) ∈ 0 :: csr.totals 0 extents := by
        rw [hret]
        exact List.mem_map.2 ⟨rows.length, List.mem_range.2 (Nat.lt_succ_self _), by rw [List.take_length]⟩
      rcases List.mem_cons.1 hmem with hzero | hmem
      · rw [Nat.cast_eq_zero.1 hzero]
        exact Nat.two_pow_pos _
      · obtain ⟨y, hy⟩ := mem_totals hmem
        have hlt := Int.bmod_lt (x := y) (Nat.two_pow_pos csr.bits)
        rw [toId] at hy
        rw [← hy] at hlt
        rcases hbits with hbits | hbits <;> rw [hbits] at hlt ⊢ <;> omega

namespace Fitting

variable (h : csr.Fitting)
include h

lemma extentGm_eq (h32 : rows.length < 2 ^ 32) (hrows : ∀ rid ∈ rows, rid < csr.numRows)
    (hreach : ∀ rid ∈ rows, csr.InReach rid) {i : ℕ} (hi : i < rows.length) : csr.extentGm rows i =
      .ok (csr.ptr (rows.getD i 0), csr.ptr (rows.getD i 0 + 1)) := by
  have hr : rows[i] < csr.numRows := hrows _ (List.getElem_mem hi)
  rw [extentGm, readGm_eq hi (hi.trans h32), List.getD_eq_getElem _ _ hi]
  show (do let start ← readGm csr.indptr rows[i]
           let stop ← readGm csr.indptr (rows[i] % 2 ^ 32 + 1)
           .ok (start, stop)) = _
  rw [h.readGm_start hr (hreach _ (List.getElem_mem hi)),
    h.readGm_stop hr (hreach _ (List.getElem_mem hi))]
  rfl

lemma extents_eq (h32 : rows.length < 2 ^ 32) (hrows : ∀ rid ∈ rows, rid < csr.numRows)
    (hreach : ∀ rid ∈ rows, csr.InReach rid) :
    (List.range (rows.length % 2 ^ 32)).mapM (csr.extentGm rows) =
      .ok (rows.map fun rid => (csr.ptr rid, csr.ptr (rid + 1))) := by
  rw [Nat.mod_eq_of_lt h32, mapM_ok fun i hi => h.extentGm_eq h32 hrows hreach (List.mem_range.1 hi)]
  congr 1
  apply List.ext_getElem
  · simp
  · intro i hi hi'
    rw [List.length_map] at hi'
    rw [List.getElem_map, List.getElem_map, List.getElem_range, List.getD_eq_getElem _ _ hi']

lemma dataGm_eq {srcOff j : ℕ} (hj : srcOff + j < csr.nnz) (h32 : srcOff + j < 2 ^ 32) :
    csr.dataGm srcOff j = .ok (idAt csr.data (srcOff + j)) := by
  rw [dataGm, idAt]
  by_cases hd : csr.hasData = true
  · have hne : csr.data ≠ [] := of_decide_eq_true hd
    have hin : srcOff + j < csr.data.length := (h.data_length hd).symm ▸ hj
    rw [if_pos hd, if_neg hne, Nat.mod_eq_of_lt (by omega), readGm_eq hin h32,
      List.getD_eq_getElem _ _ hin]
  · have hnil : csr.data = [] := by
      by_contra hne
      exact hd (decide_eq_true hne)
    rw [if_neg hd, if_pos hnil]

omit h in
lemma indicesGm_eq {srcOff j : ℕ} (hj : srcOff + j < csr.nnz) (h32 : srcOff + j < 2 ^ 32) :
    readGm csr.indices (srcOff % 2 ^ 32 + j) = .ok (csr.indices.getD (srcOff + j) 0) := by
  rw [Nat.mod_eq_of_lt (by omega), readGm_eq hj h32, List.getD_eq_getElem _ _ hj]

lemma copyGm_eq {rid : ℕ} (hr : rid < csr.numRows) (hreach : csr.InReach rid) {dst : ℕ}
    (hdst : dst + csr.degree rid ≤ 2 ^ 32) (hdegree : csr.degree rid < 2 ^ 32) :
    csr.copyGm (csr.ptr rid) dst (dst + csr.degree rid) =
      .ok ((List.range (csr.degree rid)).map fun k : ℕ => ((dst + k : ℤ),
        csr.indices.getD (csr.ptr rid + k) 0, idAt csr.data (csr.ptr rid + k))) := by
  have hlen : ((dst + csr.degree rid - dst : ℤ) % 2 ^ 32).toNat = csr.degree rid := by
    rw [add_sub_cancel_left]
    omega
  rw [copyGm, hlen]
  apply mapM_ok
  intro k hk
  have hk := List.mem_range.1 hk
  have hmem : csr.ptr rid + k ∈ csr.places rid := by
    rw [places, List.mem_range'_1]
    rw [degree] at hk
    omega
  have hplace := h.place_lt hr hmem
  have hreached := (h.place_lt_ptr hr hmem).trans_le hreach.2
  have hpos : (((dst : ℤ) % 2 ^ 32 + k) % 2 ^ 32 : ℤ) = dst + k := by omega
  rw [indicesGm_eq hplace hreached, hpos]
  show (do let id ← csr.dataGm (csr.ptr rid) k
           .ok ((dst + k : ℤ), csr.indices.getD (csr.ptr rid + k) 0, id)) = _
  rw [h.dataGm_eq hplace hreached]
  rfl

/-- What phase 2 leaves: the entries of the rows, and cells that are not written. -/
lemma phase2_eq (h32 : rows.length < 2 ^ 32) (hrows : ∀ rid ∈ rows, rid < csr.numRows)
    (hreach : ∀ rid ∈ rows, csr.InReach rid) (hle : csr.sumOf rows ≤ csr.nnz)
    (hle32 : csr.sumOf rows ≤ 2 ^ 32) (hdegree : ∀ rid ∈ rows, csr.degree rid < 2 ^ 32) :
    csr.phase2 rows (rows.map fun rid => (csr.ptr rid, csr.ptr (rid + 1)))
        (csr.concatenated rows).indptr =
      .ok (((rows.flatMap csr.places).map fun j => some (csr.indices.getD j 0, idAt csr.data j)) ++
        List.replicate (csr.nnz - csr.sumOf rows) none) := by
  have hcopy : ∀ i ∈ List.range rows.length,
      csr.copyGm ((rows.map fun rid => (csr.ptr rid, csr.ptr (rid + 1))).getD i (0, 0)).1
          ((csr.concatenated rows).indptr.getD i 0)
          ((csr.concatenated rows).indptr.getD (i + 1) 0) =
        .ok ((List.range (csr.degree (rows.getD i 0))).map fun k : ℕ =>
          ((csr.sumOf (rows.take i) + k : ℤ),
            csr.indices.getD (csr.ptr (rows.getD i 0) + k) 0,
            idAt csr.data (csr.ptr (rows.getD i 0) + k))) := by
    intro i hi
    have hi := List.mem_range.1 hi
    have hget : rows.getD i 0 = rows[i] := List.getD_eq_getElem _ _ hi
    have hmem : rows.getD i 0 ∈ rows := hget ▸ List.getElem_mem hi
    have hsum := csr.sumOf_take_le rows (i + 1)
    have hext : ((rows.map fun rid => (csr.ptr rid, csr.ptr (rid + 1))).getD i (0, 0)).1 =
        csr.ptr (rows.getD i 0) := by
      rw [List.getD_eq_getElem _ _ (by rwa [List.length_map]), List.getElem_map, hget]
    rw [sumOf_take_succ hi] at hsum
    rw [hext, concatenated_indptr hi.le, concatenated_indptr hi, sumOf_take_succ hi, Nat.cast_add]
    exact h.copyGm_eq (hrows _ hmem) (hreach _ hmem) (hsum.trans hle32) (hdegree _ hmem)
  rw [phase2, Nat.mod_eq_of_lt h32, mapM_ok hcopy]
  apply csr.storeAll_rows (fun j => (csr.indices.getD j 0, idAt csr.data j)) _ (fun i _ => rfl) hle
  rw [← List.flatMap_def]

/-- **The version on the device** returns the rows one behind the other, if it reaches them, they have no
more entries than the matrix, and the numbers of the entries fit. -/
lemma sliceRowsAscend_eq (hbits : csr.bits = 32 ∨ csr.bits = 64)
    (hrows : ∀ rid ∈ rows, rid < csr.numRows) (hreach : ∀ rid ∈ rows, csr.InReach rid)
    (hfits : csr.RowsFit rows) : csr.sliceRowsAscend rows = .ok (csr.concatenated rows) := by
  obtain ⟨h32, hle, hfit, hle32, hdegree⟩ := hfits
  have hzero : csr.toId ((0 : ℕ) : ℤ) = 0 := Int.zero_bmod
  have hret : 0 :: csr.totals 0 (rows.map fun rid => (csr.ptr rid, csr.ptr (rid + 1))) =
      (csr.concatenated rows).indptr := by
    conv_lhs => rw [← hzero]
    rw [totals_eq h.framed 0 hrows, hzero, cons_localSums, sums_eq hbits hfit]
  have hlast : (csr.concatenated rows).indptr.getD rows.length 0 = csr.sumOf rows := by
    rw [concatenated_indptr le_rfl, List.take_length]
  have hlen : ((rows.flatMap csr.places).map fun j =>
      some (csr.indices.getD j 0, idAt csr.data j)).length = csr.sumOf rows := by
    rw [List.length_map, length_flatMap_places]
  rw [sliceRowsAscend, if_neg (by omega), h.extents_eq h32 hrows hreach]
  show (csr.phase2 rows _ (0 :: csr.totals 0 _)).bind (csr.trimmed rows (0 :: csr.totals 0 _)) = _
  rw [hret, h.phase2_eq h32 hrows hreach hle hle32 hdegree]
  show csr.trimmed rows _ _ = _
  rw [trimmed, hlast, if_neg (by omega), Int.toNat_natCast, List.take_left' hlen, List.map_map,
    List.map_map]
  rfl

end Fitting

end CSRMatrix

end DglAscend.Aten
