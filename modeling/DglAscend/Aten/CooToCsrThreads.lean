import DglAscend.Aten.CooToCsr

/-!
# The parallel conversions

The threads of `UnSortedDenseCOOToCSR` and `UnSortedSparseCOOToCSR` take consecutive entries, so the
counts of the earlier threads and those within a thread add up to the place of an entry in its
bucket.
-/

namespace DglAscend.Aten.COOMatrix

variable {coo : COOMatrix} {T : ℕ} {κ : ℕ → ℕ}

/-! ## What a thread takes -/

lemma le_mul_chunk (total : ℕ) (hT : 0 < T) : total ≤ T * chunk total T := by
  have hlt := Nat.lt_mul_div_succ (total + T - 1) hT
  rw [chunk]
  rw [Nat.mul_add, Nat.mul_one] at hlt
  omega

lemma nzStart_zero : coo.nzStart T 0 = 0 := by simp [nzStart]

lemma nzStart_mono {s t : ℕ} (hst : s ≤ t) : coo.nzStart T s ≤ coo.nzStart T t :=
  min_le_min_left _ (Nat.mul_le_mul_right _ hst)

lemma nzStart_last (hT : 0 < T) : coo.nzStart T T = coo.nnz :=
  min_eq_left (le_mul_chunk coo.nnz hT)

lemma nzStart_le_nnz (t : ℕ) : coo.nzStart T t ≤ coo.nnz := min_le_left _ _

lemma nzStart_threadOf (i : ℕ) : coo.nzStart T (coo.threadOf T i) ≤ i :=
  (min_le_right _ _).trans (Nat.div_mul_le_self _ _)

lemma count_rowsFrom (κ : ℕ → ℕ) {t stop : ℕ} (p : ℕ) (hle : coo.nzStart T t ≤ stop)
    (hstop : stop ≤ coo.nnz) :
    ((coo.rowsFrom T t stop).map κ).count p =
      countIn (fun i => κ (coo.rowAt i)) p (coo.nzStart T t) stop := by
  have hrows : (coo.rowsFrom T t stop).map κ =
      (List.range' (coo.nzStart T t) (stop - coo.nzStart T t)).map fun i => κ (coo.rowAt i) := by
    apply List.ext_getElem
    · simp only [rowsFrom, List.length_map, List.length_drop, List.length_take,
        List.length_range']
      rw [nnz] at hstop
      omega
    · intro i hi hi'
      simp only [List.length_map, List.length_range'] at hi'
      have hlt : coo.nzStart T t + i < coo.row.length := by
        rw [nnz] at hstop
        omega
      simp only [rowsFrom, List.getElem_map, List.getElem_drop, List.getElem_take,
        List.getElem_range', rowAt, keyAt, Nat.one_mul]
      rw [List.getD_eq_getElem _ _ hlt]
  rw [hrows, countIn, List.count, List.countP_map]
  congr 1

lemma sum_counts (κ : ℕ → ℕ) (p t : ℕ) :
    ((List.range t).map fun j =>
      ((coo.rowsFrom T j (coo.nzStart T (j + 1))).map κ).count p).sum =
      countIn (fun i => κ (coo.rowAt i)) p 0 (coo.nzStart T t) := by
  induction t with
  | zero => simp [nzStart_zero, countIn_self]
  | succ t ih =>
      rw [List.range_succ, List.map_append, List.sum_append, ih, List.map_singleton,
        List.sum_singleton, count_rowsFrom κ p (nzStart_mono (Nat.le_succ t)) (nzStart_le_nnz _),
        countIn_add _ _ (Nat.zero_le _) (nzStart_mono (Nat.le_succ t))]

/-! ## The dense algorithm -/

lemma localPtr_eq (t r : ℕ) : coo.localPtr T t r = countIn coo.rowAt r 0 (coo.nzStart T t) := by
  have hsum := coo.sum_counts (T := T) id r t
  simp only [List.map_id] at hsum
  exact hsum

lemma denseBp_eq (hT : 0 < T) (r : ℕ) : coo.denseBp T r = bucketStart coo.rowAt coo.nnz r := by
  rw [denseBp, bucketStart]
  congr 1
  apply List.map_congr_left
  intro q _
  rw [localPtr_eq, nzStart_last hT]

variable {i t : ℕ}

lemma densePlace_eq (hT : 0 < T) (hi : i < coo.nnz) :
    coo.densePlace T i = placeOf coo.rowAt coo.nnz i := by
  have hcount := count_rowsFrom (T := T) id (coo.rowAt i) (nzStart_threadOf i) hi.le
  rw [List.map_id] at hcount
  show coo.denseBp T (coo.rowAt i) + coo.localPtr T (coo.threadOf T i) (coo.rowAt i) +
    (coo.rowsFrom T (coo.threadOf T i) i).count (coo.rowAt i) = _
  rw [denseBp_eq hT, localPtr_eq, hcount, Nat.add_assoc, placeOf]
  congr 1
  exact countIn_add coo.rowAt _ (Nat.zero_le _) (nzStart_threadOf i)

lemma InRange.dense_eq (h : coo.InRange) (hT : 0 < T) : coo.unsortedDenseCOOToCSR T = coo.bucketed := by
  have hBp : coo.denseBp T = bucketStart coo.rowAt coo.nnz := funext (denseBp_eq hT)
  rw [unsortedDenseCOOToCSR, bucketed, hBp]
  congr 1
  exact writeAt_eq h.rowAt_lt (by simp [blank]) fun i hi => densePlace_eq hT hi

/-! ## The sparse algorithm -/

/-- The thread of the row of an entry. -/
def blockAt (coo : COOMatrix) (T i : ℕ) : ℕ := coo.rowThread T (coo.rowAt i)

lemma InRange.blockAt_lt (h : coo.InRange) (hT : 0 < T) : ∀ i < coo.nnz, coo.blockAt T i < T := by
  intro i hi
  have hrow := h.rowAt_lt i hi
  have hle := le_mul_chunk coo.numRows hT
  rw [blockAt, rowThread]
  apply Nat.div_lt_of_lt_mul
  rw [Nat.mul_comm]
  omega

lemma pSum_eq (hT : 0 < T) (t j : ℕ) :
    coo.pSum T t j = bucketStart (coo.blockAt T) coo.nnz j +
      countIn (coo.blockAt T) j 0 (coo.nzStart T t) := by
  rw [pSum, bucketStart]
  congr 1
  · congr 1
    apply List.map_congr_left
    intro j' _
    have hsum := coo.sum_counts (T := T) (coo.rowThread T) j' T
    rwa [nzStart_last hT] at hsum
  · exact coo.sum_counts (coo.rowThread T) j t

lemma sparsePos_eq (hT : 0 < T) (hi : i < coo.nnz) :
    coo.sparsePos T i = placeOf (coo.blockAt T) coo.nnz i := by
  have hcount := count_rowsFrom (T := T) (coo.rowThread T) (coo.blockAt T i)
    (nzStart_threadOf i) hi.le
  show coo.pSum T (coo.threadOf T i) (coo.blockAt T i) +
    ((coo.rowsFrom T (coo.threadOf T i) i).map (coo.rowThread T)).count (coo.blockAt T i) = _
  rw [pSum_eq hT, hcount, Nat.add_assoc, placeOf]
  congr 1
  exact countIn_add (coo.blockAt T) _ (Nat.zero_le _) (nzStart_threadOf i)

lemma InRange.sortedPos_eq (h : coo.InRange) (hT : 0 < T) :
    coo.sortedPos T = bucketOrder (coo.blockAt T) T coo.nnz := by
  have hwrite : coo.sortedPos T = (bucketOrder (coo.blockAt T) T coo.nnz).map id :=
    writeAt_eq (h.blockAt_lt hT) List.length_replicate fun i hi => sparsePos_eq hT hi
  rwa [List.map_id] at hwrite

lemma InRange.iStart_eq (h : coo.InRange) (hT : 0 < T) (ht : t ≤ T) :
    coo.iStart T t = bucketStart (coo.blockAt T) coo.nnz t := by
  rw [iStart]
  split
  · rw [pSum_eq hT, nzStart_zero, countIn_self, Nat.add_zero]
  · obtain rfl : t = T := by omega
    rw [bucketStart_last (h.blockAt_lt hT)]

lemma nStart_zero : coo.nStart T 0 = 0 := by simp [nStart]

lemma nStart_mono (t : ℕ) : coo.nStart T t ≤ coo.nStart T (t + 1) :=
  min_le_min_left _ (Nat.mul_le_mul_right _ (Nat.le_succ t))

lemma nStart_last (hT : 0 < T) : coo.nStart T T = coo.numRows :=
  min_eq_left (le_mul_chunk coo.numRows hT)

/-- The entries of the earlier threads are those of the earlier rows. -/
lemma InRange.blockAt_lt_iff (h : coo.InRange) (hT : 0 < T) (hi : i < coo.nnz) :
    coo.blockAt T i < t ↔ coo.rowAt i < coo.nStart T t := by
  have hrow := h.rowAt_lt i hi
  have hpos : 0 < chunk coo.numRows T := by
    have hle := le_mul_chunk coo.numRows hT
    by_contra hzero
    rw [Nat.eq_zero_of_not_pos hzero, Nat.mul_zero] at hle
    omega
  rw [blockAt, rowThread, nStart, Nat.div_lt_iff_lt_mul hpos, lt_min_iff]
  exact (and_iff_right hrow).symm

lemma InRange.blockAt_eq_iff (h : coo.InRange) (hT : 0 < T) (hi : i < coo.nnz) :
    coo.blockAt T i = t ↔ coo.nStart T t ≤ coo.rowAt i ∧ coo.rowAt i < coo.nStart T (t + 1) := by
  rw [← h.blockAt_lt_iff hT hi, ← Nat.not_lt, ← h.blockAt_lt_iff hT hi]
  omega

/-- The entries of one row among those of a thread. -/
lemma InRange.filter_block (h : coo.InRange) (hT : 0 < T) {t p : ℕ}
    (hp : p < coo.nStart T (t + 1) - coo.nStart T t) :
    ((bucket (coo.blockAt T) coo.nnz t).filter fun i => coo.rowAt i - coo.nStart T t = p) =
      bucket coo.rowAt coo.nnz (coo.nStart T t + p) := by
  rw [bucket, bucket, List.filter_filter]
  apply List.filter_congr
  intro i hi
  have hblock := h.blockAt_eq_iff hT (t := t) (List.mem_range.1 hi)
  rw [← Bool.decide_and, decide_eq_decide, hblock]
  omega

/-- The entries of the first rows of a thread. -/
lemma InRange.countP_block (h : coo.InRange) (hT : 0 < T) {t p : ℕ}
    (hp : p ≤ coo.nStart T (t + 1) - coo.nStart T t) :
    bucketStart (coo.blockAt T) coo.nnz t +
        (bucket (coo.blockAt T) coo.nnz t).countP (fun i => coo.rowAt i - coo.nStart T t < p) =
      bucketStart coo.rowAt coo.nnz (coo.nStart T t + p) := by
  rw [bucketStart_eq_countP, bucketStart_eq_countP, bucket, List.countP_filter]
  simp only [← Bool.decide_and]
  apply countP_add_countP
  · intro i hi
    have hi := List.mem_range.1 hi
    rw [h.blockAt_lt_iff hT hi, h.blockAt_eq_iff hT hi]
    omega
  · intro i hi
    have hi := List.mem_range.1 hi
    rw [h.blockAt_lt_iff hT hi, h.blockAt_eq_iff hT hi]
    omega

/-- **One thread** fills its part of the three arrays. -/
lemma InRange.sparseThread_eq (h : coo.InRange) (hT : 0 < T) (ht : t < T) : coo.sparseThread T t =
      ((List.range' (coo.nStart T t) (coo.nStart T (t + 1) - coo.nStart T t)).map fun r =>
          bucketStart coo.rowAt coo.nnz (r + 1),
        (List.range' (coo.nStart T t) (coo.nStart T (t + 1) - coo.nStart T t)).flatMap fun r =>
          (bucket coo.rowAt coo.nnz r).map coo.item) := by
  set Si := bucket (coo.blockAt T) coo.nnz t with hSi
  set m := coo.nStart T (t + 1) - coo.nStart T t with hm
  set items := Si.map fun i => (coo.rowAt i - coo.nStart T t, coo.item i) with hitems
  have hslice : ((coo.sortedPos T).take (coo.iStart T (t + 1))).drop (coo.iStart T t) = Si := by
    rw [h.sortedPos_eq hT, h.iStart_eq hT ht, h.iStart_eq hT ht.le, bucketOrder_slice ht]
  have hfst : items.map Prod.fst = Si.map fun i => coo.rowAt i - coo.nStart T t := by
    rw [hitems, List.map_map]
    rfl
  have hkeys : ∀ x ∈ items, x.1 < m := by
    intro x hx
    obtain ⟨i, hi, rfl⟩ := List.mem_map.1 hx
    obtain ⟨hi, hblock⟩ := mem_bucket.1 hi
    have hrow := (h.blockAt_eq_iff hT hi).1 hblock
    show coo.rowAt i - coo.nStart T t < m
    omega
  have hlen : items.length = Si.length := by rw [hitems, List.length_map]
  set part := keyAt (items.map Prod.fst) with hpart
  have hkeyAt (k : ℕ) (hk : k < items.length) : part k = (items[k]).1 := by
    rw [hpart, keyAt, List.getD_eq_getElem _ _ (by simpa using hk), List.getElem_map]
  have hplace := placeItems_eq items (0, 0) (blank Si.length) hkeys (by simp [blank, hlen])
  rw [← hpart] at hplace
  have hsparse : coo.sparseThread T t =
      ((items.foldl placeItem ((List.range m).map
          (bucketStart part items.length), blank Si.length)).1.map
        fun c => coo.iStart T t + c,
      (items.foldl placeItem ((List.range m).map
          (bucketStart part items.length), blank Si.length)).2) := by
    rw [sparseThread, hslice]
    simp only [exclusiveSum_countKeys]
    rw [hpart, hfst, hlen, List.length_map]
  rw [hsparse, hplace]
  apply Prod.ext
  · show ((List.range m).map _).map _ = (List.range' _ _).map _
    rw [List.range'_eq_map_range, List.map_map, List.map_map]
    apply List.map_congr_left
    intro p hp
    have hp := List.mem_range.1 hp
    have hcount : bucketStart part items.length (p + 1) =
        Si.countP fun i => coo.rowAt i - coo.nStart T t < p + 1 := by
      rw [bucketStart_eq_countP, ← countP_keyAt hkeyAt, hitems, List.countP_map]
      rfl
    rw [Function.comp_apply, Function.comp_apply, hcount, h.iStart_eq hT ht.le,
      h.countP_block hT hp]
    rfl
  · have hmap := map_bucketOrder items Prod.fst (0, (0, 0)) m hkeyAt
    show (bucketOrder part m _).map _ = (List.range' _ _).flatMap _
    have hsnd : (bucketOrder part m items.length).map (fun i => (items.getD i (0, (0, 0))).2) =
        ((bucketOrder part m items.length).map fun i => items.getD i (0, (0, 0))).map Prod.snd :=
      (List.map_map).symm
    rw [hsnd, hmap, List.map_flatMap, List.range'_eq_map_range, List.flatMap_map]
    apply List.flatMap_congr
    intro p hp
    rw [← h.filter_block hT (List.mem_range.1 hp), ← hSi, hitems, List.filter_map, List.map_map]
    rfl

lemma range_rows (hT : 0 < T) : List.range coo.numRows = (List.range T).flatMap fun t =>
    List.range' (coo.nStart T t) (coo.nStart T (t + 1) - coo.nStart T t) := by
  rw [← nStart_last hT]
  exact (slotItems_eq nStart_zero fun t _ => nStart_mono t).symm

/-- The parts of the threads, one after the other. -/
lemma InRange.sparseThreads_items (h : coo.InRange) (hT : 0 < T) :
    ((List.range T).flatMap fun t => (coo.sparseThread T t).2) =
      (bucketOrder coo.rowAt coo.numRows coo.nnz).map coo.item := by
  rw [bucketOrder, List.map_flatMap, range_rows hT, List.flatMap_assoc]
  apply List.flatMap_congr
  intro t ht
  rw [h.sparseThread_eq hT (List.mem_range.1 ht)]

lemma InRange.sparse_eq (h : coo.InRange) (hT : 0 < T) :
    coo.unsortedSparseCOOToCSR T = coo.bucketed := by
  rw [unsortedSparseCOOToCSR, bucketed, h.sparseThreads_items hT]
  congr 1
  rw [List.range_succ_eq_map, List.map_cons, List.map_map]
  show 0 :: _ = 0 :: _
  congr 1
  rw [range_rows hT, List.map_flatMap]
  apply List.flatMap_congr
  intro t ht
  rw [h.sparseThread_eq hT (List.mem_range.1 ht)]
  rfl

/-! ## All algorithms -/

/-- **Every algorithm**, with any number of threads, lists the entries of a row in the order of the
COO arrays. -/
theorem InRange.cooToCSR_eq (h : coo.InRange) (hT : 0 < T) :
    cooToCSR T coo = if noOverflow coo.bits coo.nnz then some coo.bucketed else none := by
  rw [cooToCSR]
  congr 2
  have hT' : 0 < min T (2 + (coo.nnz + coo.numRows) / 1000) := by omega
  cases halg : whichCOOToCSR T coo with
  | sorted =>
      apply h.sorted_eq
      by_contra hs
      rw [whichCOOToCSR, if_neg hs] at halg
      simp only at halg
      split_ifs at halg
  | unsortedSmall => exact h.unsortedSmall_eq
  | unsortedSparse => exact h.sparse_eq hT'
  | unsortedDense => exact h.dense_eq hT

lemma Valid.cooToCSR_eq (h : coo.Valid) (hT : 0 < T) :
    cooToCSR T coo = if noOverflow coo.bits coo.nnz then some coo.bucketed else none :=
  h.inRange.cooToCSR_eq hT

end DglAscend.Aten.COOMatrix
