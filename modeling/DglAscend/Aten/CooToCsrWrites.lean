import DglAscend.Aten.Conversions
import DglAscend.Lib.DisjointWrites

/-!
# What the threads of a conversion write

The threads of a conversion from COO to CSR share the output arrays.  Here are their writes, thread
by thread: between them they write every place once, so the result does not depend on how the threads
take turns.
-/

namespace DglAscend.Aten.COOMatrix

variable {coo : COOMatrix} {T : ℕ}

/-! ## The writes -/

/-- The entries of a thread. -/
def share (coo : COOMatrix) (T t : ℕ) : List ℕ :=
  List.range' (coo.nzStart T t) (coo.nzStart T (t + 1) - coo.nzStart T t)

/-- `while (row != stop) { ++row; Bp[row] = v; }` -/
def markWrites (row stop v : ℕ) : List (ℕ × ℕ) :=
  (List.range' (row + 1) (stop - row)).map fun r => (r, v)

/-- One entry of the scan of a thread: the row where it stands and the writes to `Bp`. -/
def scanEntry (coo : COOMatrix) (s : ℕ × List (ℕ × ℕ)) (i : ℕ) : ℕ × List (ℕ × ℕ) :=
  (coo.rowAt i, s.2 ++ markWrites s.1 (coo.rowAt i) i)

/-- What a thread of `SortedCOOToCSR` writes to `Bp`.  The last thread that has entries marks the rows
that are left. -/
def scanWrites (coo : COOMatrix) (T t : ℕ) : List (ℕ × ℕ) :=
  let start := coo.nzStart T t
  let stop := coo.nzStart T (t + 1)
  if start < stop then
    let s := (coo.share T t).foldl coo.scanEntry (if start = 0 then 0 else coo.rowAt (start - 1), [])
    if stop = coo.nnz then s.2 ++ markWrites s.1 coo.numRows coo.nnz else s.2
  else []

/-- `std::iota(fill_data + nz_start, fill_data + nz_end, nz_start)` -/
def fillWrites (coo : COOMatrix) (T t : ℕ) : List (ℕ × ℕ) := (coo.share T t).map fun i => (i, i)

/-- What `UnSortedSmallCOOToCSR` writes to `Bi` and `Bx`. -/
def smallWrites (coo : COOMatrix) : List (ℕ × (ℕ × ℕ)) :=
  cursorWrites (exclusiveSum 0 (countKeys coo.numRows coo.row))
    ((List.range coo.nnz).map fun i => (coo.rowAt i, coo.item i))

/-- What a thread of `UnSortedDenseCOOToCSR` writes to `Bi` and `Bx`. -/
def denseWrites (coo : COOMatrix) (T t : ℕ) : List (ℕ × (ℕ × ℕ)) :=
  (coo.share T t).map fun i => (coo.densePlace T i, coo.item i)

/-- What a thread of `UnSortedSparseCOOToCSR` writes to `Si`. -/
def siWrites (coo : COOMatrix) (T t : ℕ) : List (ℕ × ℕ) :=
  (coo.share T t).map fun i => (coo.sparsePos T i, i)

/-- What a thread of `UnSortedSparseCOOToCSR` writes to `Bi` and `Bx`: its cursors start at
`i_start`. -/
def sparseWrites (coo : COOMatrix) (T t : ℕ) : List (ℕ × (ℕ × ℕ)) :=
  let Si := ((coo.sortedPos T).take (coo.iStart T (t + 1))).drop (coo.iStart T t)
  let rows := Si.map fun i => coo.rowAt i - coo.nStart T t
  cursorWrites
    (exclusiveSum (coo.iStart T t) (countKeys (coo.nStart T (t + 1) - coo.nStart T t) rows))
    (Si.map fun i => (coo.rowAt i - coo.nStart T t, coo.item i))

/-- The entries in the order of their rows. -/
def rowOrder (coo : COOMatrix) : List (ℕ × ℕ) :=
  (bucketOrder coo.rowAt coo.numRows coo.nnz).map coo.item

/-- All threads write every place of their output arrays once. -/
structure WrittenOnce (coo : COOMatrix) (T : ℕ) : Prop where
  scan : coo.rowSorted = true → 0 < coo.nnz →
    Fills ((0, 0) :: (List.range T).flatMap (coo.scanWrites T)) coo.bucketed.indptr
  fill : Fills ((List.range T).flatMap (coo.fillWrites T)) (List.range coo.nnz)
  small : Fills coo.smallWrites coo.rowOrder
  dense : Fills ((List.range T).flatMap (coo.denseWrites T)) coo.rowOrder
  si : Fills ((List.range T).flatMap (coo.siWrites T)) (coo.sortedPos T)
  sparse : Fills ((List.range T).flatMap (coo.sparseWrites T)) coo.rowOrder

/-- The CSR matrix of the entries: `indptr` counts the entries of the earlier rows, and a row has its
entries in the order of the arrays, with their places as ids if there is no data array. -/
structure ListsRows (coo : COOMatrix) (csr : CSRMatrix) : Prop where
  shape : csr.numRows = coo.numRows ∧ csr.numCols = coo.numCols
  indptr : csr.indptr = (List.range (coo.numRows + 1)).map fun r => coo.row.countP (· < r)
  rows : ∀ r < coo.numRows, csr.rowEntries r =
    ((List.range coo.nnz).filter fun i => coo.rowAt i = r).map fun i =>
      (r, coo.colAt i, if coo.hasData then coo.data.getD i 0 else i)

/-! ## The shares -/

lemma flatMap_share (hT : 0 < T) : (List.range T).flatMap (coo.share T) = List.range coo.nnz := by
  rw [← nzStart_last hT]
  exact slotItems_eq nzStart_zero fun t _ => nzStart_mono (Nat.le_succ t)

lemma flatMap_share_map {α : Type*} (hT : 0 < T) (f : ℕ → α) :
    ((List.range T).flatMap fun t => (coo.share T t).map f) = (List.range coo.nnz).map f := by
  rw [← flatMap_share hT, List.map_flatMap]

lemma foldl_scanEntry (coo : COOMatrix) (start k : ℕ) (ws : List (ℕ × ℕ)) :
    (List.range' start k).foldl coo.scanEntry (coo.prevRow start, ws) =
      (coo.prevRow (start + k), ws ++ (List.range' start k).flatMap fun i =>
        markWrites (coo.prevRow i) (coo.rowAt i) i) := by
  induction k generalizing start ws with
  | zero => simp
  | succ k ih =>
      have hnext : coo.rowAt start = coo.prevRow (start + 1) := by simp [prevRow]
      rw [List.range'_succ, List.foldl_cons, scanEntry, hnext, ih, List.flatMap_cons,
        List.append_assoc, hnext, Nat.add_right_comm, Nat.add_assoc]

/-- The threads up to `t` have marked the rows up to their last entry, or all rows when there are no
more entries. -/
lemma flatMap_scanWrites (hnnz : 0 < coo.nnz) (t : ℕ) :
    (List.range t).flatMap (coo.scanWrites T) =
      ((List.range (coo.nzStart T t)).flatMap fun i => markWrites (coo.prevRow i) (coo.rowAt i) i) ++
        if coo.nzStart T t = coo.nnz then markWrites (coo.prevRow coo.nnz) coo.numRows coo.nnz
        else [] := by
  induction t with
  | zero =>
      rw [nzStart_zero, if_neg (by omega)]
      rfl
  | succ t ih =>
      rw [List.range_succ, List.flatMap_append, List.flatMap_singleton, ih]
      have hle : coo.nzStart T t ≤ coo.nzStart T (t + 1) := nzStart_mono (Nat.le_succ t)
      have hstop : coo.nzStart T (t + 1) ≤ coo.nnz := nzStart_le_nnz _
      by_cases hlt : coo.nzStart T t < coo.nzStart T (t + 1)
      · have hsplit : List.range (coo.nzStart T (t + 1)) =
            List.range (coo.nzStart T t) ++ coo.share T t := by
          rw [share, List.range_eq_range', List.range_eq_range']
          have happend := List.range'_append_1 (s := 0) (m := coo.nzStart T t)
            (n := coo.nzStart T (t + 1) - coo.nzStart T t)
          rw [Nat.zero_add, Nat.add_sub_cancel' hle] at happend
          exact happend.symm
        have hscan : (coo.share T t).foldl coo.scanEntry
            (if coo.nzStart T t = 0 then 0 else coo.rowAt (coo.nzStart T t - 1), []) =
              (coo.prevRow (coo.nzStart T (t + 1)), (coo.share T t).flatMap fun i =>
                markWrites (coo.prevRow i) (coo.rowAt i) i) := by
          have hfold := coo.foldl_scanEntry (coo.nzStart T t)
            (coo.nzStart T (t + 1) - coo.nzStart T t) []
          rw [Nat.add_sub_cancel' hle] at hfold
          exact hfold
        rw [if_neg (by omega), List.append_nil, hsplit, List.flatMap_append, List.append_assoc,
          scanWrites, hscan]
        simp only
        rw [if_pos hlt]
        congr 1
        split
        · rename_i hlast
          rw [hlast]
        · rw [List.append_nil]
      · have heq : coo.nzStart T (t + 1) = coo.nzStart T t := by omega
        have hidle : coo.scanWrites T t = [] := if_neg hlt
        rw [hidle, List.append_nil, heq]

namespace InRange

variable (h : coo.InRange)
include h

lemma fills_dense (hT : 0 < T) :
    Fills ((List.range T).flatMap (coo.denseWrites T)) coo.rowOrder := by
  have hwrites : (List.range T).flatMap (coo.denseWrites T) =
      (List.range coo.nnz).map fun i => (placeOf coo.rowAt coo.nnz i, coo.item i) := by
    refine (flatMap_share_map hT _).trans ?_
    apply List.map_congr_left
    intro i hi
    rw [densePlace_eq hT (List.mem_range.1 hi)]
  rw [hwrites]
  exact fills_placeOf h.rowAt_lt

lemma fills_si (hT : 0 < T) : Fills ((List.range T).flatMap (coo.siWrites T)) (coo.sortedPos T) := by
  have hwrites : (List.range T).flatMap (coo.siWrites T) =
      (List.range coo.nnz).map fun i => (placeOf (coo.blockAt T) coo.nnz i, id i) := by
    refine (flatMap_share_map hT _).trans ?_
    apply List.map_congr_left
    intro i hi
    rw [sparsePos_eq hT (List.mem_range.1 hi), id]
  rw [hwrites, h.sortedPos_eq hT, ← List.map_id (bucketOrder (coo.blockAt T) T coo.nnz)]
  exact fills_placeOf (h.blockAt_lt hT)

lemma fills_small : Fills coo.smallWrites coo.rowOrder := by
  have hfills := fills_cursorWrites (blank coo.nnz) h.items_lt (by simp [blank])
  rwa [coo.map_fst_items, h.placed_rows] at hfills

/-- The entries of a thread of the sparse algorithm. -/
lemma sortedPos_part {t : ℕ} (hT : 0 < T) (ht : t < T) :
    ((coo.sortedPos T).take (coo.iStart T (t + 1))).drop (coo.iStart T t) =
      bucket (coo.blockAt T) coo.nnz t := by
  rw [h.sortedPos_eq hT, h.iStart_eq hT ht, h.iStart_eq hT ht.le, bucketOrder_slice ht]

lemma length_sparseThread {t : ℕ} (hT : 0 < T) (ht : t < T) :
    coo.iStart T (t + 1) = coo.iStart T t + (coo.sparseThread T t).2.length := by
  have hlen : (coo.sparseThread T t).2.length = (bucket (coo.blockAt T) coo.nnz t).length := by
    rw [← h.sortedPos_part hT ht, sparseThread]
    simp only [foldl_placeItem_snd, length_applyWrites, blank, List.length_replicate]
  rw [hlen, h.iStart_eq hT ht, h.iStart_eq hT ht.le, bucketStart_succ, length_bucket]

/-- The cursors of a thread of the sparse algorithm start behind the earlier threads. -/
lemma sparseWrites_eq {t : ℕ} (hT : 0 < T) (ht : t < T) :
    ∃ writes, Fills writes (coo.sparseThread T t).2 ∧
      coo.sparseWrites T t = writes.map fun w => (coo.iStart T t + w.1, w.2) := by
  set Si := ((coo.sortedPos T).take (coo.iStart T (t + 1))).drop (coo.iStart T t) with hSi
  set items := Si.map fun i => (coo.rowAt i - coo.nStart T t, coo.item i) with hitems
  have hkeys : ∀ x ∈ items, x.1 < coo.nStart T (t + 1) - coo.nStart T t := by
    intro x hx
    obtain ⟨i, hi, rfl⟩ := List.mem_map.1 hx
    rw [hSi, h.sortedPos_part hT ht] at hi
    obtain ⟨hi, hpart⟩ := mem_bucket.1 hi
    have hrow := (h.blockAt_eq_iff hT hi).1 hpart
    show coo.rowAt i - coo.nStart T t < _
    omega
  have hfst : items.map Prod.fst = Si.map fun i => coo.rowAt i - coo.nStart T t := by
    rw [hitems, List.map_map]
    rfl
  have hfills := fills_cursorWrites (blank Si.length) hkeys (by simp [blank, hitems])
  rw [hfst] at hfills
  refine ⟨_, hfills, ?_⟩
  rw [sparseWrites, ← hSi, ← hitems]
  have hadd := exclusiveSum_add (coo.iStart T t) 0 (countKeys (coo.nStart T (t + 1) - coo.nStart T t)
    (Si.map fun i => coo.rowAt i - coo.nStart T t))
  rw [Nat.add_zero] at hadd
  simp only [hadd]
  apply cursorWrites_add
  intro x hx
  rw [exclusiveSum_countKeys, List.length_map, List.length_range]
  exact hkeys x hx

lemma fills_sparse (hT : 0 < T) :
    Fills ((List.range T).flatMap (coo.sparseWrites T)) coo.rowOrder := by
  choose! writes hwrites heq using fun t ht => h.sparseWrites_eq (t := t) hT ht
  have hflat : (List.range T).flatMap (coo.sparseWrites T) =
      (List.range T).flatMap fun t => (writes t).map fun w => (coo.iStart T t + w.1, w.2) :=
    List.flatMap_congr fun t ht => heq t (List.mem_range.1 ht)
  rw [hflat, rowOrder, ← h.sparseThreads_items hT]
  apply fills_flatMap hwrites
  · rw [h.iStart_eq hT hT.le]
    rfl
  · exact fun t ht => h.length_sparseThread hT ht

/-- **The marks** of all threads. -/
lemma fills_scan (hT : 0 < T) (hs : coo.rowSorted = true) (hnnz : 0 < coo.nnz) :
    Fills ((0, 0) :: (List.range T).flatMap (coo.scanWrites T)) coo.bucketed.indptr := by
  -- Mark `i` is set at the rows after `stand i` up to `stand (i + 1)`.
  let stand : ℕ → ℕ := fun i => if i ≤ coo.nnz then coo.prevRow i else coo.numRows
  have hstand {i : ℕ} (hi : i ≤ coo.nnz) : stand i = coo.prevRow i := if_pos hi
  have hnext {i : ℕ} (hi : i < coo.nnz) : stand (i + 1) = coo.rowAt i := by
    rw [hstand hi]
    simp [prevRow]
  have hend : stand (coo.nnz + 1) = coo.numRows := if_neg (by omega)
  have hmarks : (List.range T).flatMap (coo.scanWrites T) =
      (List.range (coo.nnz + 1)).flatMap fun i => markWrites (stand i) (stand (i + 1)) i := by
    rw [flatMap_scanWrites hnnz, nzStart_last hT, if_pos rfl, List.range_succ, List.flatMap_append,
      List.flatMap_singleton, hstand le_rfl, hend]
    congr 1
    apply List.flatMap_congr
    intro i hi
    have hi := List.mem_range.1 hi
    rw [hstand hi.le, hnext hi]
  have hlast : coo.prevRow coo.nnz ≤ coo.numRows := by
    rw [prevRow, if_neg (by omega)]
    exact (h.rowAt_lt _ (by omega)).le
  have hmono : ∀ i < coo.nnz + 1, stand i ≤ stand (i + 1) := by
    intro i hi
    rcases Nat.lt_succ_iff_lt_or_eq.1 hi with hi | rfl
    · rw [hstand hi.le, hnext hi]
      exact h.prevRow_le hs le_rfl hi
    · rw [hstand le_rfl, hend]
      exact hlast
  have hlen : coo.bucketed.indptr.length = coo.numRows + 1 := by
    show (List.map _ _).length = _
    rw [List.length_map, List.length_range]
  have hget {r : ℕ} (hr : r < coo.numRows + 1) :
      coo.bucketed.indptr[r]? = some (bucketStart coo.rowAt coo.nnz r) := by
    show (List.map _ _)[r]? = _
    rw [List.getElem?_map, List.getElem?_range hr, Option.map_some]
  constructor
  · have hslots := slotItems_eq (b := stand) (n := coo.nnz + 1)
      (by rw [hstand (Nat.zero_le _)]; rfl) hmono
    have hplaces : ((List.range T).flatMap (coo.scanWrites T)).map Prod.fst =
        (List.range coo.numRows).map Nat.succ := by
      rw [hmarks, ← hend, ← hslots, slotItems, List.map_flatMap, List.map_flatMap]
      apply List.flatMap_congr
      intro i _
      rw [markWrites, List.map_map, List.range'_eq_map_range, List.range'_eq_map_range, List.map_map,
        List.map_map]
      apply List.map_congr_left
      intro k _
      show stand i + 1 + k = stand i + k + 1
      omega
    rw [List.map_cons, hplaces, hlen, List.range_succ_eq_map]
  · intro w hw
    rcases List.mem_cons.1 hw with rfl | hw
    · exact hget (Nat.succ_pos _)
    · rw [hmarks] at hw
      obtain ⟨i, hi, hw⟩ := List.mem_flatMap.1 hw
      have hi := Nat.lt_succ_iff.1 (List.mem_range.1 hi)
      obtain ⟨r, hr, rfl⟩ := List.mem_map.1 hw
      have hr := List.mem_range'_1.1 hr
      have hlo : coo.prevRow i < r := by
        rw [← hstand hi]
        omega
      have hhi : r ≤ stand (i + 1) := by
        have := hmono i (by omega)
        omega
      have hrow : r < coo.numRows + 1 := by
        rcases hi.lt_or_eq with hi | rfl
        · rw [hnext hi] at hhi
          have hlt := h.rowAt_lt i hi
          omega
        · rw [hend] at hhi
          omega
      rw [hget hrow, h.bucketStart_between hs hi hlo]
      intro j hij hj
      rw [hnext (by omega)] at hhi
      exact hhi.trans (h.rowAt_mono hs hij hj)

/-! ## All algorithms -/

lemma writtenOnce (hT : 0 < T) : coo.WrittenOnce T where
  scan hs hnnz := h.fills_scan hT hs hnnz
  fill := by
    have hwrites : (List.range T).flatMap (coo.fillWrites T) =
        (List.range coo.nnz).map fun i => (i, i) := flatMap_share_map hT _
    rw [hwrites]
    constructor
    · rw [List.map_map, List.length_range]
      exact .of_eq (List.map_id _)
    · intro w hw
      obtain ⟨i, hi, rfl⟩ := List.mem_map.1 hw
      exact List.getElem?_range (List.mem_range.1 hi)
  small := h.fills_small
  dense := h.fills_dense hT
  si := h.fills_si hT
  sparse := h.fills_sparse hT

omit h in
lemma listsRows_bucketed : coo.ListsRows coo.bucketed where
  shape := ⟨rfl, rfl⟩
  indptr := by
    apply List.map_congr_left
    intro r _
    rw [bucketStart_eq_countP]
    have hrow : coo.row = (List.range coo.nnz).map coo.rowAt := by
      apply List.ext_getElem
      · simp [nnz]
      · intro i hi hi'
        simp [rowAt, keyAt, hi]
    conv_rhs => rw [hrow, List.countP_map]
    rfl
  rows := by
    intro r hr
    rw [bucketed_rowEntries hr, bucket]
    apply List.map_congr_left
    intro i hi
    have hrow : coo.rowAt i = r := of_decide_eq_true (List.mem_filter.1 hi).2
    show (coo.rowAt i, coo.colAt i, idAt coo.data i) = _
    rw [hrow, idAt]
    by_cases hd : coo.data = [] <;> simp [hasData, hd]

end InRange

/-- **Every conversion**: the four algorithms and the one that chooses among them return the same
matrix for every number of threads, whose places the threads write once each. -/
theorem conversions_agree (h : coo.InRange) (T : ℕ+) :
    coo.ListsRows coo.bucketed ∧
      (coo.rowSorted = true → coo.sortedCOOToCSR = coo.bucketed) ∧
      coo.unsortedSmallCOOToCSR = coo.bucketed ∧
      coo.unsortedSparseCOOToCSR T = coo.bucketed ∧
      coo.unsortedDenseCOOToCSR T = coo.bucketed ∧
      coo.cooToCSR T = (if noOverflow coo.bits coo.nnz then some coo.bucketed else none) ∧
      coo.WrittenOnce T :=
  ⟨InRange.listsRows_bucketed, h.sorted_eq, h.unsortedSmall_eq, h.sparse_eq T.pos, h.dense_eq T.pos,
    h.cooToCSR_eq T.pos, h.writtenOnce T.pos⟩

/-- Three entries whose rows are not in order. -/
def threeEntries : COOMatrix where
  bits := 32
  numRows := 2
  numCols := 3
  row := [1, 0, 1]
  col := [2, 1, 0]
  data := []
  rowSorted := false
  colSorted := false

lemma threeEntries_inRange : threeEntries.InRange := ⟨rfl, by decide, by decide, nofun⟩

theorem conversions_agree_threeEntries :
    threeEntries.unsortedDenseCOOToCSR 2 = ⟨32, 2, 3, [0, 1, 3], [1, 2, 0], [1, 0, 2], false⟩ :=
  (conversions_agree threeEntries_inRange 2).2.2.2.2.1.trans (by decide)

end DglAscend.Aten.COOMatrix
