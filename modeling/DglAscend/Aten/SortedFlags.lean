import Mathlib.Data.List.Pairwise
import DglAscend.Aten.CooToCsrThreads
import DglAscend.Aten.Lookups

/-!
# The flags of slices

A slice of a COO matrix has the flags of the matrix, and so has a slice of a CSR matrix on the
device, while the requested ids give the rows and columns new numbers.  Here are the functions that
trust the flags, and for which ids they may.
-/

namespace DglAscend.Aten

/-! ## Who trusts the flags -/

/-- `NumPicksFn` and `PickFn`: how many entries of a row are picked, and the places of these. -/
structure Picker where
  numPicks : (rid off len : ℕ) → (indices data : List ℕ) → ℕ
  pick : (rid off len numPicks : ℕ) → (indices data : List ℕ) → ℕ → ℕ

namespace CSRMatrix

variable (csr : CSRMatrix)

/-- The same matrix without the flag. -/
def unflagged : CSRMatrix := { csr with sorted := false }

/-- What `CSRRowWisePick` writes for a row.  The picks of an empty row are left unwritten. -/
def pickRow (picker : Picker) (rid : ℕ) : Except Fault (List Entry) :=
  if csr.numRows ≤ rid then .error .outOfBounds
  else
    let off := csr.ptr rid
    let len := csr.ptr (rid + 1) - off
    let numPicks := picker.numPicks rid off len csr.indices csr.data
    if len = 0 ∧ numPicks ≠ 0 then .error .outOfBounds
    else .ok ((List.range numPicks).map fun j =>
      csr.entry rid (picker.pick rid off len numPicks csr.indices csr.data j))

/-- `CSRRowWisePick`. -/
def rowWisePick (picker : Picker) (rows : List ℕ) : Except Fault COOMatrix :=
  (rows.mapM (csr.pickRow picker)).map fun picked =>
    .ofEntries csr.bits csr.numRows csr.numCols picked.flatten false false

/-- What the flag promises, and that searching a row by its columns finds what a scan finds. -/
structure Served : Prop where
  colsSorted : csr.ColsSorted
  isNonZeros : ∀ rows cols, csr.isNonZeros rows cols = csr.unflagged.isNonZeros rows cols
  getData : ∀ {α : Type} (value : ℕ → α) filler rows cols,
    csr.getData value filler rows cols = csr.unflagged.getData value filler rows cols
  getDataAndIndices : ∀ rows cols,
    csr.getDataAndIndices rows cols = csr.unflagged.getDataAndIndices rows cols

end CSRMatrix

namespace COOMatrix

variable (coo : COOMatrix)

/-- The same matrix without the flags. -/
def unflagged : COOMatrix := { coo with rowSorted := false, colSorted := false }

/-- `COOGetData`: the id of the first entry at every pair of indices; `none` is `-1`. -/
def getData (rows cols : List ℕ) : Except Fault (List (Option ℕ)) :=
  if !fits rows cols then .error .raised
  else if !readsWithin rows cols then .error .outOfBounds
  else .ok ((broadcast rows cols).map fun p =>
    let found := if coo.rowSorted then
        ((lowerBound (fun e : Entry => e.1) p.1 coo.entries).takeWhile fun e => e.1 = p.1).find?
          fun e => e.2.1 = p.2
      else coo.entries.find? fun e => e.1 = p.1 ∧ e.2.1 = p.2
    found.map fun e => e.2.2)

/-- `COORowWisePick`, with `numThreads` threads. -/
def rowWisePick (numThreads : ℕ) (picker : Picker) (rows : List ℕ) : Except Fault COOMatrix :=
  match (coo.sliceRows rows).cooToCSR numThreads with
  | none => .error .raised
  | some csr => (csr.rowWisePick picker (List.range rows.length)).map fun picked =>
      { bits := coo.bits
        numRows := coo.numRows
        numCols := coo.numCols
        row := picked.row.map fun r => rows.getD r 0
        col := picked.col
        data := picked.data
        rowSorted := false
        colSorted := false }

/-- The rows are sorted. -/
def RowsSorted : Prop := coo.rowSorted = true → coo.row.Pairwise (· ≤ ·)

/-- What the flags promise, and that the functions which trust them return what they return without
the flags. -/
structure Served : Prop where
  rowsSorted : coo.RowsSorted
  colsSorted : coo.ColsSorted
  getData : ∀ rows cols, coo.getData rows cols = coo.unflagged.getData rows cols
  cooToCSR : ∀ numThreads : ℕ+, coo.unflagged.cooToCSR numThreads =
    (coo.cooToCSR numThreads).map CSRMatrix.unflagged
  csr : ∀ (numThreads : ℕ+) csr, coo.cooToCSR numThreads = some csr → csr.Served

end COOMatrix

/-! ## Slices on the device -/

namespace CSRMatrix

variable (csr : CSRMatrix)

/-- The columns as the kernels see them. -/
def deviceCols (cols : List ℕ) : List ℕ := (cols.take (cols.length % 2 ^ 32)).map (· % 2 ^ 32)

/-- `valid_col`: `valid_col[cols[k]] = k` -/
def validCol (numCols : ℕ) (cols : List ℕ) : List (Option ℕ) :=
  (deviceCols cols).zipIdx.foldl (fun valid ck => valid.set ck.1 (some ck.2))
    (List.replicate numCols none)

/-- The column at a place as the kernels see it. -/
def deviceCol (p : ℕ) : ℕ := csr.indices.getD (p % 2 ^ 32) 0 % 2 ^ 32

/-- The places of a row as the kernels see them. -/
def devicePlaces (row : ℕ) : List ℕ :=
  let start := csr.ptr (row % 2 ^ 32)
  List.range' start (csr.ptr ((row % 2 ^ 32 + 1) % 2 ^ 32) - start)

/-- What is kept of a row. -/
def deviceRow (cols : List ℕ) (row : ℕ) : List (ℕ × ℕ) :=
  (csr.devicePlaces row).filterMap fun p =>
    ((validCol csr.numCols cols).getD (csr.deviceCol p) none).map fun k =>
      (k, if csr.hasData then csr.data.getD (p % 2 ^ 32) 0 else p)

/-- `CSRSliceMatrix` on the device; nothing is checked.  From `2 ^ 32` rows on the last element of
`ret_indptr` is read but not written. -/
def sliceMatrixAscend (rows cols : List ℕ) : Except Fault CSRMatrix :=
  if 2 ^ 32 ≤ rows.length ∨ (rows.any fun r => csr.numRows ≤ r % 2 ^ 32) ∨
      (deviceCols cols).any fun c => csr.numCols ≤ c then .error .outOfBounds
  else .ok (ofRows csr.bits cols.length (rows.map (csr.deviceRow cols)) csr.sorted)

end CSRMatrix

/-! ## Consumers of true flags -/

namespace CSRMatrix

variable {csr : CSRMatrix}

lemma served_unflagged (h : csr.sorted = false) : csr.Served := by
  have heq : csr.unflagged = csr := by
    rw [unflagged, ← h]
  refine ⟨fun hs => ?_, ?_, ?_, ?_⟩
  · rw [h] at hs
    cases hs
  all_goals intros; rw [heq]

lemma isNonZero_unflagged (hs : csr.ColsSorted) (row col : ℕ) :
    csr.isNonZero row col = csr.unflagged.isNonZero row col := by
  show _ = if csr.numRows ≤ row then _ else _
  rw [isNonZero]
  by_cases hrow : csr.numRows ≤ row
  · rw [if_pos hrow, if_pos hrow]
  · rw [if_neg hrow, if_neg hrow]
    show _ = Except.ok ((csr.rowEntries row).any fun e => e.2.1 = col)
    by_cases hsorted : csr.sorted = true
    · rw [if_pos hsorted, binarySearch_eq (hs hsorted row (Nat.not_le.1 hrow))]
    · rw [if_neg hsorted]

lemma getData_unflagged {α : Type} (hs : csr.ColsSorted) (value : ℕ → α) (filler : α)
    (rows cols : List ℕ) :
    csr.getData value filler rows cols = csr.unflagged.getData value filler rows cols := by
  rw [getData, getData]
  congr 3
  funext p
  by_cases hp : csr.numRows ≤ p.1 ∨ csr.numCols ≤ p.2
  · rw [if_pos hp]
    exact (if_pos hp).symm
  · rw [if_neg hp]
    apply Eq.trans _ (if_neg hp).symm
    by_cases hsorted : csr.sorted = true
    · simp only [hsorted, if_true]
      rw [head?_lowerBound (hs hsorted p.1 (by omega))]
      rfl
    · rw [if_neg hsorted]
      rfl

/-- **A sorted row** is searched rightly. -/
theorem ColsSorted.served (hs : csr.ColsSorted) (hdata : csr.hasData = true ∨ csr.entries = []) :
    csr.Served where
  colsSorted := hs
  isNonZeros rows cols := by
    have hone : (fun p : ℕ × ℕ => csr.isNonZero p.1 p.2) =
        fun p => csr.unflagged.isNonZero p.1 p.2 := funext fun p => isNonZero_unflagged hs p.1 p.2
    rw [isNonZeros, isNonZeros, hone]
  getData := getData_unflagged hs
  getDataAndIndices rows cols := by
    rw [getDataAndIndices, getDataAndIndices]
    congr 2
    funext p
    by_cases hp : csr.numRows ≤ p.1 ∨ csr.numCols ≤ p.2
    · rw [if_pos hp]
      exact (if_pos hp).symm
    · rw [if_neg hp]
      apply Eq.trans _ (if_neg hp).symm
      by_cases hsorted : csr.sorted = true
      · have hrow : p.1 < csr.numRows := by omega
        rw [if_pos hsorted]
        simp only
        rw [takeWhile_lowerBound (hs hsorted p.1 hrow), if_neg]
        · rfl
        rcases hdata with hdata | hdata
        · simp [hdata]
        · rw [filter_rowEntries hrow, hdata]
          simp
      · rw [if_neg hsorted]
        rfl

end CSRMatrix

namespace COOMatrix

variable {coo : COOMatrix}

lemma rowsSorted_iff : coo.RowsSorted ↔
    (coo.rowSorted = true → coo.entries.Pairwise fun e e' => e.1 ≤ e'.1) := by
  rw [RowsSorted, ← map_fst_entries, List.pairwise_map]

lemma getData_unflagged (hs : coo.RowsSorted) (rows cols : List ℕ) :
    coo.getData rows cols = coo.unflagged.getData rows cols := by
  rw [getData, getData]
  congr 4
  funext p
  show _ = (coo.entries.find? fun e => e.1 = p.1 ∧ e.2.1 = p.2).map _
  by_cases hsorted : coo.rowSorted = true
  · have hrows : (coo.entries.map fun e => e.1).Pairwise (· ≤ ·) := by
      rw [map_fst_entries]
      exact hs hsorted
    simp only [hsorted, if_true]
    rw [takeWhile_lowerBound hrows, List.find?_filter]
    congr 2
    funext e
    simp only [decide_eq_true_eq]
  · rw [if_neg hsorted]

/-- **True flags** do no harm. -/
theorem InRange.served (h : coo.InRange) (hcols : coo.ColsSorted) : coo.Served := by
  have hplain : coo.unflagged.InRange := ⟨h.col_length, h.row_lt, h.data_length, nofun⟩
  refine ⟨h.sorted, hcols, getData_unflagged h.sorted, ?_, ?_⟩
  · intro numThreads
    rw [h.cooToCSR_eq numThreads.pos, hplain.cooToCSR_eq numThreads.pos]
    show (if noOverflow coo.bits coo.nnz then _ else none) = _
    by_cases hnnz : noOverflow coo.bits coo.nnz = true
    · rw [if_pos hnnz, if_pos hnnz]
      rfl
    · rw [if_neg hnnz, if_neg hnnz]
      rfl
  · intro numThreads csr hcsr
    rw [h.cooToCSR_eq numThreads.pos] at hcsr
    split at hcsr
    · obtain rfl := Option.some.inj hcsr
      exact (bucketed_colsSorted hcols).served (bucketed_data coo)
    · cases hcsr

end COOMatrix

/-! ## What slices keep -/

/-- If two ids are requested, the first one is requested first. -/
def InOrder (ids : List ℕ) (x y : ℕ) : Prop := x ∈ ids → y ∈ ids → ids.idxOf x < ids.idxOf y

instance (ids : List ℕ) (x y : ℕ) : Decidable (InOrder ids x y) :=
  inferInstanceAs (Decidable (x ∈ ids → y ∈ ids → ids.idxOf x < ids.idxOf y))

lemma IdHashMap.map_le_iff {ids : List ℕ} {x y : ℕ} (hxy : x < y) :
    (∀ p ∈ (ofIds ids).map x, ∀ q ∈ (ofIds ids).map y, p ≤ q) ↔ InOrder ids x y := by
  simp only [mem_map_ofIds]
  constructor
  · intro hle hx hy
    rw [← idxOf_ofIds_lt_iff hx hy]
    have hxy' : (ofIds ids).ids.idxOf x ≠ (ofIds ids).ids.idxOf y := by
      rw [Ne, List.idxOf_inj (mem_ofIds.2 hx)]
      exact hxy.ne
    exact lt_of_le_of_ne (hle _ ⟨hx, rfl⟩ _ ⟨hy, rfl⟩) hxy'
  · rintro hin p ⟨hx, rfl⟩ q ⟨hy, rfl⟩
    exact ((idxOf_ofIds_lt_iff hx hy).2 (hin hx hy)).le

namespace COOMatrix

variable {coo : COOMatrix} {rows cols : List ℕ}

section OfEntries

variable {bits numRows numCols : ℕ} {f : Entry → Option Entry}

/-- The flag of the rows of a collected matrix. -/
lemma ofEntries_rowsSorted_iff (hs : coo.RowsSorted)
    (htie : ∀ e e', e.1 = e'.1 → ∀ x ∈ f e, ∀ y ∈ f e', x.1 ≤ y.1) :
    (ofEntries bits numRows numCols (coo.entries.filterMap f) coo.rowSorted coo.colSorted).RowsSorted ↔
      (coo.rowSorted = true → ∀ e ∈ coo.entries, ∀ e' ∈ coo.entries, e.1 < e'.1 →
        ∀ x ∈ f e, ∀ y ∈ f e', x.1 ≤ y.1) := by
  rw [rowsSorted_iff, entries_ofEntries]
  apply imp_congr_right
  intro hsorted
  have hpair := rowsSorted_iff.1 hs hsorted
  rw [List.pairwise_filterMap, pairwise_iff_of_sorted hpair fun e => le_rfl]
  · simp only [Nat.not_le]
    rfl
  · intro e e' hle hge x hx y hy
    exact htie e e' (le_antisymm hle hge) x hx y hy

/-- The flag of the columns of a collected matrix. -/
lemma ofEntries_colsSorted_iff (hs : coo.ColsSorted)
    (hrow : ∀ e e', ∀ x ∈ f e, ∀ y ∈ f e', x.1 = y.1 → e.1 = e'.1)
    (htie : ∀ e e', e.2.1 = e'.2.1 → ∀ x ∈ f e, ∀ y ∈ f e', x.2.1 ≤ y.2.1) :
    (ofEntries bits numRows numCols (coo.entries.filterMap f) coo.rowSorted coo.colSorted).ColsSorted ↔
      (coo.colSorted = true → ∀ e ∈ coo.entries, ∀ e' ∈ coo.entries, e.1 = e'.1 → e.2.1 < e'.2.1 →
        ∀ x ∈ f e, ∀ y ∈ f e', x.1 = y.1 → x.2.1 ≤ y.2.1) := by
  rw [ColsSorted, entries_ofEntries]
  apply imp_congr_right
  intro hsorted
  rw [List.pairwise_filterMap, pairwise_iff_of_sorted (hs hsorted) fun e _ => le_rfl]
  · simp only [Classical.not_imp, Nat.not_le, and_imp]
    exact forall₄_congr fun e _ e' _ => ⟨fun h hr => h hr.symm, fun h hr => h hr.symm⟩
  · intro e e' hle hge x hx y hy hxy
    have hr := hrow e e' x hx y hy hxy
    exact htie e e' (le_antisymm (hle hr) (hge hr.symm)) x hx y hy

lemma inRange_ofEntries {es : List Entry} {rs cs : Bool} (hlt : ∀ e ∈ es, e.1 < numRows)
    (hs : (ofEntries bits numRows numCols es rs cs).RowsSorted) :
    (ofEntries bits numRows numCols es rs cs).InRange where
  col_length := by
    show (es.map _).length = (es.map _).length
    rw [List.length_map, List.length_map]
  row_lt := by
    intro r hr
    obtain ⟨e, he, rfl⟩ := List.mem_map.1 hr
    exact hlt e he
  data_length _ := by
    show (es.map _).length = (es.map _).length
    rw [List.length_map, List.length_map]
  sorted := hs

end OfEntries

/-- The rows of the entries stay in order. -/
def RowsInOrder (coo : COOMatrix) (rows : List ℕ) : Prop :=
  coo.rowSorted = true → ∀ r ∈ coo.row, ∀ r' ∈ coo.row, r < r' → InOrder rows r r'

/-- The rows of the entries with a requested column stay in order. -/
def KeptRowsInOrder (coo : COOMatrix) (rows cols : List ℕ) : Prop :=
  coo.rowSorted = true → ∀ e ∈ coo.entries, ∀ e' ∈ coo.entries, e.1 < e'.1 →
    e.2.1 ∈ cols → e'.2.1 ∈ cols → InOrder rows e.1 e'.1

/-- Within every requested row the columns stay in order. -/
def KeptColsInOrder (coo : COOMatrix) (rows cols : List ℕ) : Prop :=
  coo.colSorted = true → ∀ e ∈ coo.entries, ∀ e' ∈ coo.entries, e.1 = e'.1 → e.1 ∈ rows →
    e.2.1 < e'.2.1 → InOrder cols e.2.1 e'.2.1

lemma sliceRows_rowsSorted_iff (hs : coo.RowsSorted) :
    (coo.sliceRows rows).RowsSorted ↔ coo.RowsInOrder rows := by
  rw [sliceRows, ofEntries_rowsSorted_iff hs]
  · apply imp_congr_right
    intro _
    rw [← map_fst_entries]
    simp only [List.mem_map, forall_exists_index, and_imp, forall_apply_eq_imp_iff₂,
      Option.mem_map]
    exact forall₂_congr fun e _ => forall₃_congr fun e' _ hlt => IdHashMap.map_le_iff hlt
  · intro e e' he x hx y hy
    obtain ⟨p, hp, rfl⟩ := Option.mem_map.1 hx
    obtain ⟨q, hq, rfl⟩ := Option.mem_map.1 hy
    rw [he] at hp
    exact (Option.mem_unique hp hq).le

/-- The order within a row does not depend on the numbers of the rows. -/
lemma sliceRows_colsSorted (hs : coo.ColsSorted) : (coo.sliceRows rows).ColsSorted := by
  rw [sliceRows, ofEntries_colsSorted_iff hs]
  · intro _ e _ e' _ _ hlt x hx y hy _
    obtain ⟨p, -, rfl⟩ := Option.mem_map.1 hx
    obtain ⟨q, -, rfl⟩ := Option.mem_map.1 hy
    exact hlt.le
  · intro e e' x hx y hy hxy
    obtain ⟨p, hp, rfl⟩ := Option.mem_map.1 hx
    obtain ⟨q, hq, rfl⟩ := Option.mem_map.1 hy
    obtain rfl : p = q := hxy
    exact IdHashMap.map_ofIds_inj hp hq
  · intro e e' he x hx y hy
    obtain ⟨p, -, rfl⟩ := Option.mem_map.1 hx
    obtain ⟨q, -, rfl⟩ := Option.mem_map.1 hy
    exact he.le

/-- What `COOSliceMatrix` collects for an entry. -/
lemma mem_sliceEntry {e x : Entry} :
    x ∈ (((IdHashMap.ofIds rows).map e.1).bind fun r =>
        ((IdHashMap.ofIds cols).map e.2.1).map fun c => (r, c, e.2.2)) ↔
      x.1 ∈ (IdHashMap.ofIds rows).map e.1 ∧ x.2.1 ∈ (IdHashMap.ofIds cols).map e.2.1 ∧
        x.2.2 = e.2.2 := by
  rw [Option.mem_def, Option.bind_eq_some_iff]
  simp only [Option.map_eq_some_iff, Option.mem_def]
  constructor
  · rintro ⟨r, hr, c, hc, rfl⟩
    exact ⟨hr, hc, rfl⟩
  · rintro ⟨hr, hc, hid⟩
    exact ⟨x.1, hr, x.2.1, hc, by rw [← hid]⟩

lemma sliceMatrix_rowsSorted_iff (hs : coo.RowsSorted) :
    (coo.sliceMatrix rows cols).RowsSorted ↔ coo.KeptRowsInOrder rows cols := by
  rw [sliceMatrix, ofEntries_rowsSorted_iff hs]
  · apply imp_congr_right
    intro _
    apply forall₂_congr
    intro e _
    apply forall₃_congr
    intro e' _ hlt
    rw [← IdHashMap.map_le_iff hlt]
    constructor
    · intro hall hc hc' p hp q hq
      exact hall (p, _, e.2.2) (mem_sliceEntry.2 ⟨hp, IdHashMap.mem_map_ofIds.2 ⟨hc, rfl⟩, rfl⟩)
        (q, _, e'.2.2) (mem_sliceEntry.2 ⟨hq, IdHashMap.mem_map_ofIds.2 ⟨hc', rfl⟩, rfl⟩)
    · intro hall x hx y hy
      obtain ⟨hp, hc, -⟩ := mem_sliceEntry.1 hx
      obtain ⟨hq, hc', -⟩ := mem_sliceEntry.1 hy
      exact hall (IdHashMap.mem_map_ofIds.1 hc).1 (IdHashMap.mem_map_ofIds.1 hc').1 _ hp _ hq
  · intro e e' he x hx y hy
    have hp := (mem_sliceEntry.1 hx).1
    rw [he] at hp
    exact (Option.mem_unique hp (mem_sliceEntry.1 hy).1).le

lemma sliceMatrix_colsSorted_iff (hs : coo.ColsSorted) :
    (coo.sliceMatrix rows cols).ColsSorted ↔ coo.KeptColsInOrder rows cols := by
  rw [sliceMatrix, ofEntries_colsSorted_iff hs]
  · apply imp_congr_right
    intro _
    apply forall₂_congr
    intro e _
    apply forall₃_congr
    intro e' _ hrow
    constructor
    · intro hall hr hlt
      rw [← IdHashMap.map_le_iff hlt]
      intro p hp q hq
      have hr' : e'.1 ∈ rows := hrow ▸ hr
      apply hall hlt (_, p, e.2.2) (mem_sliceEntry.2 ⟨IdHashMap.mem_map_ofIds.2 ⟨hr, rfl⟩, hp, rfl⟩)
        (_, q, e'.2.2) (mem_sliceEntry.2 ⟨IdHashMap.mem_map_ofIds.2 ⟨hr', rfl⟩, hq, rfl⟩)
      show List.idxOf e.1 _ = List.idxOf e'.1 _
      rw [hrow]
    · intro hall hlt x hx y hy _
      obtain ⟨hr, hp, -⟩ := mem_sliceEntry.1 hx
      obtain ⟨-, hq, -⟩ := mem_sliceEntry.1 hy
      exact (IdHashMap.map_le_iff hlt).2 (hall (IdHashMap.mem_map_ofIds.1 hr).1 hlt) _ hp _ hq
  · intro e e' x hx y hy hxy
    have hp := (mem_sliceEntry.1 hx).1
    rw [hxy] at hp
    exact IdHashMap.map_ofIds_inj hp (mem_sliceEntry.1 hy).1
  · intro e e' he x hx y hy
    have hp := (mem_sliceEntry.1 hx).2.1
    rw [he] at hp
    exact (Option.mem_unique hp (mem_sliceEntry.1 hy).2.1).le

lemma sliceRows_served_iff (h : coo.InRange) (hcols : coo.ColsSorted) :
    (coo.sliceRows rows).Served ↔ coo.RowsInOrder rows := by
  rw [← sliceRows_rowsSorted_iff h.sorted]
  constructor
  · exact fun hserved => hserved.rowsSorted
  · intro hrows
    apply InRange.served (inRange_ofEntries _ hrows) (sliceRows_colsSorted hcols)
    intro e he
    obtain ⟨e', -, he⟩ := List.mem_filterMap.1 he
    obtain ⟨p, hp, rfl⟩ := Option.map_eq_some_iff.1 he
    exact IdHashMap.map_ofIds_lt hp

lemma sliceMatrix_served_iff (h : coo.InRange) (hcols : coo.ColsSorted) :
    (coo.sliceMatrix rows cols).Served ↔
      coo.KeptRowsInOrder rows cols ∧ coo.KeptColsInOrder rows cols := by
  rw [← sliceMatrix_rowsSorted_iff h.sorted, ← sliceMatrix_colsSorted_iff hcols]
  constructor
  · exact fun hserved => ⟨hserved.rowsSorted, hserved.colsSorted⟩
  · rintro ⟨hrows, hcols⟩
    apply InRange.served (inRange_ofEntries _ hrows) hcols
    intro e he
    obtain ⟨e', -, he⟩ := List.mem_filterMap.1 he
    exact IdHashMap.map_ofIds_lt (mem_sliceEntry.1 he).1

/-- The picks do not look at the flag of the columns. -/
lemma rowWisePick_unflagged (h : (coo.sliceRows rows).Served) (numThreads : ℕ+) (picker : Picker) :
    coo.rowWisePick numThreads picker rows = coo.unflagged.rowWisePick numThreads picker rows := by
  have hcsr := h.cooToCSR numThreads
  rw [rowWisePick, rowWisePick]
  show _ = match (coo.sliceRows rows).unflagged.cooToCSR numThreads with
    | none => Except.error Fault.raised
    | some csr => _
  rw [hcsr]
  cases (coo.sliceRows rows).cooToCSR numThreads with
  | none => rfl
  | some csr => rfl

end COOMatrix

namespace CSRMatrix

variable {csr m : CSRMatrix} {rows cols : List ℕ}

/-- If two ids are requested, the first one is not requested again behind the second one. -/
def LastInOrder (ids : List ℕ) (x y : ℕ) : Prop :=
  x ∈ ids → y ∈ ids → ids.reverse.idxOf y ≤ ids.reverse.idxOf x

/-- Within every requested row the columns stay in order. -/
def KeptPlacesInOrder (csr : CSRMatrix) (rows cols : List ℕ) : Prop :=
  csr.sorted = true → ∀ row ∈ rows, ∀ p ∈ csr.devicePlaces row, ∀ q ∈ csr.devicePlaces row, p < q →
    LastInOrder (deviceCols cols) (csr.deviceCol p) (csr.deviceCol q)

/-- The marks of the kernel: the last place of a requested column. -/
lemma marked_iff {numCols c k : ℕ} {ids : List ℕ} (hids : ∀ c ∈ ids, c < numCols) :
    k ∈ (ids.zipIdx.foldl (fun valid ck => valid.set ck.1 (some ck.2))
        (List.replicate numCols (none : Option ℕ))).getD c none ↔
      c ∈ ids ∧ k + ids.reverse.idxOf c + 1 = ids.length := by
  induction ids using List.reverseRecOn with
  | nil => simp
  | append_singleton ids z ih =>
      have hlen (l : List (ℕ × ℕ)) (v : List (Option ℕ)) :
          (l.foldl (fun valid ck => valid.set ck.1 (some ck.2)) v).length = v.length := by
        induction l generalizing v with
        | nil => rfl
        | cons x xs ih => rw [List.foldl_cons, ih, List.length_set]
      have ih := ih fun c hc => hids c (List.mem_append_left _ hc)
      have hz : z < numCols := hids z (List.mem_append_right _ List.mem_cons_self)
      rw [List.zipIdx_append, List.foldl_append, List.zipIdx_singleton, List.foldl_cons,
        List.foldl_nil, List.reverse_append, List.reverse_singleton, List.singleton_append,
        List.idxOf_cons, List.length_append, List.length_singleton, List.mem_append,
        List.mem_singleton, Nat.zero_add, List.getD_eq_getElem?_getD]
      by_cases hzc : z = c
      · subst hzc
        rw [List.getElem?_set_self (by rwa [hlen, List.length_replicate]), Option.getD_some,
          beq_self_eq_true, cond_true, Option.mem_def, Option.some_inj]
        constructor
        · rintro rfl
          exact ⟨Or.inr rfl, by omega⟩
        · rintro ⟨-, hk⟩
          omega
      · rw [List.getElem?_set_ne hzc, ← List.getD_eq_getElem?_getD, ih, beq_false_of_ne hzc,
          cond_false, or_iff_left (Ne.symm hzc)]
        constructor
        · rintro ⟨hc, hk⟩
          exact ⟨hc, by omega⟩
        · rintro ⟨hc, hk⟩
          exact ⟨hc, by omega⟩

lemma validCol_le_iff {numCols c c' : ℕ} (hcols : ∀ c ∈ deviceCols cols, c < numCols) :
    (∀ k ∈ (validCol numCols cols).getD c none, ∀ k' ∈ (validCol numCols cols).getD c' none,
        k ≤ k') ↔ LastInOrder (deviceCols cols) c c' := by
  have hplace {x : ℕ} (hx : x ∈ deviceCols cols) :
      (deviceCols cols).reverse.idxOf x < (deviceCols cols).length := by
    have hlt := List.idxOf_lt_length_of_mem (List.mem_reverse.2 hx)
    rwa [List.length_reverse] at hlt
  unfold validCol
  simp only [marked_iff hcols]
  constructor
  · intro hle hc hc'
    have h1 := hplace hc
    have h2 := hplace hc'
    have h3 := hle ((deviceCols cols).length - 1 - (deviceCols cols).reverse.idxOf c)
      ⟨hc, by omega⟩ ((deviceCols cols).length - 1 - (deviceCols cols).reverse.idxOf c')
      ⟨hc', by omega⟩
    omega
  · rintro hin k ⟨hc, hk⟩ k' ⟨hc', hk'⟩
    have h1 := hin hc hc'
    omega

lemma ofRows_colsSorted_iff {bits numCols : ℕ} {rows : List (List (ℕ × ℕ))} {sorted : Bool} :
    (ofRows bits numCols rows sorted).ColsSorted ↔
      (sorted = true → ∀ row ∈ rows, (row.map Prod.fst).Pairwise (· ≤ ·)) := by
  rw [ColsSorted]
  apply imp_congr_right
  intro _
  have hrow {r : ℕ} (hr : r < rows.length) :
      (((ofRows bits numCols rows sorted).rowEntries r).map fun e => e.2.1) =
        rows[r].map Prod.fst := by
    rw [rowEntries_ofRows hr, List.map_map]
    rfl
  constructor
  · intro hall row hmem
    obtain ⟨r, hr, rfl⟩ := List.mem_iff_getElem.1 hmem
    rw [← hrow hr]
    exact hall r hr
  · intro hall r hr
    rw [hrow hr]
    exact hall _ (List.getElem_mem hr)

lemma ofRows_data {bits numCols : ℕ} {rows : List (List (ℕ × ℕ))} {sorted : Bool} :
    (ofRows bits numCols rows sorted).hasData = true ∨
      (ofRows bits numCols rows sorted).entries = [] := by
  by_cases hnil : rows.flatten = []
  · right
    rw [entries_ofRows, List.flatMap_eq_nil_iff]
    intro i hi
    rw [List.getD_eq_getElem _ _ (List.mem_range.1 hi), List.map_eq_nil_iff]
    exact List.flatten_eq_nil_iff.1 hnil _ (List.getElem_mem _)
  · left
    have hdata : (ofRows bits numCols rows sorted).data ≠ [] := by
      rw [ofRows, Ne, List.map_eq_nil_iff]
      exact hnil
    simpa [hasData] using hdata

lemma sliceMatrixAscend_served_iff (hm : csr.sliceMatrixAscend rows cols = .ok m) :
    m.Served ↔ csr.KeptPlacesInOrder rows cols := by
  rw [sliceMatrixAscend] at hm
  split at hm
  · cases hm
  rename_i hok
  obtain rfl := Except.ok.inj hm
  have hcols : ∀ c ∈ deviceCols cols, c < csr.numCols := by
    intro c hc
    by_contra hlt
    exact hok (Or.inr (Or.inr (List.any_eq_true.2 ⟨c, hc, by simpa using hlt⟩)))
  have hsorted : (ofRows csr.bits cols.length (rows.map (csr.deviceRow cols)) csr.sorted).ColsSorted ↔
      csr.KeptPlacesInOrder rows cols := by
    rw [ofRows_colsSorted_iff]
    apply imp_congr_right
    intro _
    simp only [List.mem_map, forall_exists_index, and_imp, forall_apply_eq_imp_iff₂]
    apply forall₂_congr
    intro row _
    have hplaces : (csr.devicePlaces row).Pairwise (· ≤ ·) := by
      apply List.Pairwise.imp _ List.pairwise_lt_range'
      exact fun hlt => le_of_lt hlt
    rw [deviceRow, List.map_filterMap, List.pairwise_filterMap,
      pairwise_iff_of_sorted hplaces le_refl]
    · apply forall₂_congr
      intro p _
      apply forall₂_congr
      intro q _
      rw [Nat.not_le]
      apply imp_congr_right
      intro _
      rw [← validCol_le_iff hcols]
      simp
    · intro p q hpq hqp k hk k' hk'
      obtain rfl := le_antisymm hpq hqp
      rw [hk] at hk'
      exact (Option.some.inj hk').le
  rw [← hsorted]
  exact ⟨fun hserved => hserved.colsSorted, fun hs => hs.served ofRows_data⟩

end CSRMatrix

/-! ## Which ids may be requested -/

/-- **Flags of slices**: a slice of a COO matrix with true flags, and a slice of a CSR matrix on the
device, has true flags exactly when the requested ids keep the entries in order, and then whoever
trusts the flags returns what is returned without them.  On the host a slice of a CSR matrix has no
flag. -/
theorem flags_truthful_iff {coo : COOMatrix} (hcoo : coo.InRange) (hcols : coo.ColsSorted)
    (csr : CSRMatrix) (rows cols : List ℕ) :
    (((coo.sliceRows rows).Served ∧ ∀ (numThreads : ℕ+) picker,
        coo.rowWisePick numThreads picker rows = coo.unflagged.rowWisePick numThreads picker rows) ↔
      coo.RowsInOrder rows) ∧
    ((coo.sliceMatrix rows cols).Served ↔
      coo.KeptRowsInOrder rows cols ∧ coo.KeptColsInOrder rows cols) ∧
    (∀ m, csr.sliceMatrix rows cols = .ok m → m.Served) ∧
    ∀ m, csr.sliceMatrixAscend rows cols = .ok m →
      (m.Served ↔ csr.KeptPlacesInOrder rows cols) := by
  refine ⟨?_, COOMatrix.sliceMatrix_served_iff hcoo hcols, ?_,
    fun m hm => CSRMatrix.sliceMatrixAscend_served_iff hm⟩
  · rw [← COOMatrix.sliceRows_served_iff hcoo hcols]
    exact ⟨fun h => h.1, fun h => ⟨h, COOMatrix.rowWisePick_unflagged h⟩⟩
  · intro m hm
    rw [CSRMatrix.sliceMatrix] at hm
    split at hm
    · cases hm
    · obtain rfl := Except.ok.inj hm
      exact CSRMatrix.served_unflagged rfl

/-- An entry in each of two rows, with true flags. -/
def twoRows : COOMatrix where
  bits := 32
  numRows := 2
  numCols := 1
  row := [0, 1]
  col := [0, 0]
  data := []
  rowSorted := true
  colSorted := true

lemma twoRows_inRange : twoRows.InRange := ⟨rfl, by decide, nofun, by decide⟩

lemma twoRows_colsSorted : twoRows.ColsSorted := by
  rw [COOMatrix.ColsSorted]
  decide

/-- The rows in their order. -/
theorem flags_truthful_twoRows :
    (twoRows.sliceRows [0, 1]).Served ∧ ∀ (numThreads : ℕ+) picker,
      twoRows.rowWisePick numThreads picker [0, 1] =
        twoRows.unflagged.rowWisePick numThreads picker [0, 1] := by
  apply (flags_truthful_iff twoRows_inRange twoRows_colsSorted twoRows.bucketed [0, 1] [0]).1.2
  rw [COOMatrix.RowsInOrder]
  decide

/-- The rows in the other order: the flag is false, and the search does not find the entry of the
first row. -/
theorem flags_exchanged :
    twoRows.InRange ∧ twoRows.ColsSorted ∧ (twoRows.sliceRows [1, 0]).rowSorted = true ∧
      (twoRows.sliceRows [1, 0]).row = [1, 0] ∧
      (twoRows.sliceRows [1, 0]).getData [0] [0] = .ok [none] ∧
      (twoRows.sliceRows [1, 0]).unflagged.getData [0] [0] = .ok [some 1] :=
  ⟨twoRows_inRange, twoRows_colsSorted, by decide, by decide, by decide, by decide⟩

end DglAscend.Aten
