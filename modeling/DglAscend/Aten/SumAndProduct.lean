import DglAscend.Aten.Slices
import DglAscend.Lib.DisjointWrites
import DglAscend.Lib.KeyedSums
import DglAscend.Lib.StaticChunks
import DglAscend.Lib.StdAlgorithms

/-!
# Sums and products of weighted matrices

`csr_sum.cc` and `csr_mm.cc`.  A first pass counts the distinct columns of every row in a set, and a
second one adds up the weights of every column in a map and writes the map to the places that the
first has counted, in the order in which the map is iterated.
-/

namespace DglAscend.Aten

/-- A matrix with the weights of its edges. -/
structure WeightedCSR where
  csr : CSRMatrix
  weights : List ℚ
  deriving DecidableEq

/-- The matrix of a sum or a product, without a data array, and its weights; `none` is a place that
was not written. -/
structure WeightedResult where
  numRows : ℕ
  numCols : ℕ
  indptr : List ℤ
  indices : List (Option ℕ)
  weights : List (Option ℚ)
  deriving DecidableEq

/-! ## The two passes -/

/-- `CountNNZPerRow`, for the columns that the loop over a row inserts. -/
def countNNZPerRow (bits numThreads m : ℕ) (cols : ℕ → List ℕ) : Except Fault (List ℤ) :=
  parallelFor numThreads m fun r => .ok (castId bits (keySet (cols r)).length)

/-- `ComputeIndptrInPlace` -/
def computeIndptrInPlace (bits : ℕ) : ℤ → List ℤ → List ℤ
  | nnz, [] => [castId bits nnz]
  | nnz, len :: counts => castId bits nnz :: computeIndptrInPlace bits (nnz + len) counts

/-- The loop over the map of a row: `C_indices_data[j]` and `C_weights_data[j]`, then `++j`. -/
def rowWrites (bits : ℕ) (start : ℤ) (items : List (ℕ × ℚ)) : List (ℤ × ℕ × ℚ) :=
  items.zipIdx.map fun x => (castId bits (start + x.2), x.1)

/-- `ComputeIndicesAndData`, for the terms that the loop over a row adds up. -/
def computeIndicesAndData (bits numThreads m : ℕ) (order : AnyOrder (ℕ × ℚ)) (indptr : List ℤ)
    (terms : ℕ → List (ℕ × ℚ)) : Except Fault (List (ℤ × ℕ × ℚ)) :=
  (parallelFor numThreads m fun r =>
    .ok (rowWrites bits (indptr.getD r 0) (order.run (keyedSums (terms r))))).map List.flatten

/-- The arrays that the writes leave. -/
def storeWrites (numRows numCols : ℕ) (indptr : List ℤ) (nnz : ℤ) (writes : List (ℤ × ℕ × ℚ)) :
    Except Fault WeightedResult :=
  if writes.all fun w => 0 ≤ w.1 ∧ w.1 < nnz then
    let cells := applyWrites (List.replicate nnz.toNat none)
      (writes.map fun w => (w.1.toNat, some w.2))
    .ok ⟨numRows, numCols, indptr, cells.map (Option.map Prod.fst), cells.map (Option.map Prod.snd)⟩
  else .error .outOfBounds

/-- The two passes with the writes of the second, which arrive as the threads are scheduled.  The
row number of `ComputeIndptrInPlace` is an id, and an array has no negative size. -/
def twoPasses (bits numThreads numRows numCols : ℕ) (order : AnyOrder (ℕ × ℚ))
    (schedule : AnyOrder (ℤ × ℕ × ℚ)) (cols : ℕ → List ℕ) (terms : ℕ → List (ℕ × ℚ))
    (allocated : ℤ → ℤ) : Except Fault (List (ℤ × ℕ × ℚ) × WeightedResult) :=
  if noOverflow bits numRows = false then .error .outOfBounds
  else do
    let counts ← countNNZPerRow bits numThreads numRows cols
    let indptr := computeIndptrInPlace bits 0 counts
    let nnz := allocated counts.sum
    if nnz < 0 then .error .raised
    else do
      let writes ← computeIndicesAndData bits numThreads numRows order indptr terms
      let result ← storeWrites numRows numCols indptr nnz (schedule.run writes)
      return (writes, result)

/-! ## `CSRSum` and `CSRMM` -/

namespace WeightedCSR

/-- `A_data[A_eids ? A_eids[u] : u]` -/
def weight (a : WeightedCSR) (u : ℕ) : ℚ := a.weights.getD (idAt a.csr.data u) 0

/-- `A_indices[u]` -/
def col (a : WeightedCSR) (u : ℕ) : ℕ := a.csr.indices.getD u 0

/-- What `CountNNZPerRow` of `csr_sum.cc` inserts for a row. -/
def sumCols (as : List WeightedCSR) (r : ℕ) : List ℕ :=
  as.flatMap fun a => (a.csr.places r).map a.col

/-- What `ComputeIndicesAndData` of `csr_sum.cc` adds up for a row. -/
def sumTerms (as : List WeightedCSR) (r : ℕ) : List (ℕ × ℚ) :=
  as.flatMap fun a => (a.csr.places r).map fun u => (a.col u, a.weight u)

/-- `CSRSum` with its checks; its `nnz` is an id. -/
def csrSum (numThreads : ℕ) (order : AnyOrder (ℕ × ℚ)) (schedule : AnyOrder (ℤ × ℕ × ℚ))
    (as : List WeightedCSR) : Except Fault (List (ℤ × ℕ × ℚ) × WeightedResult) :=
  match as with
  | [] => .error .raised
  | first :: rest =>
    if (first :: rest).all fun a => a.csr.bits = first.csr.bits ∧ a.csr.nnz = a.weights.length ∧
        a.csr.numRows = first.csr.numRows ∧ a.csr.numCols = first.csr.numCols then
      twoPasses first.csr.bits numThreads first.csr.numRows first.csr.numCols order schedule
        (sumCols (first :: rest)) (sumTerms (first :: rest)) (castId first.csr.bits)
    else .error .raised

/-- What `CountNNZPerRow` of `csr_mm.cc` inserts for a row. -/
def mulCols (a b : WeightedCSR) (r : ℕ) : List ℕ :=
  (a.csr.places r).flatMap fun u => (b.csr.places (a.col u)).map b.col

/-- What `ComputeIndicesAndData` of `csr_mm.cc` adds up for a row. -/
def mulTerms (a b : WeightedCSR) (r : ℕ) : List (ℕ × ℚ) :=
  (a.csr.places r).flatMap fun u => (b.csr.places (a.col u)).map fun v =>
    (b.col v, a.weight u * b.weight v)

/-- `CSRMM` with its checks; its `nnz` is an `int64_t`. -/
def csrMM (numThreads : ℕ) (order : AnyOrder (ℕ × ℚ)) (schedule : AnyOrder (ℤ × ℕ × ℚ))
    (a b : WeightedCSR) : Except Fault (List (ℤ × ℕ × ℚ) × WeightedResult) :=
  if a.csr.numCols = b.csr.numRows ∧ a.csr.bits = b.csr.bits then
    twoPasses a.csr.bits numThreads a.csr.numRows b.csr.numCols order schedule (mulCols a b)
      (mulTerms a b) id
  else .error .raised

end WeightedCSR

/-! ## What a sum and a product are -/

/-- The arrays hold the positions of a pattern, each once and with its value, row by row. -/
structure WeightedResult.Holds (result : WeightedResult) (numRows numCols : ℕ)
    (pattern : ℕ → ℕ → Prop) (value : ℕ → ℕ → ℚ) : Prop where
  numRows_eq : result.numRows = numRows
  numCols_eq : result.numCols = numCols
  rows : ∃ rows : List (List (ℕ × ℚ)), rows.length = numRows ∧
    result.indptr =
      (List.range (numRows + 1)).map (fun r => (((rows.take r).map List.length).sum : ℤ)) ∧
    result.indices = rows.flatten.map (fun x => some x.1) ∧
    result.weights = rows.flatten.map (fun x => some x.2) ∧
    ∀ r < numRows, ((rows.getD r []).map Prod.fst).Nodup ∧
      (∀ c, c ∈ (rows.getD r []).map Prod.fst ↔ pattern r c) ∧
      ∀ x ∈ rows.getD r [], x.2 = value r x.1

/-- The number of positions of a pattern. -/
def patternSize (numRows numCols : ℕ) (pattern : ℕ → ℕ → Prop) [∀ r c, Decidable (pattern r c)] :
    ℕ :=
  ((List.range numRows).map fun r => (List.range numCols).countP fun c => pattern r c).sum

namespace WeightedCSR

/-- The position holds an entry. -/
def HasEntry (a : WeightedCSR) (r c : ℕ) : Prop := ∃ e ∈ a.csr.rowEntries r, e.2.1 = c

instance (a : WeightedCSR) (r c : ℕ) : Decidable (a.HasEntry r c) :=
  inferInstanceAs (Decidable (∃ e ∈ a.csr.rowEntries r, e.2.1 = c))

/-- The sum of the weights at a position. -/
def valueAt (a : WeightedCSR) (r c : ℕ) : ℚ :=
  (((a.csr.rowEntries r).filter fun e => e.2.1 = c).map fun e => a.weights.getD e.2.2 0).sum

/-- The union of the patterns. -/
def SumPattern (as : List WeightedCSR) (r c : ℕ) : Prop := ∃ a ∈ as, a.HasEntry r c

instance (as : List WeightedCSR) (r c : ℕ) : Decidable (SumPattern as r c) :=
  inferInstanceAs (Decidable (∃ a ∈ as, a.HasEntry r c))

/-- The sum of the values. -/
def sumValue (as : List WeightedCSR) (r c : ℕ) : ℚ := (as.map fun a => a.valueAt r c).sum

/-- The pairs that a common index connects. -/
def MulPattern (a b : WeightedCSR) (r c : ℕ) : Prop :=
  ∃ k < a.csr.numCols, a.HasEntry r k ∧ b.HasEntry k c

instance (a b : WeightedCSR) (r c : ℕ) : Decidable (MulPattern a b r c) :=
  inferInstanceAs (Decidable (∃ k < a.csr.numCols, a.HasEntry r k ∧ b.HasEntry k c))

/-- The entry of the matrix product. -/
def mulValue (a b : WeightedCSR) (r c : ℕ) : ℚ :=
  ∑ k ∈ Finset.range a.csr.numCols, a.valueAt r k * b.valueAt k c

/-- The arrays belong together. -/
structure Valid (a : WeightedCSR) : Prop where
  csr : a.csr.Valid
  weights : a.weights.length = a.csr.nnz

/-- Matrices of one shape. -/
structure SameShape (as : List WeightedCSR) : Prop where
  valid : ∀ a ∈ as, a.Valid
  shape : ∀ a ∈ as, ∀ a' ∈ as, a.csr.bits = a'.csr.bits ∧ a.csr.numRows = a'.csr.numRows ∧
    a.csr.numCols = a'.csr.numCols

/-- Every place of the two output arrays is written once. -/
def WritesOnce (run : List (ℤ × ℕ × ℚ) × WeightedResult) : Prop :=
  (run.1.map Prod.fst).Perm ((List.range run.2.indices.length).map fun (p : ℕ) => (p : ℤ)) ∧
    run.2.weights.length = run.2.indices.length

/-- `CSRSum` returns the sum. -/
def SumsRight (numThreads : ℕ) (order : AnyOrder (ℕ × ℚ)) (schedule : AnyOrder (ℤ × ℕ × ℚ))
    (as : List WeightedCSR) : Prop :=
  ∃ run, csrSum numThreads order schedule as = .ok run ∧ WritesOnce run ∧
    ∀ a ∈ as, run.2.Holds a.csr.numRows a.csr.numCols (SumPattern as) (sumValue as)

/-- `CSRMM` returns the product. -/
def MultipliesRight (numThreads : ℕ) (order : AnyOrder (ℕ × ℚ)) (schedule : AnyOrder (ℤ × ℕ × ℚ))
    (a b : WeightedCSR) : Prop :=
  ∃ run, csrMM numThreads order schedule a b = .ok run ∧ WritesOnce run ∧
    run.2.Holds a.csr.numRows b.csr.numCols (MulPattern a b) (mulValue a b)

end WeightedCSR

/-! ## One pass after the other -/

lemma length_computeIndptrInPlace (bits : ℕ) (nnz : ℤ) (counts : List ℤ) :
    (computeIndptrInPlace bits nnz counts).length = counts.length + 1 := by
  induction counts generalizing nnz with
  | nil => rfl
  | cons len counts ih => rw [computeIndptrInPlace, List.length_cons, ih, List.length_cons]

/-- The pointers are the sums of the counts before them. -/
lemma computeIndptrInPlace_getElem? (bits : ℕ) (nnz : ℤ) (counts : List ℤ) {i : ℕ}
    (hi : i ≤ counts.length) :
    (computeIndptrInPlace bits nnz counts)[i]? =
      some (castId bits (nnz + (counts.take i).sum)) := by
  induction counts generalizing nnz i with
  | nil =>
      obtain rfl : i = 0 := Nat.le_zero.1 hi
      rw [List.take_nil, List.sum_nil, add_zero]
      rfl
  | cons len counts ih =>
      cases i with
      | zero =>
          rw [List.take_zero, List.sum_nil, add_zero]
          rfl
      | succ i =>
          rw [computeIndptrInPlace, List.getElem?_cons_succ, ih _ (Nat.le_of_succ_le_succ hi),
            List.take_succ_cons, List.sum_cons, add_assoc]

lemma countNNZPerRow_eq {bits numThreads m : ℕ} (hthreads : 0 < numThreads) (cols : ℕ → List ℕ) :
    countNNZPerRow bits numThreads m cols =
      .ok ((List.range m).map fun r => castId bits (keySet (cols r)).length) := by
  rw [countNNZPerRow, parallelFor_eq hthreads]
  exact mapM_ok fun r _ => rfl

lemma computeIndicesAndData_eq {bits numThreads m : ℕ} (hthreads : 0 < numThreads)
    (order : AnyOrder (ℕ × ℚ)) (indptr : List ℤ) (terms : ℕ → List (ℕ × ℚ)) :
    computeIndicesAndData bits numThreads m order indptr terms =
      .ok ((List.range m).flatMap fun r =>
        rowWrites bits (indptr.getD r 0) (order.run (keyedSums (terms r)))) := by
  rw [computeIndicesAndData, parallelFor_eq hthreads, mapM_ok fun r _ => rfl, List.flatMap_def]
  rfl

section TwoPasses

variable {bits numThreads numRows numCols : ℕ} {order : AnyOrder (ℕ × ℚ)}
  {schedule : AnyOrder (ℤ × ℕ × ℚ)} {cols : ℕ → List ℕ} {terms : ℕ → List (ℕ × ℚ)}
  {allocated : ℤ → ℤ} {pattern : ℕ → ℕ → Prop} {value : ℕ → ℕ → ℚ}

/-- The number of places before the row. -/
def rowStart (cols : ℕ → List ℕ) (r : ℕ) : ℕ :=
  ((List.range r).map fun r => (keySet (cols r)).length).sum

lemma rowStart_succ (cols : ℕ → List ℕ) (r : ℕ) :
    rowStart cols (r + 1) = rowStart cols r + (keySet (cols r)).length := by
  rw [rowStart, List.range_succ, List.map_append, List.sum_append, List.map_singleton,
    List.sum_singleton]
  rfl

lemma rowStart_mono (cols : ℕ → List ℕ) : Monotone (rowStart cols) :=
  monotone_nat_of_le_succ fun r => by
    rw [rowStart_succ]
    exact Nat.le_add_right _ _

/-- Rows of the pattern are as long as the first pass has counted. -/
lemma sum_length_rows (hpattern : ∀ r < numRows, ∀ c, c ∈ cols r ↔ pattern r c)
    {rows : List (List (ℕ × ℚ))} (hlen : rows.length = numRows)
    (hrows : ∀ r < numRows, ((rows.getD r []).map Prod.fst).Nodup ∧
      ∀ c, c ∈ (rows.getD r []).map Prod.fst ↔ pattern r c) {i : ℕ} (hi : i ≤ numRows) :
    ((rows.take i).map List.length).sum = rowStart cols i := by
  induction i with
  | zero => rfl
  | succ i ih =>
      have hi' : i < rows.length := hlen ▸ hi
      obtain ⟨hnodup, hmem⟩ := hrows i hi
      rw [List.getD_eq_getElem _ _ hi'] at hnodup hmem
      have hrow := length_eq_keySet hnodup fun c => (hmem c).trans (hpattern i hi c).symm
      rw [List.length_map] at hrow
      rw [List.take_add_one, List.getElem?_eq_getElem hi', Option.toList_some, List.map_append,
        List.sum_append, List.map_singleton, List.sum_singleton, ih (Nat.le_of_succ_le hi),
        rowStart_succ, hrow]

/-- The counts of the first pass. -/
def rowCounts (bits numRows : ℕ) (cols : ℕ → List ℕ) : List ℤ :=
  (List.range numRows).map fun r => castId bits (keySet (cols r)).length

/-- The writes of the second pass. -/
def passWrites (bits numRows : ℕ) (order : AnyOrder (ℕ × ℚ)) (indptr : List ℤ)
    (terms : ℕ → List (ℕ × ℚ)) : List (ℤ × ℕ × ℚ) :=
  (List.range numRows).flatMap fun r =>
    rowWrites bits (indptr.getD r 0) (order.run (keyedSums (terms r)))

lemma twoPasses_eq (hthreads : 0 < numThreads) (hrows : noOverflow bits numRows = true) :
    twoPasses bits numThreads numRows numCols order schedule cols terms allocated =
      let indptr := computeIndptrInPlace bits 0 (rowCounts bits numRows cols)
      let nnz := allocated (rowCounts bits numRows cols).sum
      let writes := passWrites bits numRows order indptr terms
      if nnz < 0 then .error .raised
      else (storeWrites numRows numCols indptr nnz (schedule.run writes)).map fun result =>
        (writes, result) := by
  simp only [twoPasses, hrows, countNNZPerRow_eq hthreads, computeIndicesAndData_eq hthreads]
  rfl

/-- A result that holds the pattern has a number of places that is an id. -/
theorem noOverflow_of_holds (hthreads : 0 < numThreads)
    (hpattern : ∀ r < numRows, ∀ c, c ∈ cols r ↔ pattern r c)
    {run : List (ℤ × ℕ × ℚ) × WeightedResult}
    (hrun : twoPasses bits numThreads numRows numCols order schedule cols terms allocated = .ok run)
    (hholds : run.2.Holds numRows numCols pattern value) :
    noOverflow bits numRows = true ∧ noOverflow bits (rowStart cols numRows) = true := by
  have hrows : noOverflow bits numRows = true := by
    by_contra hrows
    rw [twoPasses, if_pos (Bool.not_eq_true _ ▸ hrows)] at hrun
    cases hrun
  refine ⟨hrows, ?_⟩
  have hptr : run.2.indptr = computeIndptrInPlace bits 0 (rowCounts bits numRows cols) := by
    simp only [twoPasses_eq hthreads hrows, storeWrites] at hrun
    split at hrun
    · cases hrun
    · split at hrun
      · obtain rfl := Except.ok.inj hrun
        rfl
      · cases hrun
  -- the last pointer is the number of places
  obtain ⟨rows, hlen, hindptr, -, -, hspec⟩ := hholds.rows
  have htotal := sum_length_rows hpattern hlen (fun r hr => ⟨(hspec r hr).1, (hspec r hr).2.1⟩) le_rfl
  have hcounts : numRows ≤ (rowCounts bits numRows cols).length := by
    rw [rowCounts, List.length_map, List.length_range]
  have hlast := computeIndptrInPlace_getElem? bits 0 _ hcounts
  rw [← hptr, hindptr, List.getElem?_map, List.getElem?_range (Nat.lt_succ_self _), Option.map_some,
    Option.some.injEq, htotal] at hlast
  exact noOverflow_of_castId hlast.symm

/-- The places that the first pass counts are ids when their number is. -/
lemma sum_take_rowCounts (htotal : noOverflow bits (rowStart cols numRows) = true) {r : ℕ}
    (hr : r ≤ numRows) : ((rowCounts bits numRows cols).take r).sum = rowStart cols r := by
  have hcounts : rowCounts bits numRows cols =
      ((List.range numRows).map fun r => (keySet (cols r)).length).map Nat.cast := by
    rw [List.map_map]
    apply List.map_congr_left
    intro s hs
    have hle := rowStart_mono cols (Nat.succ_le_of_lt (List.mem_range.1 hs))
    rw [Nat.succ_eq_add_one, rowStart_succ] at hle
    exact castId_eq (noOverflow_mono (by omega) htotal)
  rw [hcounts, ← List.map_take, ← List.map_take, List.take_range, min_eq_left hr, rowStart,
    Nat.cast_list_sum]

/-- The pointers of a result whose size is an id. -/
lemma computeIndptrInPlace_eq (htotal : noOverflow bits (rowStart cols numRows) = true) :
    computeIndptrInPlace bits 0 (rowCounts bits numRows cols) =
      (List.range (numRows + 1)).map fun r => (rowStart cols r : ℤ) := by
  have hlen : (rowCounts bits numRows cols).length = numRows := by
    rw [rowCounts, List.length_map, List.length_range]
  apply List.ext_getElem?
  intro i
  by_cases hi : i ≤ numRows
  · have hle := noOverflow_mono (rowStart_mono cols hi) htotal
    rw [computeIndptrInPlace_getElem? bits 0 _ (hlen.symm ▸ hi), sum_take_rowCounts htotal hi,
      zero_add, castId_eq hle, List.getElem?_map, List.getElem?_range (Nat.lt_succ_of_le hi),
      Option.map_some]
  · rw [List.getElem?_eq_none, List.getElem?_eq_none]
    · rw [List.length_map, List.length_range]
      omega
    · rw [length_computeIndptrInPlace, hlen]
      omega

/-- The items of a row in the order of its map. -/
def rowItems (order : AnyOrder (ℕ × ℚ)) (terms : ℕ → List (ℕ × ℚ)) (r : ℕ) : List (ℕ × ℚ) :=
  order.run (keyedSums (terms r))

/-- The writes of the second pass when every place is an id. -/
def itemWrites (numRows : ℕ) (order : AnyOrder (ℕ × ℚ)) (cols : ℕ → List ℕ)
    (terms : ℕ → List (ℕ × ℚ)) : List (ℕ × ℕ × ℚ) :=
  (List.range numRows).flatMap fun r =>
    ((rowItems order terms r).zipIdx.map fun x => (x.2, x.1)).map fun w =>
      (rowStart cols r + w.1, w.2)

section

variable (hterms : ∀ r < numRows, (terms r).map Prod.fst = cols r)
include hterms

/-- The map of a row is as long as the set of its columns. -/
lemma length_rowItems {r : ℕ} (hr : r < numRows) :
    (rowItems order terms r).length = (keySet (cols r)).length := by
  rw [← hterms r hr, ← map_fst_keyedSums, List.length_map]
  exact (order.perm _).length_eq

lemma length_flatMap_rowItems :
    ((List.range numRows).flatMap (rowItems order terms)).length = rowStart cols numRows := by
  rw [List.length_flatMap, rowStart]
  exact congrArg List.sum (List.map_congr_left fun r hr =>
    length_rowItems hterms (List.mem_range.1 hr))

/-- Count and fill agree: the second pass writes every place once. -/
lemma fills_itemWrites : Fills (itemWrites numRows order cols terms)
      ((List.range numRows).flatMap (rowItems order terms)) := by
  refine fills_flatMap (fun r _ => fills_zipIdx (rowItems order terms r)) rfl fun r hr => ?_
  rw [rowStart_succ, length_rowItems hterms hr]

end

lemma passWrites_eq (htotal : noOverflow bits (rowStart cols numRows) = true)
    (hterms : ∀ r < numRows, (terms r).map Prod.fst = cols r) :
    passWrites bits numRows order (computeIndptrInPlace bits 0 (rowCounts bits numRows cols)) terms =
      (itemWrites numRows order cols terms).map fun w => ((w.1 : ℤ), w.2) := by
  rw [itemWrites, passWrites, List.map_flatMap]
  apply List.flatMap_congr
  intro r hr
  have hr := List.mem_range.1 hr
  have hget : (computeIndptrInPlace bits 0 (rowCounts bits numRows cols)).getD r 0 =
      rowStart cols r := by
    rw [computeIndptrInPlace_eq htotal, List.getD_eq_getElem?_getD, List.getElem?_map,
      List.getElem?_range (by omega)]
    rfl
  rw [hget, rowWrites, List.map_map, List.map_map]
  apply List.map_congr_left
  intro x hx
  have hx : x.2 < (rowItems order terms r).length :=
    (List.getElem?_eq_some_iff.1 (List.mem_zipIdx_iff_getElem?.1 hx)).1
  have hle := rowStart_mono cols (Nat.succ_le_of_lt hr)
  have hlen : (rowItems order terms r).length = (keySet (cols r)).length := length_rowItems hterms hr
  rw [Nat.succ_eq_add_one, rowStart_succ, ← hlen] at hle
  show (castId bits (rowStart cols r + x.2), x.1) = (((rowStart cols r + x.2 : ℕ) : ℤ), x.1)
  rw [← Nat.cast_add, castId_eq (noOverflow_mono (by omega) htotal)]

/-- Whatever the schedule, writes that fill an array leave it. -/
lemma storeWrites_of_fills {ws : List (ℕ × ℕ × ℚ)} {target : List (ℕ × ℚ)} (hfills : Fills ws target)
    (schedule : AnyOrder (ℤ × ℕ × ℚ)) (indptr : List ℤ) :
    storeWrites numRows numCols indptr target.length
      (schedule.run (ws.map fun w => ((w.1 : ℤ), w.2))) =
        .ok ⟨numRows, numCols, indptr, target.map fun x => some x.1, target.map fun x => some x.2⟩ := by
  have hinside : ((schedule.run (ws.map fun w => ((w.1 : ℤ), w.2))).all fun w =>
      0 ≤ w.1 ∧ w.1 < (target.length : ℤ)) = true := by
    refine List.all_eq_true.2 fun w hw => decide_eq_true ?_
    obtain ⟨w', hw', rfl⟩ := List.mem_map.1 ((schedule.perm _).mem_iff.1 hw)
    have hlt := (List.getElem?_eq_some_iff.1 (hfills.values w' hw')).1
    exact ⟨Int.natCast_nonneg _, Int.ofNat_lt.2 hlt⟩
  have hcells : applyWrites (List.replicate target.length none)
      ((schedule.run (ws.map fun w => ((w.1 : ℤ), w.2))).map fun w => (w.1.toNat, some w.2)) =
        target.map some := by
    have hperm := (schedule.perm (ws.map fun w => ((w.1 : ℤ), w.2))).map
      fun w => (w.1.toNat, some w.2)
    rw [List.map_map] at hperm
    refine ((hfills.map some).perm hperm).applyWrites_eq ?_
    rw [List.length_replicate, List.length_map]
  simp only [storeWrites, hinside, if_true, Int.toNat_natCast, hcells, List.map_map]
  rfl

/-- **Two passes** hold the pattern when its size is an id. -/
theorem twoPasses_holds (hthreads : 0 < numThreads) (hrows : noOverflow bits numRows = true)
    (htotal : noOverflow bits (rowStart cols numRows) = true)
    (hterms : ∀ r < numRows, (terms r).map Prod.fst = cols r)
    (hallocated : ∀ n : ℕ, noOverflow bits n = true → allocated n = n)
    (hpattern : ∀ r < numRows, ∀ c, c ∈ cols r ↔ pattern r c)
    (hvalue : ∀ r < numRows, ∀ c, sumAt (terms r) c = value r c) :
    ∃ run, twoPasses bits numThreads numRows numCols order schedule cols terms allocated = .ok run ∧
      WeightedCSR.WritesOnce run ∧ run.2.Holds numRows numCols pattern value := by
  have hfills : Fills (itemWrites numRows order cols terms)
      ((List.range numRows).flatMap (rowItems order terms)) := fills_itemWrites hterms
  have hnnz : allocated (rowCounts bits numRows cols).sum =
      ((List.range numRows).flatMap (rowItems order terms)).length := by
    have hall := sum_take_rowCounts htotal le_rfl
    rw [List.take_of_length_le (by rw [rowCounts, List.length_map, List.length_range])] at hall
    rw [hall, hallocated _ htotal, length_flatMap_rowItems hterms]
  have hnonneg : ¬((((List.range numRows).flatMap (rowItems order terms)).length : ℤ) < 0) :=
    Int.not_lt.2 (Int.natCast_nonneg _)
  simp only [twoPasses_eq hthreads hrows, hnnz, hnonneg, if_false, passWrites_eq htotal hterms,
    storeWrites_of_fills hfills]
  refine ⟨_, rfl, ⟨?_, ?_⟩, ⟨rfl, rfl, (List.range numRows).map (rowItems order terms), ?_, ?_, ?_,
    ?_, ?_⟩⟩
  · show (((itemWrites numRows order cols terms).map fun w => ((w.1 : ℤ), w.2)).map Prod.fst).Perm
      ((List.range (((List.range numRows).flatMap (rowItems order terms)).map _).length).map _)
    have hplaces := hfills.places.map fun (p : ℕ) => (p : ℤ)
    rw [List.map_map] at hplaces
    rwa [List.length_map, List.map_map]
  · show (List.map _ _).length = (List.map _ _).length
    rw [List.length_map, List.length_map]
  · rw [List.length_map, List.length_range]
  · show computeIndptrInPlace bits 0 (rowCounts bits numRows cols) = _
    rw [computeIndptrInPlace_eq htotal]
    apply List.map_congr_left
    intro r hr
    have hr : r ≤ numRows := Nat.le_of_lt_succ (List.mem_range.1 hr)
    have hlen : ((List.range r).map (rowItems order terms)).map List.length =
        (List.range r).map fun r => (keySet (cols r)).length := by
      rw [List.map_map]
      exact List.map_congr_left fun s hs =>
        length_rowItems hterms ((List.mem_range.1 hs).trans_le hr)
    rw [← List.map_take, List.take_range, min_eq_left hr, hlen, rowStart]
  · show List.map _ _ = _
    rw [List.flatMap_def]
  · show List.map _ _ = _
    rw [List.flatMap_def]
  · intro r hr
    have hrow : ((List.range numRows).map (rowItems order terms)).getD r [] =
        rowItems order terms r := by
      rw [List.getD_eq_getElem?_getD, List.getElem?_map, List.getElem?_range hr]
      rfl
    have hkeys := (order.perm (keyedSums (terms r))).map Prod.fst
    rw [hrow]
    refine ⟨hkeys.nodup_iff.2 (nodup_keyedSums _), fun c => ?_, fun x hx => ?_⟩
    · rw [rowItems, hkeys.mem_iff, map_fst_keyedSums, mem_keySet, hterms r hr]
      exact hpattern r hr c
    · rw [value_of_mem_keyedSums ((order.perm _).mem_iff.1 hx)]
      exact hvalue r hr x.1

end TwoPasses

/-! ## Both functions -/

namespace WeightedCSR

variable {a b : WeightedCSR} {as : List WeightedCSR} {r c : ℕ}

lemma hasEntry_iff : a.HasEntry r c ↔ ∃ u ∈ a.csr.places r, a.col u = c := by
  unfold HasEntry CSRMatrix.rowEntries
  constructor
  · rintro ⟨e, he, rfl⟩
    obtain ⟨u, hu, rfl⟩ := List.mem_map.1 he
    exact ⟨u, hu, rfl⟩
  · rintro ⟨u, hu, rfl⟩
    exact ⟨_, List.mem_map_of_mem hu, rfl⟩

lemma valueAt_eq (a : WeightedCSR) (r c : ℕ) :
    a.valueAt r c = sumAt ((a.csr.places r).map fun u => (a.col u, a.weight u)) c := by
  rw [sumAt_eq_filter, valueAt, CSRMatrix.rowEntries, List.filter_map, List.filter_map, List.map_map,
    List.map_map]
  rfl

lemma Valid.col_lt (h : a.Valid) (hr : r < a.csr.numRows) {u : ℕ} (hu : u ∈ a.csr.places r) :
    a.col u < a.csr.numCols := by
  have hlt := h.csr.place_lt hr hu
  rw [col, List.getD_eq_getElem _ _ hlt]
  exact h.csr.col_lt _ (List.getElem_mem hlt)

/-! ### The sum -/

lemma map_fst_sumTerms (as : List WeightedCSR) (r : ℕ) :
    (sumTerms as r).map Prod.fst = sumCols as r := by
  rw [sumTerms, sumCols, List.map_flatMap]
  apply List.flatMap_congr
  intro a _
  rw [List.map_map]
  rfl

lemma mem_sumCols : c ∈ sumCols as r ↔ SumPattern as r c := by
  unfold sumCols SumPattern
  simp only [List.mem_flatMap, List.mem_map, hasEntry_iff]

lemma sumAt_sumTerms (as : List WeightedCSR) (r c : ℕ) :
    sumAt (sumTerms as r) c = sumValue as r c := by
  rw [sumTerms, sumAt_flatMap, sumValue]
  simp only [valueAt_eq]

/-! ### The product -/

lemma map_fst_mulTerms (a b : WeightedCSR) (r : ℕ) :
    (mulTerms a b r).map Prod.fst = mulCols a b r := by
  rw [mulTerms, mulCols, List.map_flatMap]
  apply List.flatMap_congr
  intro u _
  rw [List.map_map]
  rfl

lemma mem_mulCols (h : a.Valid) (hr : r < a.csr.numRows) :
    c ∈ mulCols a b r ↔ MulPattern a b r c := by
  unfold mulCols MulPattern
  simp only [List.mem_flatMap, List.mem_map, hasEntry_iff]
  constructor
  · rintro ⟨u, hu, v, hv, rfl⟩
    exact ⟨a.col u, h.col_lt hr hu, ⟨u, hu, rfl⟩, v, hv, rfl⟩
  · rintro ⟨k, -, ⟨u, hu, rfl⟩, v, hv, rfl⟩
    exact ⟨u, hu, v, hv, rfl⟩

lemma sumAt_mulTerms (h : a.Valid) (hr : r < a.csr.numRows) (b : WeightedCSR) (c : ℕ) :
    sumAt (mulTerms a b r) c = mulValue a b r c := by
  have hrow (u : ℕ) : sumAt ((b.csr.places (a.col u)).map fun v =>
      (b.col v, a.weight u * b.weight v)) c = a.weight u * b.valueAt (a.col u) c := by
    rw [valueAt_eq, sumAt, sumAt, List.map_map, List.map_map, ← List.sum_map_mul_left]
    congr 1
    apply List.map_congr_left
    intro v _
    show (if b.col v = c then a.weight u * b.weight v else 0) =
      a.weight u * if b.col v = c then b.weight v else 0
    rw [mul_ite, mul_zero]
  have hlt : ∀ t ∈ (a.csr.places r).map fun u => (a.col u, a.weight u), t.1 < a.csr.numCols := by
    intro t ht
    obtain ⟨u, hu, rfl⟩ := List.mem_map.1 ht
    exact h.col_lt hr hu
  have hsum := sum_map_mul _ (fun k => b.valueAt k c) hlt
  rw [List.map_map] at hsum
  rw [mulTerms, sumAt_flatMap, mulValue]
  simp only [hrow, valueAt_eq a]
  exact hsum

/-! ### When the result is right -/

lemma rowStart_eq_patternSize {numRows numCols : ℕ} {cols : ℕ → List ℕ} {pattern : ℕ → ℕ → Prop}
    [∀ r c, Decidable (pattern r c)] (hpattern : ∀ r < numRows, ∀ c, c ∈ cols r ↔ pattern r c)
    (hcols : ∀ r < numRows, ∀ c ∈ cols r, c < numCols) :
    rowStart cols numRows = patternSize numRows numCols pattern := by
  refine congrArg List.sum (List.map_congr_left fun r hr => ?_)
  have hr := List.mem_range.1 hr
  rw [List.countP_eq_length_filter]
  refine (length_eq_keySet (List.nodup_range.filter _) fun c => ?_).symm
  rw [List.mem_filter, List.mem_range, decide_eq_true_iff, ← hpattern r hr]
  exact ⟨fun hc => hc.2, fun hc => ⟨hcols r hr c hc, hc⟩⟩

/-- **`CSRSum`** of a list of matrices of one shape is right exactly if there is a matrix, and the
rows and the places of the result are ids. -/
theorem sumsRight_iff (numThreads : ℕ+) (order : AnyOrder (ℕ × ℚ)) (schedule : AnyOrder (ℤ × ℕ × ℚ))
    (h : SameShape as) :
    SumsRight numThreads order schedule as ↔ as ≠ [] ∧ ∀ a ∈ as,
      noOverflow a.csr.bits a.csr.numRows = true ∧
        noOverflow a.csr.bits (patternSize a.csr.numRows a.csr.numCols (SumPattern as)) = true := by
  cases as with
  | nil =>
      constructor
      · rintro ⟨run, hrun, -⟩
        cases hrun
      · exact fun hne => absurd rfl hne.1
  | cons first rest =>
      have hfirst : first ∈ first :: rest := List.mem_cons_self
      have hrun : csrSum numThreads order schedule (first :: rest) =
          twoPasses first.csr.bits numThreads first.csr.numRows first.csr.numCols order schedule
            (sumCols (first :: rest)) (sumTerms (first :: rest)) (castId first.csr.bits) := by
        refine if_pos (List.all_eq_true.2 fun a ha => decide_eq_true ?_)
        obtain ⟨hbits, hrows, hcols⟩ := h.shape a ha first hfirst
        exact ⟨hbits, (h.valid a ha).weights.symm, hrows, hcols⟩
      have hpattern : ∀ r < first.csr.numRows, ∀ c, c ∈ sumCols (first :: rest) r ↔
          SumPattern (first :: rest) r c := fun r _ c => mem_sumCols
      have hcols : ∀ r < first.csr.numRows, ∀ c ∈ sumCols (first :: rest) r,
          c < first.csr.numCols := by
        intro r hr c hc
        obtain ⟨a, ha, hc⟩ := List.mem_flatMap.1 hc
        obtain ⟨u, hu, rfl⟩ := List.mem_map.1 hc
        obtain ⟨-, hrows, hcols⟩ := h.shape a ha first hfirst
        rw [← hcols]
        exact (h.valid a ha).col_lt (hrows ▸ hr) hu
      have hsize := rowStart_eq_patternSize hpattern hcols
      constructor
      · rintro ⟨run, hok, -, hholds⟩
        rw [hrun] at hok
        obtain ⟨hrows, hplaces⟩ := noOverflow_of_holds numThreads.pos hpattern hok
          (hholds first hfirst)
        rw [hsize] at hplaces
        refine ⟨List.cons_ne_nil _ _, fun a ha => ?_⟩
        obtain ⟨hbits, hr, hc⟩ := h.shape a ha first hfirst
        rw [hbits, hr, hc]
        exact ⟨hrows, hplaces⟩
      · rintro ⟨-, hfits⟩
        obtain ⟨hrows, hplaces⟩ := hfits first hfirst
        have hsum : ∃ run, csrSum numThreads order schedule (first :: rest) = .ok run ∧
            WritesOnce run ∧ run.2.Holds first.csr.numRows first.csr.numCols
              (SumPattern (first :: rest)) (sumValue (first :: rest)) := by
          rw [hrun]
          exact twoPasses_holds numThreads.pos hrows (hsize ▸ hplaces)
            (fun r _ => map_fst_sumTerms (first :: rest) r) (fun n hn => castId_eq hn) hpattern
            fun r _ c => sumAt_sumTerms (first :: rest) r c
        obtain ⟨run, hok, honce, hholds⟩ := hsum
        refine ⟨run, hok, honce, fun a ha => ?_⟩
        obtain ⟨-, hr, hc⟩ := h.shape a ha first hfirst
        rw [hr, hc]
        exact hholds

/-- **`CSRMM`** of two compatible matrices is right exactly if the rows and the places of the result
are ids. -/
theorem multipliesRight_iff (numThreads : ℕ+) (order : AnyOrder (ℕ × ℚ))
    (schedule : AnyOrder (ℤ × ℕ × ℚ)) (ha : a.Valid) (hb : b.Valid) (hbits : a.csr.bits = b.csr.bits)
    (hinner : a.csr.numCols = b.csr.numRows) :
    MultipliesRight numThreads order schedule a b ↔ noOverflow a.csr.bits a.csr.numRows = true ∧
      noOverflow a.csr.bits (patternSize a.csr.numRows b.csr.numCols (MulPattern a b)) = true := by
  have hrun : csrMM numThreads order schedule a b =
      twoPasses a.csr.bits numThreads a.csr.numRows b.csr.numCols order schedule (mulCols a b)
        (mulTerms a b) id := if_pos ⟨hinner, hbits⟩
  have hpattern : ∀ r < a.csr.numRows, ∀ c, c ∈ mulCols a b r ↔ MulPattern a b r c :=
    fun r hr c => mem_mulCols ha hr
  have hcols : ∀ r < a.csr.numRows, ∀ c ∈ mulCols a b r, c < b.csr.numCols := by
    intro r hr c hc
    obtain ⟨u, hu, hc⟩ := List.mem_flatMap.1 hc
    obtain ⟨v, hv, rfl⟩ := List.mem_map.1 hc
    exact hb.col_lt (hinner ▸ ha.col_lt hr hu) hv
  have hsize := rowStart_eq_patternSize hpattern hcols
  constructor
  · rintro ⟨run, hok, -, hholds⟩
    rw [hrun] at hok
    rw [← hsize]
    exact noOverflow_of_holds numThreads.pos hpattern hok hholds
  · rintro ⟨hrows, hplaces⟩
    unfold MultipliesRight
    rw [hrun]
    exact twoPasses_holds numThreads.pos hrows (hsize ▸ hplaces)
      (fun r _ => map_fst_mulTerms a b r) (fun _ _ => rfl) hpattern
      fun r hr c => sumAt_mulTerms ha hr b c

/-- **Sums and products** are right for every number of threads, every order of the maps and every
schedule of the writes, exactly if the rows and the places of the result are ids. -/
theorem sum_and_product_iff (numThreads : ℕ+) (order : AnyOrder (ℕ × ℚ))
    (schedule : AnyOrder (ℤ × ℕ × ℚ)) :
    (∀ as : List WeightedCSR, SameShape as →
      (SumsRight numThreads order schedule as ↔ as ≠ [] ∧ ∀ a ∈ as,
        noOverflow a.csr.bits a.csr.numRows = true ∧
          noOverflow a.csr.bits
            (patternSize a.csr.numRows a.csr.numCols (SumPattern as)) = true)) ∧
      ∀ a b : WeightedCSR, a.Valid → b.Valid → a.csr.bits = b.csr.bits →
        a.csr.numCols = b.csr.numRows →
        (MultipliesRight numThreads order schedule a b ↔
          noOverflow a.csr.bits a.csr.numRows = true ∧
            noOverflow a.csr.bits
              (patternSize a.csr.numRows b.csr.numCols (MulPattern a b)) = true) :=
  ⟨fun _ h => sumsRight_iff numThreads order schedule h, fun _ _ ha hb hbits hinner =>
    multipliesRight_iff numThreads order schedule ha hb hbits hinner⟩

/-- The order in which the items came. -/
def asInserted (α : Type) : AnyOrder α := ⟨id, fun _ => .refl _⟩

/-- One row with two entries in a column, and a data array. -/
def repeatedColumn : WeightedCSR where
  csr := ⟨64, 1, 2, [0, 3], [1, 0, 1], [2, 0, 1], false⟩
  weights := [1 / 2, 2, 1 / 3]

/-- Two rows that are not sorted. -/
def twoRows : WeightedCSR where
  csr := ⟨64, 2, 2, [0, 2, 3], [1, 0, 1], [], false⟩
  weights := [1, 3, -1]

lemma valid_repeatedColumn : repeatedColumn.Valid :=
  ⟨⟨rfl, rfl, by decide, rfl, by decide, .inr (by decide)⟩, rfl⟩

lemma valid_twoRows : twoRows.Valid :=
  ⟨⟨rfl, rfl, by decide, rfl, by decide, .inl rfl⟩, rfl⟩

/-- A matrix with itself, and with another one. -/
theorem sum_and_product_repeated :
    SumsRight 2 (asInserted _) (asInserted _) [repeatedColumn, repeatedColumn] ∧
      MultipliesRight 2 (asInserted _) (asInserted _) repeatedColumn twoRows := by
  obtain ⟨hsum, hmul⟩ := sum_and_product_iff 2 (asInserted _) (asInserted _)
  constructor
  · have hone : ∀ a ∈ [repeatedColumn, repeatedColumn], a = repeatedColumn := by simp
    refine (hsum _ ⟨fun a ha => ?_, fun a ha a' ha' => ?_⟩).2 ⟨List.cons_ne_nil _ _, fun a ha => ?_⟩
    · rw [hone a ha]
      exact valid_repeatedColumn
    · rw [hone a ha, hone a' ha']
      exact ⟨rfl, rfl, rfl⟩
    · rw [hone a ha]
      exact ⟨rfl, rfl⟩
  · exact (hmul _ _ valid_repeatedColumn valid_twoRows rfl rfl).2 ⟨rfl, rfl⟩

/-! ### A product that is too large -/

/-- A column of ones. -/
def onesColumn (n : ℕ) : WeightedCSR where
  csr := ⟨32, n, 1, List.range (n + 1), List.replicate n 0, [], false⟩
  weights := List.replicate n 1

/-- A row of ones. -/
def onesRow (n : ℕ) : WeightedCSR where
  csr := ⟨32, 1, n, [0, n], List.range n, [], false⟩
  weights := List.replicate n 1

lemma ptr_onesColumn {n i : ℕ} (hi : i ≤ n) : (onesColumn n).csr.ptr i = i := by
  show (List.range (n + 1)).getD i 0 = i
  rw [List.getD_eq_getElem?_getD, List.getElem?_range (Nat.lt_succ_of_le hi)]
  rfl

lemma valid_onesColumn (n : ℕ) : (onesColumn n).Valid where
  csr := by
    refine ⟨List.length_range, ptr_onesColumn n.zero_le, fun r hr => ?_, ?_, fun c hc => ?_, .inl rfl⟩
    · have hr : r < n := hr
      rw [ptr_onesColumn hr.le, ptr_onesColumn (Nat.succ_le_of_lt hr)]
      exact r.le_succ
    · exact (ptr_onesColumn le_rfl).trans List.length_replicate.symm
    · rw [List.eq_of_mem_replicate hc]
      exact Nat.one_pos
  weights := List.length_replicate.trans List.length_replicate.symm

lemma valid_onesRow (n : ℕ) : (onesRow n).Valid where
  csr := by
    refine ⟨rfl, rfl, fun r hr => ?_, List.length_range.symm, fun c => List.mem_range.1, .inl rfl⟩
    obtain rfl : r = 0 := Nat.lt_one_iff.1 hr
    exact n.zero_le
  weights := List.length_replicate.trans List.length_range.symm

lemma mulPattern_ones {n r c : ℕ} (hr : r < n) (hc : c < n) :
    MulPattern (onesColumn n) (onesRow n) r c := by
  refine ⟨0, Nat.one_pos, hasEntry_iff.2 ⟨r, ?_, ?_⟩, hasEntry_iff.2 ⟨c, ?_, ?_⟩⟩
  · rw [CSRMatrix.places, ptr_onesColumn hr.le, ptr_onesColumn (Nat.succ_le_of_lt hr),
      Nat.succ_eq_add_one, Nat.add_sub_cancel_left]
    exact List.mem_singleton_self r
  · show (List.replicate n 0).getD r 0 = 0
    rw [List.getD_eq_getElem?_getD, List.getElem?_replicate_of_lt hr]
    rfl
  · exact List.mem_range'_1.2 ⟨c.zero_le, (Nat.zero_add n).symm ▸ hc⟩
  · show (List.range n).getD c 0 = c
    rw [List.getD_eq_getElem?_getD, List.getElem?_range hc]
    rfl

lemma patternSize_ones (n : ℕ) :
    patternSize n n (MulPattern (onesColumn n) (onesRow n)) = n * n := by
  have hrow : (List.range n).map (fun r => (List.range n).countP fun c =>
      MulPattern (onesColumn n) (onesRow n) r c) = (List.range n).map fun _ => n := by
    apply List.map_congr_left
    intro r hr
    have hall := List.countP_eq_length.2 fun c hc => decide_eq_true
      (mulPattern_ones (List.mem_range.1 hr) (List.mem_range.1 hc))
    rw [List.length_range] at hall
    exact hall
  rw [patternSize, hrow, List.map_const', List.sum_replicate, List.length_range, smul_eq_mul]

/-- The product of a column and a row of 50000 ones has more entries than 32-bit ids. -/
theorem product_overflows :
    ¬MultipliesRight 8 (asInserted _) (asInserted _) (onesColumn 50000) (onesRow 50000) := by
  intro h
  have hfits := ((multipliesRight_iff 8 (asInserted _) (asInserted _) (valid_onesColumn 50000)
    (valid_onesRow 50000) rfl rfl).1 h).2
  have hsize : patternSize (onesColumn 50000).csr.numRows (onesRow 50000).csr.numCols
      (MulPattern (onesColumn 50000) (onesRow 50000)) = 50000 * 50000 := patternSize_ones 50000
  rw [hsize] at hfits
  exact absurd (of_decide_eq_true hfits rfl) (by norm_num)

end WeightedCSR

end DglAscend.Aten
