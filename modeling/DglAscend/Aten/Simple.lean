import DglAscend.Aten.Coalesce
import DglAscend.Lib.DisjointWrites

/-!
# Collapsing parallel edges

`CSRSort` and `CSRToSimple` of `cpu/csr_sort.cc` and `cpu/csr_to_simple.cc`.  The rows are sorted, a run of
equal columns becomes one entry, and the ids go through a table from the old edges to the new ones.
-/

namespace DglAscend.Aten

/-- `Repeat`. -/
def repeatEach (array repeats : List ℕ) : Except Fault (List ℕ) :=
  if array.length ≠ repeats.length then .error .raised else .ok (expandRuns (array.zip repeats))

/-- `Scatter`: `result[indices[i]] = array[i]` -/
def scatterTo (array indices : List ℕ) : Except Fault (List ℕ) :=
  if indices.any fun i => indices.length ≤ i then .error .outOfBounds
  else .ok (applyWrites (List.replicate indices.length 0) (indices.zip array))

/-- `indptr`, `indices` and `count` of the simple matrix. -/
structure SimpleVectors where
  indptr : List ℕ
  indices : List ℕ
  count : List ℕ
  deriving DecidableEq, Repr

/-- The simple matrix. -/
def SimpleVectors.toCSR (v : SimpleVectors) (bits numRows numCols : ℕ) : CSRMatrix where
  bits := bits
  numRows := numRows
  numCols := numCols
  indptr := v.indptr
  indices := v.indices
  data := []
  sorted := true

/-- What the loop over a row of `CSRToSimple` works on. -/
structure RunState where
  indices : List ℕ
  count : List ℕ
  cnt : ℕ
  dupCnt : ℕ
  deriving DecidableEq, Repr

namespace CSRMatrix

variable (csr : CSRMatrix)

/-- `CSRIsSorted`. -/
def isSorted : Bool :=
  if csr.nnz ≤ 1 then true
  else (List.range csr.numRows).all fun row =>
    (List.range' (csr.ptr row + 1) (csr.ptr (row + 1) - (csr.ptr row + 1))).all fun i =>
      csr.indices.getD (i - 1) 0 ≤ csr.indices.getD i 0

/-- `reorder_vec` of every row, sorted by the columns. -/
def sortedRows (sort : StdSort (ℕ × ℕ)) : List (List (ℕ × ℕ)) :=
  (List.range csr.numRows).map fun row =>
    sort.run (fun e1 e2 => e1.1 < e2.1) ((csr.rowEntries row).map Prod.snd)

/-- Columns and ids are written back row by row. -/
def writeBack (rows : List (List (ℕ × ℕ))) : CSRMatrix :=
  { csr with
    indices := rows.flatten.map Prod.fst
    data := rows.flatten.map Prod.snd
    sorted := true }

/-- `CSRSort`. -/
def sort (sort : StdSort (ℕ × ℕ)) : CSRMatrix :=
  if csr.sorted then csr
  else if csr.isSorted then { csr with sorted := true }
  else csr.writeBack (csr.sortedRows sort)

/-- One place behind the first one of a row. -/
def runStep (s : RunState) (j : ℕ) : RunState :=
  if csr.indices.getD (j - 1) 0 = csr.indices.getD j 0 then { s with dupCnt := s.dupCnt + 1 }
  else
    { indices := s.indices ++ [csr.indices.getD j 0]
      count := s.count ++ [s.dupCnt]
      cnt := s.cnt + 1
      dupCnt := 1 }

/-- One row. -/
def simpleRow (v : SimpleVectors) (i : ℕ) : SimpleVectors :=
  let last := v.indptr.getD i 0
  if csr.ptr i = csr.ptr (i + 1) then { v with indptr := v.indptr ++ [last] }
  else
    let s := (List.range' (csr.ptr i + 1) (csr.ptr (i + 1) - (csr.ptr i + 1))).foldl csr.runStep
      ⟨v.indices ++ [csr.indices.getD (csr.ptr i) 0], v.count, 1, 1⟩
    { indptr := v.indptr ++ [last + s.cnt]
      indices := s.indices
      count := s.count ++ [s.dupCnt] }

/-- The loop over the rows. -/
def simpleVectors : SimpleVectors :=
  (List.range (csr.indptr.length - 1)).foldl csr.simpleRow ⟨[0], [], []⟩

/-- `eids_remapped` -/
def remapEids (repeated : List ℕ) : Except Fault (List ℕ) :=
  if csr.hasData then scatterTo repeated csr.data else .ok repeated

/-- `CSRToSimple`: the simple matrix, the counts and the table from the old edges to the new ones. -/
def toSimple (sort : StdSort (ℕ × ℕ)) : Except Fault (CSRMatrix × List ℕ × List ℕ) := do
  let sortedCsr := (if csr.isSorted then csr else csr.sort sort).sort sort
  let v := sortedCsr.simpleVectors
  let newEids := List.range v.indices.length
  let repeated ← repeatEach newEids v.count
  let eidsRemapped ← sortedCsr.remapEids repeated
  return (v.toCSR csr.bits csr.numRows csr.numCols, v.count, eidsRemapped)

/-- The rows and columns of the entries. -/
def pairs : List (ℕ × ℕ) := csr.entries.map fun e => (e.1, e.2.1)

/-- Parallel edges are collapsed: the simple matrix has every pair of indices once, `counts` the number of
edges that a simple edge stands for, and `edgeMap` the simple edge of every edge. -/
structure Collapses (simple : CSRMatrix) (counts edgeMap : List ℕ) : Prop where
  numRows : simple.numRows = csr.numRows
  numCols : simple.numCols = csr.numCols
  valid : simple.Valid
  colsSorted : simple.ColsSorted
  nodup : simple.pairs.Nodup
  mem_iff : ∀ p, p ∈ simple.pairs ↔ p ∈ csr.pairs
  counts_length : counts.length = simple.nnz
  counts_eq : ∀ e ∈ simple.entries, counts[e.2.2]? = some (csr.pairs.count (e.1, e.2.1))
  edgeMap_length : edgeMap.length = csr.nnz
  edgeMap_eq : ∀ e ∈ csr.entries, ∃ e' ∈ simple.entries,
    edgeMap[e.2.2]? = some e'.2.2 ∧ e'.1 = e.1 ∧ e'.2.1 = e.2.1

end CSRMatrix

/-! ## The runs of a row -/

namespace SimpleVectors

/-- The vectors hold the runs of these rows. -/
structure Holds (v : SimpleVectors) (rows : List (List (ℕ × ℕ))) : Prop where
  indptr : v.indptr = (List.range (rows.length + 1)).map fun i => ((rows.take i).map List.length).sum
  indices : v.indices = rows.flatten.map Prod.fst
  count : v.count = rows.flatten.map Prod.snd

variable {v : SimpleVectors} {rows : List (List (ℕ × ℕ))}

lemma holds_start : Holds ⟨[0], [], []⟩ [] := ⟨rfl, rfl, rfl⟩

lemma Holds.last (h : v.Holds rows) : v.indptr.getD rows.length 0 = rows.flatten.length := by
  rw [h.indptr, List.getD_eq_getElem _ _ (by simp), List.getElem_map, List.getElem_range, List.take_length,
    List.length_flatten]

/-- **One row more.** -/
lemma Holds.pushRow (h : v.Holds rows) (row : List (ℕ × ℕ)) :
    Holds ⟨v.indptr ++ [v.indptr.getD rows.length 0 + row.length], v.indices ++ row.map Prod.fst,
      v.count ++ row.map Prod.snd⟩ (rows ++ [row]) where
  indptr := by
    have hlen : (rows ++ [row]).length = rows.length + 1 := by
      rw [List.length_append, List.length_singleton]
    have hall : (rows ++ [row]).take (rows.length + 1) = rows ++ [row] := by
      rw [← hlen, List.take_length]
    rw [hlen, List.range_succ, List.map_append, List.map_singleton, hall, ← List.length_flatten,
      List.flatten_append, List.flatten_singleton, List.length_append, ← h.last]
    show v.indptr ++ _ = _
    congr 1
    rw [h.indptr]
    apply List.map_congr_left
    intro i hi
    have hi : i ≤ rows.length := Nat.lt_succ_iff.1 (List.mem_range.1 hi)
    rw [List.take_append_of_le_length hi]
  indices := by
    rw [List.flatten_append, List.flatten_singleton, List.map_append, ← h.indices]
  count := by
    rw [List.flatten_append, List.flatten_singleton, List.map_append, ← h.count]

end SimpleVectors

namespace CSRMatrix

variable {csr : CSRMatrix}

/-- **A run goes on or another one begins.** -/
lemma foldl_runStep (csr : CSRMatrix) (indices count : List ℕ) (p n : ℕ) :
    ∃ rs k, IsRuns ((List.range' p (n + 1)).map fun j => csr.indices.getD j 0)
        (rs ++ [(csr.indices.getD (p + n) 0, k)]) ∧
      (List.range' (p + 1) n).foldl csr.runStep ⟨indices ++ [csr.indices.getD p 0], count, 1, 1⟩ =
        ⟨indices ++ (rs ++ [(csr.indices.getD (p + n) 0, k)]).map Prod.fst, count ++ rs.map Prod.snd,
          rs.length + 1, k⟩ := by
  induction n with
  | zero => exact ⟨[], 1, isRuns_nil.begin nofun, by simp⟩
  | succ n ih =>
      obtain ⟨rs, k, hrs, hfold⟩ := ih
      have hplace : p + 1 + n - 1 = p + n := by omega
      have hplace' : p + 1 + n = p + (n + 1) := by omega
      have hplaces : List.range' p (n + 1 + 1) = List.range' p (n + 1) ++ [p + (n + 1)] :=
        List.range'_1_concat
      have hlater : List.range' (p + 1) (n + 1) = List.range' (p + 1) n ++ [p + 1 + n] :=
        List.range'_1_concat
      rw [hplaces, hlater, List.foldl_append, hfold, List.foldl_cons, List.foldl_nil, List.map_append,
        runStep, hplace, hplace']
      by_cases heq : csr.indices.getD (p + n) 0 = csr.indices.getD (p + (n + 1)) 0
      · rw [if_pos heq]
        rw [heq] at hrs
        refine ⟨rs, k + 1, ?_, ?_⟩
        · exact hrs.grow
        · rw [heq]
          simp
      · rw [if_neg heq]
        refine ⟨rs ++ [(csr.indices.getD (p + n) 0, k)], 1, ?_, ?_⟩
        · apply hrs.begin
          rw [List.map_append, List.map_singleton, List.getLast?_concat, Ne, Option.some_inj]
          exact heq
        · simp

/-- **A row** becomes its runs. -/
lemma simpleRow_holds (h : csr.Framed) {v : SimpleVectors} {rows : List (List (ℕ × ℕ))}
    (hv : v.Holds rows) (hr : rows.length < csr.numRows) :
    ∃ row, IsRuns ((csr.places rows.length).map fun j => csr.indices.getD j 0) row ∧
      (csr.simpleRow v rows.length).Holds (rows ++ [row]) := by
  have hmono := h.ptr_mono _ hr
  rw [simpleRow]
  by_cases hempty : csr.ptr rows.length = csr.ptr (rows.length + 1)
  · have hplaces : csr.places rows.length = [] := by
      rw [places, ← hempty, Nat.sub_self]
      rfl
    rw [if_pos hempty, hplaces]
    have hrow := hv.pushRow []
    rw [List.map_nil, List.map_nil, List.append_nil, List.append_nil] at hrow
    exact ⟨[], isRuns_nil, hrow⟩
  · obtain ⟨n, hn⟩ : ∃ n, csr.ptr (rows.length + 1) = csr.ptr rows.length + 1 + n :=
      Nat.exists_eq_add_of_le (Nat.lt_of_le_of_ne hmono hempty)
    have hlen : csr.ptr (rows.length + 1) - (csr.ptr rows.length + 1) = n := by omega
    have hlen' : csr.ptr (rows.length + 1) - csr.ptr rows.length = n + 1 := by omega
    obtain ⟨rs, k, hrs, hfold⟩ := csr.foldl_runStep v.indices v.count (csr.ptr rows.length) n
    have hrow := hv.pushRow (rs ++ [(csr.indices.getD (csr.ptr rows.length + n) 0, k)])
    rw [if_neg hempty, places, hlen, hlen', hfold]
    refine ⟨_, hrs, ?_⟩
    rw [List.length_append, List.length_singleton, List.map_append, List.map_append, List.map_singleton,
      List.map_singleton, ← List.append_assoc, ← List.append_assoc] at hrow
    rw [List.map_append, List.map_singleton, ← List.append_assoc]
    exact hrow

/-- **The rows** become their runs. -/
theorem simpleVectors_holds (h : csr.Framed) (hlen : csr.indptr.length = csr.numRows + 1) :
    ∃ rows, rows.length = csr.numRows ∧ csr.simpleVectors.Holds rows ∧
      ∀ r (hr : r < rows.length), IsRuns ((csr.places r).map fun j => csr.indices.getD j 0) rows[r] := by
  have hrun (n : ℕ) (hn : n ≤ csr.numRows) :
      ∃ rows : List (List (ℕ × ℕ)), rows.length = n ∧
        ((List.range n).foldl csr.simpleRow ⟨[0], [], []⟩).Holds rows ∧
        ∀ r (hr : r < rows.length),
          IsRuns ((csr.places r).map fun j => csr.indices.getD j 0) rows[r] := by
    induction n with
    | zero => exact ⟨[], rfl, SimpleVectors.holds_start, nofun⟩
    | succ n ih =>
        obtain ⟨rows, rfl, hholds, hruns⟩ := ih (Nat.le_of_succ_le hn)
        obtain ⟨row, hrow, hholds'⟩ := simpleRow_holds h hholds hn
        refine ⟨rows ++ [row], by simp, ?_, fun r hr => ?_⟩
        · rw [List.range_succ, List.foldl_append]
          exact hholds'
        · rcases Nat.lt_or_ge r rows.length with hlt | hge
          · rw [List.getElem_append_left hlt]
            exact hruns r hlt
          · obtain rfl : r = rows.length := by
              rw [List.length_append, List.length_singleton] at hr
              omega
            rwa [List.getElem_concat_length rfl]
  rw [simpleVectors, hlen, Nat.add_sub_cancel]
  exact hrun csr.numRows le_rfl

/-! ## Sorting the rows -/

/-- The same matrix with the columns of every row in order. -/
structure SortedCopy (csr copy : CSRMatrix) : Prop where
  indptr : copy.indptr = csr.indptr
  numRows : copy.numRows = csr.numRows
  nnz : copy.nnz = csr.nnz
  flag : copy.sorted = true
  colsSorted : ∀ r < csr.numRows, ((copy.rowEntries r).map fun e => e.2.1).Pairwise (· ≤ ·)
  rows_perm : ∀ r < csr.numRows, (copy.rowEntries r).Perm (csr.rowEntries r)
  numbers : Numbers copy.data copy.nnz

lemma map_rowEntries (csr : CSRMatrix) (r : ℕ) :
    ((csr.rowEntries r).map fun e => e.2.1) = (csr.places r).map fun j => csr.indices.getD j 0 := by
  rw [rowEntries, List.map_map]
  rfl

lemma isSorted_rows (h : csr.Valid) (hs : csr.isSorted = true) {r : ℕ} (hr : r < csr.numRows) :
    ((csr.rowEntries r).map fun e => e.2.1).Pairwise (· ≤ ·) := by
  have hmono := h.ptr_mono r hr
  have hle : csr.ptr (r + 1) ≤ csr.nnz := by
    rw [← h.ptr_last]
    exact h.ptr_le hr le_rfl
  rw [map_rowEntries, places]
  rw [isSorted] at hs
  by_cases hone : csr.nnz ≤ 1
  · have hlen : csr.ptr (r + 1) - csr.ptr r ≤ 1 := by omega
    interval_cases hn : csr.ptr (r + 1) - csr.ptr r
    · exact List.Pairwise.nil
    · exact List.pairwise_singleton _ _
  · rw [if_neg hone, List.all_eq_true] at hs
    have hrow := List.all_eq_true.1 (hs r (List.mem_range.2 hr))
    rw [← List.isChain_iff_pairwise, List.isChain_iff_getElem]
    intro i hi
    rw [List.length_map, List.length_range'] at hi
    have hplace : csr.ptr r + i + 1 ∈
        List.range' (csr.ptr r + 1) (csr.ptr (r + 1) - (csr.ptr r + 1)) := by
      rw [List.mem_range'_1]
      omega
    have hstep := hrow _ hplace
    rw [Nat.add_sub_cancel, decide_eq_true_eq] at hstep
    rw [List.getElem_map, List.getElem_map, List.getElem_range', List.getElem_range', Nat.one_mul,
      Nat.one_mul]
    exact hstep

lemma length_sortedRows (csr : CSRMatrix) (sort : StdSort (ℕ × ℕ)) :
    (csr.sortedRows sort).length = csr.numRows := by
  rw [sortedRows, List.length_map, List.length_range]

lemma sortedRows_perm (csr : CSRMatrix) (sort : StdSort (ℕ × ℕ)) {r : ℕ}
    (hr : r < (csr.sortedRows sort).length) :
    (csr.sortedRows sort)[r].Perm ((csr.rowEntries r).map Prod.snd) := by
  simp only [sortedRows, List.getElem_map, List.getElem_range]
  exact sort.perm _ _

lemma sortedRows_sorted (csr : CSRMatrix) (sort : StdSort (ℕ × ℕ)) {r : ℕ}
    (hr : r < (csr.sortedRows sort).length) :
    ((csr.sortedRows sort)[r].map Prod.fst).Pairwise (· ≤ ·) := by
  simp only [sortedRows, List.getElem_map, List.getElem_range]
  rw [List.pairwise_map]
  apply (sort.sorted _ _ _ _).imp
  · intro e e' hle
    simpa using hle
  · intro e e' hlt
    simp only [decide_eq_true_eq] at hlt
    simp only [decide_eq_false_iff_not]
    omega
  · intro a b c hba hcb
    simp only [decide_eq_false_iff_not] at *
    omega

/-- The sorted rows are as long as they were. -/
lemma ofRows_sortedRows_ptr (h : csr.Valid) (sort : StdSort (ℕ × ℕ)) {r : ℕ} (hr : r ≤ csr.numRows) :
    (ofRows csr.bits csr.numCols (csr.sortedRows sort) true).ptr r = csr.ptr r := by
  have hlen := csr.length_sortedRows sort
  induction r with
  | zero => rw [framed_ofRows.ptr_zero, h.ptr_zero]
  | succ r ih =>
      have hr' : r < (csr.sortedRows sort).length := by omega
      have hmono := h.ptr_mono r hr
      rw [ofRows_ptr_succ hr', ih (by omega), (csr.sortedRows_perm sort hr').length_eq, List.length_map,
        rowEntries, List.length_map, places, List.length_range']
      omega

lemma rowEntries_writeBack (h : csr.Valid) (sort : StdSort (ℕ × ℕ)) {r : ℕ}
    (hr : r < (csr.sortedRows sort).length) :
    (csr.writeBack (csr.sortedRows sort)).rowEntries r =
      (csr.sortedRows sort)[r].map fun x => (r, x) := by
  have hr' : r < csr.numRows := csr.length_sortedRows sort ▸ hr
  have hrow : (ofRows csr.bits csr.numCols (csr.sortedRows sort) true).rowEntries r = _ :=
    rowEntries_ofRows hr
  rw [← hrow, rowEntries, rowEntries, places, places, ofRows_sortedRows_ptr h sort hr',
    ofRows_sortedRows_ptr h sort hr'.le]
  rfl

lemma rows_perm_writeBack (h : csr.Valid) (sort : StdSort (ℕ × ℕ)) {r : ℕ} (hr : r < csr.numRows) :
    ((csr.writeBack (csr.sortedRows sort)).rowEntries r).Perm (csr.rowEntries r) := by
  have hr' : r < (csr.sortedRows sort).length := (csr.length_sortedRows sort).symm ▸ hr
  have hself : ((csr.rowEntries r).map Prod.snd).map (fun x => (r, x)) = csr.rowEntries r := by
    rw [rowEntries, List.map_map, List.map_map]
    rfl
  have hperm := (csr.sortedRows_perm sort hr').map fun x => (r, x)
  rw [hself] at hperm
  rwa [rowEntries_writeBack h sort hr']

lemma writeBack_data (h : csr.Valid) (sort : StdSort (ℕ × ℕ)) :
    ((csr.sortedRows sort).flatten.map Prod.snd).Perm (List.range csr.nnz) := by
  have hflatten : (csr.sortedRows sort).flatten.Perm
      ((List.range csr.numRows).flatMap fun r => (csr.rowEntries r).map Prod.snd) := by
    rw [sortedRows, ← List.flatMap_def]
    exact List.Perm.flatMap_left _ fun r _ => sort.perm _ _
  refine (hflatten.map Prod.snd).trans ?_
  have hids : ((List.range csr.numRows).flatMap fun r => (csr.rowEntries r).map Prod.snd).map Prod.snd =
      csr.entries.map fun e => e.2.2 := by
    rw [entries, List.map_flatMap, List.map_flatMap]
    simp only [List.map_map]
    rfl
  rw [hids]
  exact h.ids_perm

/-- **Sorting.**  Every row keeps its entries. -/
theorem sort_sortedCopy (h : csr.Valid) (hcols : csr.ColsSorted) (sort : StdSort (ℕ × ℕ)) :
    csr.SortedCopy (csr.sort sort) := by
  rw [CSRMatrix.sort]
  by_cases hflag : csr.sorted = true
  · rw [if_pos hflag]
    exact ⟨rfl, rfl, rfl, hflag, hcols hflag, fun r _ => .refl _, h.numbers⟩
  rw [if_neg hflag]
  by_cases hs : csr.isSorted = true
  · rw [if_pos hs]
    exact ⟨rfl, rfl, rfl, rfl, fun r hr => isSorted_rows h hs hr, fun r _ => .refl _, h.numbers⟩
  rw [if_neg hs]
  have hids := writeBack_data h sort
  have hnnz : (csr.writeBack (csr.sortedRows sort)).nnz = csr.nnz := by
    have hlen := hids.length_eq
    rw [List.length_map, List.length_range] at hlen
    rw [← hlen]
    exact List.length_map _
  refine ⟨rfl, rfl, hnnz, rfl, fun r hr => ?_, fun r hr => rows_perm_writeBack h sort hr, Or.inr ?_⟩
  · have hr := (csr.length_sortedRows sort).symm ▸ hr
    have hsorted := csr.sortedRows_sorted sort hr
    rw [rowEntries_writeBack h sort hr, List.map_map]
    exact hsorted
  · rw [hnnz]
    exact hids

/-- The matrix is sorted once, whichever function finds that it has to be. -/
lemma sort_sort (csr : CSRMatrix) (sort : StdSort (ℕ × ℕ)) :
    (if csr.isSorted then csr else csr.sort sort).sort sort = csr.sort sort := by
  have hflag : (csr.sort sort).sorted = true := by
    rw [CSRMatrix.sort]
    split
    · assumption
    · split <;> rfl
  split
  · rfl
  · generalize csr.sort sort = copy at hflag ⊢
    rw [CSRMatrix.sort, if_pos hflag]

/-! ## The table -/

/-- Every value goes to the place that its index says. -/
lemma scatterTo_of_perm {array indices : List ℕ} {n : ℕ} (hperm : indices.Perm (List.range n))
    (hlen : array.length = n) :
    ∃ out, scatterTo array indices = .ok out ∧ out.length = n ∧
      ∀ p < n, out[indices.getD p 0]? = some (array.getD p 0) := by
  have hlen' : indices.length = n := by rw [hperm.length_eq, List.length_range]
  have hlt : ∀ i ∈ indices, i < n := fun i hi => List.mem_range.1 (hperm.mem_iff.1 hi)
  have hnodup : indices.Nodup := hperm.nodup_iff.2 List.nodup_range
  set target := (List.range n).map fun k => array.getD (indices.idxOf k) 0 with htarget
  have hvalues : ∀ w ∈ indices.zip array, target[w.1]? = some w.2 := by
    intro w hw
    obtain ⟨p, hp, rfl⟩ := List.getElem_of_mem hw
    rw [List.length_zip, hlen, hlen', Nat.min_self] at hp
    have hp' : p < indices.length := hlen'.symm ▸ hp
    have hp'' : p < array.length := hlen.symm ▸ hp
    have hplace := hlt _ (List.getElem_mem hp')
    rw [List.getElem_zip, htarget, List.getElem?_map, List.getElem?_range hplace, Option.map_some,
      hnodup.idxOf_getElem p hp', List.getD_eq_getElem _ _ hp'']
  have hinside : (indices.any fun i => indices.length ≤ i) = false := by
    rw [List.any_eq_false]
    intro i hi
    simpa [hlen'] using hlt i hi
  refine ⟨_, by rw [scatterTo, hinside]; rfl, ?_, fun p hp => ?_⟩
  · rw [length_applyWrites, List.length_replicate, hlen']
  · have hp' : p < indices.length := hlen'.symm ▸ hp
    have hp'' : p < array.length := hlen.symm ▸ hp
    have hmem : (indices[p], array[p]) ∈ indices.zip array := by
      rw [← List.getElem_zip (h := by simpa [hlen, hlen'] using hp)]
      exact List.getElem_mem _
    have hkey : indices[p] ∈ (indices.zip array).map Prod.fst := List.mem_map_of_mem hmem
    rw [List.getD_eq_getElem _ _ hp', List.getD_eq_getElem _ _ hp'',
      applyWrites_getElem? (by rw [List.length_replicate, htarget, List.length_map, List.length_range, hlen'])
        hvalues, if_pos hkey]
    exact hvalues _ hmem

/-! ## The simple matrix -/

/-- Without a data array the entry at a place has the place as its id. -/
lemma getElem?_entries (h : csr.Valid) (hd : csr.data = []) {e : Entry} {j : ℕ}
    (hj : csr.entries[j]? = some e) : e.2.2 = j ∧ csr.pairs[j]? = some (e.1, e.2.1) := by
  obtain ⟨hlt, hget⟩ := List.getElem?_eq_some_iff.1 hj
  have hids := h.map_entries
  rw [hd, map_idAt_nil] at hids
  have hid := congrArg (·[j]?) hids
  rw [List.getElem?_map, hj, List.getElem?_range (h.length_entries ▸ hlt)] at hid
  exact ⟨Option.some_inj.1 hid, by rw [pairs, List.getElem?_map, hj]; rfl⟩

section Runs

variable {v : SimpleVectors} {rows : List (List (ℕ × ℕ))} {bits numCols : ℕ}

/-- The runs of all rows, one behind the other. -/
def runsOfRows (rows : List (List (ℕ × ℕ))) : List ((ℕ × ℕ) × ℕ) :=
  (List.range rows.length).flatMap fun i => (rows.getD i []).map fun r => ((i, r.1), r.2)

lemma toCSR_eq (hv : v.Holds rows) :
    v.toCSR bits rows.length numCols = { ofRows bits numCols rows true with data := [] } := by
  rw [SimpleVectors.toCSR, hv.indptr, hv.indices, ofRows]

lemma framed_toCSR (hv : v.Holds rows) : (v.toCSR bits rows.length numCols).Framed := by
  rw [toCSR_eq hv]
  have hframed : (ofRows bits numCols rows true).Framed := framed_ofRows
  exact ⟨hframed.ptr_zero, hframed.ptr_mono, hframed.ptr_last⟩

lemma rowPairs_toCSR (hv : v.Holds rows) {r : ℕ} (hr : r < rows.length) :
    ((v.toCSR bits rows.length numCols).rowEntries r).map (fun e => (e.1, e.2.1)) =
      rows[r].map fun x => (r, x.1) := by
  have hrow : (ofRows bits numCols rows true).rowEntries r = rows[r].map fun x => (r, x) :=
    rowEntries_ofRows hr
  have hsame : (rowEntries { ofRows bits numCols rows true with data := [] } r).map
      (fun e => (e.1, e.2.1)) =
        ((ofRows bits numCols rows true).rowEntries r).map fun e => (e.1, e.2.1) := by
    rw [rowEntries, rowEntries, List.map_map, List.map_map]
    rfl
  rw [toCSR_eq hv, hsame, hrow, List.map_map]
  rfl

lemma pairs_toCSR (hv : v.Holds rows) :
    (v.toCSR bits rows.length numCols).pairs = (runsOfRows rows).map Prod.fst := by
  rw [pairs, entries, runsOfRows, List.map_flatMap, List.map_flatMap]
  apply List.flatMap_congr
  intro r hr
  have hr : r < rows.length := List.mem_range.1 hr
  rw [rowPairs_toCSR hv hr, List.getD_eq_getElem _ _ hr, List.map_map]
  rfl

lemma flatten_eq (rows : List (List (ℕ × ℕ))) :
    rows.flatten = (List.range rows.length).flatMap (rows.getD · []) := by
  rw [← List.flatMap_id, ← flatMap_range_getD rows id (d := [])]
  rfl

lemma count_runs (hv : v.Holds rows) : v.count = (runsOfRows rows).map Prod.snd := by
  rw [hv.count, runsOfRows, flatten_eq, List.map_flatMap, List.map_flatMap]
  apply List.flatMap_congr
  intro r _
  rw [List.map_map]
  rfl

lemma indices_runs (hv : v.Holds rows) : v.indices = (runsOfRows rows).map fun r => r.1.2 := by
  rw [hv.indices, runsOfRows, flatten_eq, List.map_flatMap, List.map_flatMap]
  apply List.flatMap_congr
  intro r _
  rw [List.map_map]
  rfl

end Runs

/-! ## Nothing is lost -/

namespace SortedCopy

variable {copy : CSRMatrix}

lemma ptr_eq (hc : csr.SortedCopy copy) (r : ℕ) : copy.ptr r = csr.ptr r := by
  rw [ptr, ptr, hc.indptr]

lemma framed (hc : csr.SortedCopy copy) (h : csr.Valid) : copy.Framed where
  ptr_zero := by rw [hc.ptr_eq, h.ptr_zero]
  ptr_mono r hr := by
    rw [hc.ptr_eq, hc.ptr_eq]
    exact h.ptr_mono r (hc.numRows ▸ hr)
  ptr_last := by rw [hc.numRows, hc.ptr_eq, h.ptr_last, hc.nnz]

lemma entries_perm (hc : csr.SortedCopy copy) : copy.entries.Perm csr.entries := by
  rw [entries, entries, hc.numRows]
  exact List.Perm.flatMap_left _ fun r hr => hc.rows_perm r (List.mem_range.1 hr)

lemma pairs_perm (hc : csr.SortedCopy copy) : copy.pairs.Perm csr.pairs := hc.entries_perm.map _

lemma pairs_eq (copy : CSRMatrix) : copy.pairs = (List.range copy.numRows).flatMap fun r =>
    ((copy.places r).map fun j => copy.indices.getD j 0).map fun c => (r, c) := by
  rw [pairs, entries, List.map_flatMap]
  apply List.flatMap_congr
  intro r _
  rw [rowEntries, List.map_map, List.map_map]
  rfl

/-- The sorted copy is sorted by rows, and by columns within a row. -/
lemma pairs_sorted (hc : csr.SortedCopy copy) : copy.pairs.Pairwise RowMajorLe := by
  rw [pairs_eq, List.pairwise_flatMap]
  constructor
  · intro r hr
    have hcols := hc.colsSorted r (hc.numRows ▸ List.mem_range.1 hr)
    rw [map_rowEntries] at hcols
    rw [List.pairwise_map]
    exact hcols.imp fun hle => Or.inr ⟨rfl, hle⟩
  · apply List.pairwise_lt_range.imp
    intro r r' hlt p hp q hq
    obtain ⟨c, -, rfl⟩ := List.mem_map.1 hp
    obtain ⟨c', -, rfl⟩ := List.mem_map.1 hq
    exact Or.inl hlt

end SortedCopy

/-- The table of the runs: the ids are repeated by the counts and scattered to the old ids. -/
lemma edgeMap_of_runs {copy : CSRMatrix} (hnumbers : Numbers copy.data copy.nnz) {repeated : List ℕ}
    (hlen : repeated.length = copy.nnz) :
    ∃ edgeMap, copy.remapEids repeated = .ok edgeMap ∧ edgeMap.length = copy.nnz ∧
      ∀ p < copy.nnz, edgeMap[idAt copy.data p]? = some (repeated.getD p 0) := by
  by_cases hd : copy.data = []
  · have hno : ¬ copy.hasData = true := by simpa [hasData] using hd
    refine ⟨repeated, by rw [remapEids, if_neg hno], hlen, fun p hp => ?_⟩
    have hp : p < repeated.length := hlen.symm ▸ hp
    rw [idAt, if_pos hd, List.getD_eq_getElem _ _ hp, List.getElem?_eq_getElem hp]
  · have hyes : copy.hasData = true := by simpa [hasData] using hd
    obtain ⟨out, hout, hlen', hget⟩ := scatterTo_of_perm (hnumbers.resolve_left hd) hlen
    refine ⟨out, by rw [remapEids, if_pos hyes, hout], hlen', fun p hp => ?_⟩
    rw [idAt, if_neg hd]
    exact hget p hp

/-- **Collapsing parallel edges.**  Whatever the order of the columns, and whether or not there is a data
array, every pair of indices becomes one edge with its multiplicity, and the table leads every edge to the
one it has become. -/
theorem toSimple_collapses (csr : CSRMatrix) (h : csr.Valid) (hcols : csr.ColsSorted)
    (sort : StdSort (ℕ × ℕ)) : ∃ simple counts edgeMap,
      csr.toSimple sort = .ok (simple, counts, edgeMap) ∧ csr.Collapses simple counts edgeMap := by
  have hc := sort_sortedCopy h hcols sort
  have htwice := csr.sort_sort sort
  rw [toSimple, htwice]
  generalize csr.sort sort = copy at hc
  have hlen : copy.indptr.length = copy.numRows + 1 := by rw [hc.indptr, hc.numRows, h.indptr_length]
  obtain ⟨rows, hnum, hv, hruns⟩ := simpleVectors_holds (hc.framed h) hlen
  generalize copy.simpleVectors = v at hv
  have hnum' : rows.length = csr.numRows := hnum.trans hc.numRows
  set keys := (runsOfRows rows).map Prod.fst with hkeysdef
  -- The runs of the rows are the runs of the sorted entries.
  have hruns' : IsRuns copy.pairs (runsOfRows rows) := by
    rw [SortedCopy.pairs_eq, runsOfRows, ← hnum]
    apply isRuns_flatMap
    intro r hr
    rw [List.getD_eq_getElem _ _ hr]
    exact hruns r hr
  have hkeys := (hruns'.pairwise_iff (R := RowMajorLe) (fun a => Or.inr ⟨rfl, le_rfl⟩)
    (fun _ _ _ => RowMajorLe.trans) fun _ _ => RowMajorLe.antisymm).2 hc.pairs_sorted
  have hnodup : keys.Nodup := hkeys.imp fun hab => hab.2
  have hmem (p : ℕ × ℕ) : p ∈ keys ↔ p ∈ csr.pairs := by
    rw [hruns'.mem_iff, hc.pairs_perm.mem_iff]
  have hindices : v.indices.length = (runsOfRows rows).length := by
    rw [indices_runs hv, List.length_map]
  have hcount : v.count.length = (runsOfRows rows).length := by rw [count_runs hv, List.length_map]
  -- The table.
  set repeated := expandRuns ((List.range v.indices.length).zip v.count) with hrep
  have hrepeat : repeatEach (List.range v.indices.length) v.count = .ok repeated := by
    have hsame : ¬ (List.range v.indices.length).length ≠ v.count.length := by
      rw [List.length_range, hindices, hcount, not_not]
    rw [repeatEach, if_neg hsame]
  have hnumbers : repeated.map (fun i => keys.getD i (0, 0)) = copy.pairs := by
    rw [hrep, hindices, count_runs hv]
    exact hruns'.numbers (0, 0)
  have hlast : copy.pairs.length = copy.nnz := by
    rw [pairs, List.length_map, (hc.framed h).length_entries]
  have hreplen : repeated.length = copy.nnz := by
    rw [← hlast, ← hnumbers, List.length_map]
  obtain ⟨edgeMap, hmap, hmaplen, hmapget⟩ := edgeMap_of_runs hc.numbers hreplen
  rw [hrepeat]
  dsimp only [bind, Except.bind]
  rw [hmap]
  -- The simple matrix.
  set simple := v.toCSR csr.bits csr.numRows csr.numCols with hsimple
  have hpairs : simple.pairs = keys := by rw [hsimple, ← hnum', pairs_toCSR hv]
  have hframed : simple.Framed := by
    rw [hsimple, ← hnum']
    exact framed_toCSR hv
  have hvalid : simple.Valid := by
    refine ⟨?_, hframed.ptr_zero, hframed.ptr_mono, hframed.ptr_last, fun c hc' => ?_, Or.inl rfl⟩
    · show v.indptr.length = csr.numRows + 1
      rw [hv.indptr, List.length_map, List.length_range, hnum']
    · have hc' : c ∈ v.indices := hc'
      rw [indices_runs hv] at hc'
      obtain ⟨r, hr, rfl⟩ := List.mem_map.1 hc'
      obtain ⟨e, he, heq⟩ := List.mem_map.1 ((hmem r.1).1 (List.mem_map_of_mem hr))
      rw [← heq]
      exact (h.entry_lt he).2
  have hplace {j : ℕ} {e : Entry} (hj : simple.entries[j]? = some e) :
      e.2.2 = j ∧ keys[j]? = some (e.1, e.2.1) := by
    have hget := getElem?_entries hvalid rfl hj
    rwa [hpairs] at hget
  refine ⟨simple, v.count, edgeMap, rfl, ?_⟩
  exact {
    numRows := rfl
    numCols := rfl
    valid := hvalid
    colsSorted := by
      intro _ r hr
      have hr' : r < rows.length := hnum'.symm ▸ hr
      have hcolumns := hc.colsSorted r hr
      rw [map_rowEntries] at hcolumns
      have hrow := ((hruns r hr').pairwise_iff (R := (· ≤ ·)) le_refl (fun _ _ _ => le_trans)
        fun _ _ => le_antisymm).2 hcolumns
      have hcols' : (simple.rowEntries r).map (fun e => e.2.1) = rows[r].map Prod.fst := by
        have hrowPairs : ((v.toCSR csr.bits rows.length csr.numCols).rowEntries r).map
            (fun e => (e.1, e.2.1)) = rows[r].map fun x => (r, x.1) := rowPairs_toCSR hv hr'
        have hpair := congrArg (List.map Prod.snd) hrowPairs
        rw [List.map_map, List.map_map, hnum'] at hpair
        exact hpair
      rw [hcols']
      exact hrow.imp fun hab => hab.1
    nodup := by rwa [hpairs]
    mem_iff := fun p => by rw [hpairs, hmem]
    counts_length := by
      show v.count.length = v.indices.length
      rw [hindices, hcount]
    counts_eq := by
      intro e he
      obtain ⟨j, hj, hget⟩ := List.getElem_of_mem he
      obtain ⟨hid, hkey⟩ := hplace (List.getElem?_eq_some_iff.2 ⟨hj, hget⟩)
      rw [hid, count_runs hv, List.getElem?_map]
      rw [hkeysdef, List.getElem?_map, Option.map_eq_some_iff] at hkey
      obtain ⟨r, hr, hre⟩ := hkey
      rw [hr, Option.map_some, ← hruns'.count_eq hnodup (List.mem_of_getElem? hr), hre,
        hc.pairs_perm.count_eq]
    edgeMap_length := by rw [hmaplen, hc.nnz]
    edgeMap_eq := by
      intro e he
      obtain ⟨p, hp, hget⟩ := List.getElem_of_mem (hc.entries_perm.mem_iff.2 he)
      have hget : copy.entries[p]? = some e := List.getElem?_eq_some_iff.2 ⟨hp, hget⟩
      rw [(hc.framed h).length_entries] at hp
      have hid := congrArg (·[p]?) (hc.framed h).map_entries
      rw [List.getElem?_map, hget, List.getElem?_map, List.getElem?_range hp] at hid
      have hp' : p < repeated.length := hreplen.symm ▸ hp
      have hlt : repeated[p] < (runsOfRows rows).length := by
        rw [← hcount]
        apply lt_of_mem_numbers
        rw [hcount, ← hindices]
        exact List.getElem_mem hp'
      have hrun := congrArg (·[p]?) hnumbers
      rw [List.getElem?_map, List.getElem?_eq_getElem hp', pairs, List.getElem?_map, hget] at hrun
      have hlt' : repeated[p] < simple.entries.length := by
        rw [hframed.length_entries]
        show repeated[p] < v.indices.length
        rwa [hindices]
      obtain ⟨hid', hkey⟩ := hplace (List.getElem?_eq_getElem hlt')
      refine ⟨_, List.getElem_mem hlt', ?_, ?_⟩
      · have hid : e.2.2 = idAt copy.data p := Option.some_inj.1 hid
        rw [hid, hmapget p hp, List.getD_eq_getElem _ _ hp', hid']
      · have hrun : keys.getD repeated[p] (0, 0) = (e.1, e.2.1) := Option.some_inj.1 hrun
        rw [List.getD_eq_getElem?_getD, hkey] at hrun
        exact Prod.ext_iff.1 hrun }

/-- Two rows, the first of which has a parallel edge in between. -/
def parallelEdges : CSRMatrix where
  bits := 64
  numRows := 2
  numCols := 2
  indptr := [0, 3, 4]
  indices := [1, 0, 1, 0]
  data := [2, 0, 3, 1]
  sorted := false

theorem toSimple_parallelEdges : ∃ simple counts edgeMap,
    parallelEdges.toSimple (stableSort (ℕ × ℕ)) = .ok (simple, counts, edgeMap) ∧
      parallelEdges.Collapses simple counts edgeMap :=
  toSimple_collapses parallelEdges ⟨rfl, rfl, by decide, rfl, by decide, Or.inr (by decide)⟩ nofun
    (stableSort (ℕ × ℕ))

end CSRMatrix

end DglAscend.Aten
