import DglAscend.Aten.Slices
import DglAscend.Lib.DisjointWrites
import DglAscend.Lib.StaticChunks
import DglAscend.Lib.StdAlgorithms

/-!
# Disjoint unions

`DisjointUnionCoo` of `array/cpu/disjoint_union.cc`, which computes its offsets in the type of the ids,
and `COOSliceContiguousChunk` of `array/union_partition.cc`, which cuts a matrix out of the union.
-/

namespace DglAscend.Aten

/-- A matrix as its arrays; `none` is a place that was not written. -/
structure RawCOO where
  numRows : ℤ
  numCols : ℤ
  row : List (Option ℤ)
  col : List (Option ℤ)
  data : List (Option ℤ)
  rowSorted : Bool
  colSorted : Bool
  deriving DecidableEq

namespace RawCOO

/-- The arrays of a matrix. -/
def ofCoo (coo : COOMatrix) : RawCOO where
  numRows := coo.numRows
  numCols := coo.numCols
  row := coo.row.map fun (r : ℕ) => some (r : ℤ)
  col := coo.col.map fun (c : ℕ) => some (c : ℤ)
  data := coo.data.map fun (d : ℕ) => some (d : ℤ)
  rowSorted := coo.rowSorted
  colSorted := coo.colSorted

end RawCOO

/-- What is read behind the end of a list of matrices. -/
def emptyCoo : COOMatrix := ⟨64, 0, 0, [], [], [], true, true⟩

/-- `CumSum` with a zero in front. -/
def cumSum (bits : ℕ) (xs : List ℤ) : List ℤ := xs.scanl (fun sum x => castId bits (sum + x)) 0

/-! ## `DisjointUnionCoo` -/

namespace COOMatrix

variable (coos : List COOMatrix) (bits numThreads : ℕ)

/-- `_ComputePrefixSums`, for one of the three arrays. -/
def computePrefixSums (f : COOMatrix → ℕ) : Except Fault (List ℤ) :=
  (parallelFor numThreads coos.length fun i =>
    .ok (castId bits (f (coos.getD i emptyCoo)))).map (cumSum bits)

/-- The writes for one of the matrices: a place, and what is written to `res_src_data`, to
`res_dst_data` and, with data, to `res_dat_data`. -/
def unionWrites (coo : COOMatrix) (src dst elm : ℤ) : List (ℤ × ℤ × ℤ × ℤ) :=
  (List.range coo.nnz).map fun (j : ℕ) =>
    (castId bits (elm + j), castId bits (coo.row.getD j 0 + src), castId bits (coo.col.getD j 0 + dst),
      castId bits ((if coo.hasData then coo.data.getD j 0 else j : ℕ) + elm))

/-- The arrays that the writes leave. -/
def storeUnion (numRows numCols size : ℤ) (hasData rowSorted colSorted : Bool)
    (writes : List (ℤ × ℤ × ℤ × ℤ)) : Except Fault RawCOO :=
  if size < 0 then .error .raised
  else if writes.all fun w => 0 ≤ w.1 ∧ w.1 < size then
    let cells := applyWrites (List.replicate size.toNat none)
      (writes.map fun w => (w.1.toNat, some w.2))
    .ok ⟨numRows, numCols, cells.map (Option.map Prod.fst), cells.map (Option.map fun x => x.2.1),
      if hasData then cells.map (Option.map fun x => x.2.2) else [], rowSorted, colSorted⟩
  else .error .outOfBounds

/-- `DisjointUnionCoo`: the writes arrive as the threads are scheduled. -/
def disjointUnionCoo (schedule : AnyOrder (ℤ × ℤ × ℤ × ℤ)) : Except Fault RawCOO :=
  match coos with
  | [] => .error .outOfBounds
  | first :: _ =>
    if coos.all fun coo => coo.bits = first.bits then do
      let prefixSrc ← computePrefixSums coos first.bits numThreads numRows
      let prefixDst ← computePrefixSums coos first.bits numThreads numCols
      let prefixElm ← computePrefixSums coos first.bits numThreads nnz
      let writes ← (parallelFor numThreads coos.length fun i =>
        .ok (unionWrites first.bits (coos.getD i emptyCoo) (prefixSrc.getD i 0) (prefixDst.getD i 0)
          (prefixElm.getD i 0))).map List.flatten
      storeUnion (prefixSrc.getD coos.length 0) (prefixDst.getD coos.length 0)
        (prefixElm.getD coos.length 0) (coos.any hasData) (coos.all rowSorted) (coos.all colSorted)
        (schedule.run writes)
    else .error .raised

end COOMatrix

/-! ## `COOSliceContiguousChunk` -/

/-- `IndexSelect` of a range. -/
def indexSelectRange (array : List (Option ℤ)) (first last : ℕ) : Except Fault (List (Option ℤ)) :=
  if ¬first < array.length then .error .raised
  else if ¬last ≤ array.length then .error .raised
  else if ¬first ≤ last then .error .raised
  else .ok ((array.drop first).take (last - first))

/-- An offset is taken from the ids of an array. -/
def subOffset (bits : ℕ) (array : List (Option ℤ)) (offset : ℕ) : List (Option ℤ) :=
  array.map (Option.map fun x => castId bits (x - offset))

/-- The part of an array for a chunk, if it is selected at all. -/
def selectChunk (selected : Bool) (bits : ℕ) (array : List (Option ℤ)) (edgeRange : ℕ × ℕ)
    (offset : ℕ) : Except Fault (List (Option ℤ)) :=
  if selected then (indexSelectRange array edgeRange.1 edgeRange.2).map (subOffset bits · offset)
  else .ok []

/-- `COOSliceContiguousChunk`: the row and column arrays are read for a chunk that has edges, the
data array wherever there is one. -/
def RawCOO.sliceContiguousChunk (m : RawCOO) (bits : ℕ) (edgeRange srcRange dstRange : ℕ × ℕ) :
    Except Fault RawCOO := do
  let row ← selectChunk (edgeRange.2 ≠ edgeRange.1) bits m.row edgeRange srcRange.1
  let col ← selectChunk (edgeRange.2 ≠ edgeRange.1) bits m.col edgeRange dstRange.1
  let data ← selectChunk (m.data ≠ []) bits m.data edgeRange edgeRange.1
  return ⟨srcRange.2 - srcRange.1, dstRange.2 - dstRange.1, row, col, data, m.rowSorted, m.colSorted⟩

/-! ## What the union is -/

/-- What the matrices before one of them have together. -/
def before (f : COOMatrix → ℕ) (coos : List COOMatrix) (i : ℕ) : ℕ := ((coos.take i).map f).sum

/-- An entry in the union. -/
def Entry.shift (rows cols edges : ℕ) (e : Entry) : Entry := (e.1 + rows, e.2.1 + cols, e.2.2 + edges)

/-- An entry as it is written. -/
def Entry.toInts (e : Entry) : ℤ × ℤ × ℤ := (e.1, e.2.1, e.2.2)

namespace COOMatrix

/-- The entries of all matrices on the diagonal. -/
def diagonal (coos : List COOMatrix) : List Entry :=
  (List.range coos.length).flatMap fun i => (coos.getD i emptyCoo).entries.map
    (.shift (before numRows coos i) (before numCols coos i) (before nnz coos i))

/-- The result holds a matrix with these entries, and says the truth about their order. -/
def Holds (result : RawCOO) (bits numRows numCols : ℕ) (es : List Entry) : Prop :=
  ∃ u : COOMatrix, result = .ofCoo u ∧ u.Valid ∧ u.ColsSorted ∧ u.bits = bits ∧ u.numRows = numRows ∧
    u.numCols = numCols ∧ u.entries = es

/-- The union is block diagonal, and has data if a matrix has. -/
structure IsUnion (coos : List COOMatrix) (bits : ℕ) (result : RawCOO) : Prop where
  holds : Holds result bits (coos.map numRows).sum (coos.map numCols).sum (diagonal coos)
  data : result.data ≠ [] ↔ ∃ coo ∈ coos, coo.hasData = true
  rowSorted : result.rowSorted = coos.all COOMatrix.rowSorted
  colSorted : result.colSorted = coos.all COOMatrix.colSorted

/-- Cut out at its offsets, every matrix is there again. -/
def SlicesBack (coos : List COOMatrix) (bits : ℕ) (result : RawCOO) : Prop :=
  ∀ i < coos.length, ∃ chunk,
    result.sliceContiguousChunk bits (before nnz coos i, before nnz coos (i + 1))
        (before numRows coos i, before numRows coos (i + 1))
        (before numCols coos i, before numCols coos (i + 1)) = .ok chunk ∧
      Holds chunk bits (coos.getD i emptyCoo).numRows (coos.getD i emptyCoo).numCols
        (coos.getD i emptyCoo).entries

/-- The matrices of the list are valid and have ids of one type. -/
structure Mates (coos : List COOMatrix) (bits : ℕ) : Prop where
  bits_eq : ∀ coo ∈ coos, coo.bits = bits
  valid : ∀ coo ∈ coos, coo.Valid
  colsSorted : ∀ coo ∈ coos, coo.ColsSorted

end COOMatrix

/-! ## Offsets -/

lemma castId_add_left (bits : ℕ) (x y : ℤ) : castId bits (castId bits x + y) = castId bits (x + y) := by
  unfold castId
  by_cases hbits : bits = 32
  · rw [if_pos hbits, if_pos hbits, if_pos hbits, Int.bmod_add_bmod]
  · rw [if_neg hbits, if_neg hbits, if_neg hbits]

lemma castId_add_right (bits : ℕ) (x y : ℤ) : castId bits (x + castId bits y) = castId bits (x + y) := by
  rw [Int.add_comm, castId_add_left, Int.add_comm]

lemma castId_zero (bits : ℕ) : castId bits 0 = 0 := by
  have hfits : noOverflow bits 0 = true := decide_eq_true fun _ => Nat.zero_le _
  exact castId_eq hfits

variable {i x : ℕ}

/-- The sums that `CumSum` leaves, of numbers that are converted before. -/
lemma getD_scanl_castId (bits : ℕ) (xs : List ℕ) (start : ℕ) (hi : i ≤ xs.length) :
    ((xs.map fun (x : ℕ) => castId bits x).scanl (fun sum x => castId bits (sum + x))
        (castId bits start)).getD i 0 = castId bits (start + (xs.take i).sum : ℕ) := by
  induction xs generalizing start i with
  | nil =>
      obtain rfl : i = 0 := Nat.le_zero.1 hi
      rfl
  | cons x xs ih =>
      rw [List.map_cons, List.scanl_cons]
      cases i with
      | zero => rfl
      | succ i =>
          rw [List.getD_cons_succ, castId_add_left, castId_add_right, ← Nat.cast_add,
            ih _ (Nat.le_of_succ_le_succ hi), List.take_succ_cons, List.sum_cons, Nat.add_assoc]

section Before

variable {f : COOMatrix → ℕ} {coos : List COOMatrix}

lemma before_zero (f : COOMatrix → ℕ) (coos : List COOMatrix) : before f coos 0 = 0 := rfl

lemma before_length (f : COOMatrix → ℕ) (coos : List COOMatrix) :
    before f coos coos.length = (coos.map f).sum := by
  rw [before, List.take_length]

lemma before_succ (hi : i < coos.length) :
    before f coos (i + 1) = before f coos i + f (coos.getD i emptyCoo) := by
  rw [before, before, List.take_succ_eq_append_getElem hi, List.map_append, List.sum_append,
    List.map_singleton, List.sum_singleton, List.getD_eq_getElem _ _ hi]

lemma before_mono {i j : ℕ} (hij : i ≤ j) : before f coos i ≤ before f coos j :=
  ((List.take_sublist_take_left hij).map f).sum_le_sum fun _ _ => Nat.zero_le _

lemma before_le (f : COOMatrix → ℕ) (coos : List COOMatrix) (i : ℕ) :
    before f coos i ≤ (coos.map f).sum :=
  ((List.take_sublist _ _).map f).sum_le_sum fun _ _ => Nat.zero_le _

end Before

namespace COOMatrix

variable {coos : List COOMatrix} {bits numThreads : ℕ}

/-- The offsets that are computed for the matrices. -/
lemma exists_computePrefixSums (bits : ℕ) (hthreads : 0 < numThreads) (f : COOMatrix → ℕ) :
    ∃ sums, computePrefixSums coos bits numThreads f = .ok sums ∧
      ∀ i ≤ coos.length, sums.getD i 0 = castId bits (before f coos i) := by
  have hloop : parallelFor numThreads coos.length (fun i =>
      (.ok (castId bits (f (coos.getD i emptyCoo))) : Except Fault ℤ)) =
        .ok ((coos.map f).map fun (x : ℕ) => castId bits x) := by
    rw [parallelFor_eq hthreads, mapM_ok (g := fun i => castId bits (f (coos.getD i emptyCoo)))
      fun _ _ => rfl]
    refine congrArg Except.ok (List.ext_getElem ?_ fun i hi hi' => ?_)
    · rw [List.length_map, List.length_map, List.length_map, List.length_range]
    · rw [List.length_map, List.length_range] at hi
      rw [List.getElem_map, List.getElem_map, List.getElem_map, List.getElem_range,
        List.getD_eq_getElem _ _ hi]
  refine ⟨_, by rw [computePrefixSums, hloop]; rfl, fun i hi => ?_⟩
  have hsum := getD_scanl_castId bits (coos.map f) 0 (by rwa [List.length_map] : i ≤ _)
  rw [Nat.cast_zero, castId_zero, Nat.zero_add, ← List.map_take] at hsum
  exact hsum

/-! ## The entries of the union -/

lemma mem_getD (hi : i < coos.length) : coos.getD i emptyCoo ∈ coos := by
  rw [List.getD_eq_getElem _ _ hi]
  exact List.getElem_mem hi

lemma map_ids_entries (coo : COOMatrix) :
    coo.entries.map (fun e => e.2.2) = (List.range coo.nnz).map (idAt coo.data) := by
  rw [entries, List.map_map]
  rfl

lemma map_ids_diagonal (coos : List COOMatrix) : (diagonal coos).map (fun e => e.2.2) =
    (List.range coos.length).flatMap fun i =>
      ((List.range (coos.getD i emptyCoo).nnz).map (idAt (coos.getD i emptyCoo).data)).map
        (· + before nnz coos i) := by
  rw [diagonal, List.map_flatMap]
  congr 1
  funext i
  rw [← map_ids_entries, List.map_map, List.map_map]
  rfl

/-- The places of the union, matrix by matrix. -/
lemma flatMap_places_union (coos : List COOMatrix) :
    ((List.range coos.length).flatMap fun i =>
      (List.range (coos.getD i emptyCoo).nnz).map (· + before nnz coos i)) =
        List.range (coos.map nnz).sum := by
  rw [← before_length, ← slotItems_eq (before_zero nnz coos) (n := coos.length) fun i hi => by
    rw [before_succ hi]; exact Nat.le_add_right _ _]
  refine List.flatMap_congr fun i hi => ?_
  rw [before_succ (List.mem_range.1 hi), Nat.add_sub_cancel_left, List.range'_eq_map_range]
  exact List.map_congr_left fun j _ => Nat.add_comm _ _

lemma Mates.ids_perm (h : Mates coos bits) :
    ((diagonal coos).map fun e => e.2.2).Perm (List.range (coos.map nnz).sum) := by
  rw [map_ids_diagonal, ← flatMap_places_union]
  refine List.Perm.flatMap_left _ fun i hi => ?_
  exact ((h.valid _ (mem_getD (List.mem_range.1 hi))).numbers.map_idAt).map _

lemma Mates.length_diagonal (h : Mates coos bits) : (diagonal coos).length = (coos.map nnz).sum := by
  have hlen := h.ids_perm.length_eq
  rwa [List.length_map, List.length_range] at hlen

lemma map_ids_of_null (hnull : ∀ coo ∈ coos, coo.data = []) :
    (diagonal coos).map (fun e => e.2.2) = List.range (coos.map nnz).sum := by
  rw [map_ids_diagonal, ← flatMap_places_union]
  refine List.flatMap_congr fun i hi => ?_
  rw [hnull _ (mem_getD (List.mem_range.1 hi)), map_idAt_nil]

/-- An entry of the union lies between the offsets of its matrix. -/
lemma Mates.mem_shift (h : Mates coos bits) (hi : i < coos.length) {e : Entry}
    (he : e ∈ (coos.getD i emptyCoo).entries.map
      (.shift (before numRows coos i) (before numCols coos i) (before nnz coos i))) :
    (before numRows coos i ≤ e.1 ∧ e.1 < before numRows coos (i + 1)) ∧
      before numCols coos i ≤ e.2.1 ∧ e.2.1 < before numCols coos (i + 1) := by
  obtain ⟨e, hin, rfl⟩ := List.mem_map.1 he
  obtain ⟨hrow, hcol⟩ := (h.valid _ (mem_getD hi)).entry_lt hin
  rw [before_succ hi, before_succ hi, Nat.add_comm _ (numRows _), Nat.add_comm _ (numCols _)]
  exact ⟨⟨Nat.le_add_left _ _, Nat.add_lt_add_right hrow _⟩, Nat.le_add_left _ _,
    Nat.add_lt_add_right hcol _⟩

/-- An order of the entries that holds within the matrices and from each one to the later ones. -/
lemma Mates.pairwise_diagonal (h : Mates coos bits) {R : Entry → Entry → Prop}
    (hsame : ∀ i < coos.length, (coos.getD i emptyCoo).entries.Pairwise fun e e' =>
      R (e.shift (before numRows coos i) (before numCols coos i) (before nnz coos i))
        (e'.shift (before numRows coos i) (before numCols coos i) (before nnz coos i)))
    (hlater : ∀ e e' : Entry, e.1 < e'.1 → R e e') : (diagonal coos).Pairwise R := by
  rw [diagonal, List.pairwise_flatMap]
  refine ⟨fun i hi => ?_, ?_⟩
  · rw [List.pairwise_map]
    exact hsame i (List.mem_range.1 hi)
  · refine List.pairwise_lt_range.imp_of_mem fun {i j} hi hj hij e he e' he' => hlater e e' ?_
    have hlow := (h.mem_shift (List.mem_range.1 hi) he).1.2
    have hhigh := (h.mem_shift (List.mem_range.1 hj) he').1.1
    have hmono : before numRows coos (i + 1) ≤ before numRows coos j := before_mono hij
    omega

lemma null_of_not_any (hany : coos.any hasData = false) : ∀ coo ∈ coos, coo.data = [] := by
  intro coo hcoo
  have hnone := List.any_eq_false.1 hany coo hcoo
  by_contra hne
  exact hnone (decide_eq_true hne)

/-- Entries whose ids are their places need no data array. -/
lemma entries_of_null {coo : COOMatrix} {es : List Entry} (hrow : coo.row = es.map Prod.fst)
    (hcol : coo.col = es.map fun e => e.2.1) (hdata : coo.data = [])
    (hids : (es.map fun e => e.2.2) = List.range es.length) : coo.entries = es := by
  have hnnz : coo.nnz = es.length := by rw [nnz, hrow, List.length_map]
  apply List.ext_getElem
  · rw [entries, List.length_map, List.length_range, hnnz]
  · intro k hk hk'
    have hid : es[k].2.2 = k := by
      have hget := congrArg (fun l : List ℕ => l[k]?) hids
      simp only [List.getElem?_map, List.getElem?_eq_getElem hk', Option.map_some,
        List.getElem?_range hk', Option.some.injEq] at hget
      exact hget
    simp only [entries, List.getElem_map, List.getElem_range]
    rw [entry, hrow, hcol, hdata, idAt, if_pos rfl, List.getD_eq_getElem _ _ (by rwa [List.length_map]), List.getElem_map,
      List.getD_eq_getElem _ _ (by rwa [List.length_map]), List.getElem_map]
    exact Prod.ext rfl (Prod.ext rfl hid.symm)

/-- The arrays of entries, whose ids need a data array or not. -/
def ofParts (bits numRows numCols : ℕ) (es : List Entry) (withData rowSorted colSorted : Bool) :
    COOMatrix where
  bits := bits
  numRows := numRows
  numCols := numCols
  row := es.map Prod.fst
  col := es.map fun e => e.2.1
  data := if withData then es.map fun e => e.2.2 else []
  rowSorted := rowSorted
  colSorted := colSorted

section OfParts

variable {numRows numCols : ℕ} {es : List Entry} {withData rowSorted colSorted : Bool}

lemma entries_ofParts
    (hids : withData = false → (es.map fun e => e.2.2) = List.range es.length) :
    (ofParts bits numRows numCols es withData rowSorted colSorted).entries = es := by
  cases withData with
  | true => exact entries_of_arrays rfl rfl rfl
  | false => exact entries_of_null rfl rfl rfl (hids rfl)

lemma valid_ofParts (hperm : (es.map fun e => e.2.2).Perm (List.range es.length))
    (hlt : ∀ e ∈ es, e.1 < numRows ∧ e.2.1 < numCols)
    (hsorted : rowSorted = true → es.Pairwise fun e e' => e.1 ≤ e'.1) :
    (ofParts bits numRows numCols es withData rowSorted colSorted).Valid where
  col_length := (List.length_map _).trans (List.length_map _).symm
  row_lt r hr := by
    obtain ⟨e, he, rfl⟩ := List.mem_map.1 hr
    exact (hlt e he).1
  col_lt c hc := by
    obtain ⟨e, he, rfl⟩ := List.mem_map.1 hc
    exact (hlt e he).2
  numbers := by
    cases withData with
    | false => exact .inl rfl
    | true =>
        have hnnz : (ofParts bits numRows numCols es true rowSorted colSorted).nnz = es.length :=
          List.length_map _
        rw [hnnz]
        exact .inr hperm
  sorted hflag := List.pairwise_map.2 (hsorted hflag)

end OfParts

/-- The union as a matrix. -/
def unionOf (coos : List COOMatrix) (bits : ℕ) : COOMatrix :=
  ofParts bits (coos.map numRows).sum (coos.map numCols).sum (diagonal coos) (coos.any hasData)
    (coos.all rowSorted) (coos.all colSorted)

lemma Mates.entries_unionOf (h : Mates coos bits) : (unionOf coos bits).entries = diagonal coos :=
  entries_ofParts fun hany => by rw [map_ids_of_null (null_of_not_any hany), h.length_diagonal]

lemma Mates.valid_unionOf (h : Mates coos bits) : (unionOf coos bits).Valid := by
  refine valid_ofParts (h.length_diagonal ▸ h.ids_perm) (fun e he => ?_) fun hsorted => ?_
  · obtain ⟨i, hi, he⟩ := List.mem_flatMap.1 he
    obtain ⟨hrow, hcol⟩ := h.mem_shift (List.mem_range.1 hi) he
    exact ⟨hrow.2.trans_le (before_le _ _ _), hcol.2.trans_le (before_le _ _ _)⟩
  · refine h.pairwise_diagonal (fun i hi => ?_) fun e e' hlt => hlt.le
    have hrow := (h.valid _ (mem_getD hi)).sorted (List.all_eq_true.1 hsorted _ (mem_getD hi))
    rw [← map_fst_entries, List.pairwise_map] at hrow
    exact hrow.imp fun hle => Nat.add_le_add_right hle _

lemma Mates.colsSorted_unionOf (h : Mates coos bits) : (unionOf coos bits).ColsSorted := by
  intro hsorted
  rw [h.entries_unionOf]
  refine h.pairwise_diagonal (fun i hi => ?_) fun e e' hlt heq => absurd heq hlt.ne
  have hcols := h.colsSorted _ (mem_getD hi) (List.all_eq_true.1 hsorted _ (mem_getD hi))
  refine hcols.imp fun {e e'} hle heq => ?_
  exact Nat.add_le_add_right (hle (Nat.add_right_cancel heq)) _

/-! ## Sums that fit -/

/-- The sums of the rows, columns and entries are ids. -/
structure SumsFit (coos : List COOMatrix) (bits : ℕ) : Prop where
  numRows : noOverflow bits (coos.map numRows).sum = true
  numCols : noOverflow bits (coos.map numCols).sum = true
  nnz : noOverflow bits (coos.map nnz).sum = true

/-- The id of an entry, as the loop over the entries computes it. -/
lemma ite_hasData (coo : COOMatrix) (j : ℕ) :
    (if coo.hasData then coo.data.getD j 0 else j) = idAt coo.data j := by
  by_cases hdata : coo.data = []
  · rw [idAt, if_pos hdata, if_neg fun hhas : coo.hasData = true => of_decide_eq_true hhas hdata]
  · rw [idAt, if_neg hdata, if_pos (show coo.hasData = true from decide_eq_true hdata)]

lemma noOverflow_add_before {f : COOMatrix → ℕ} (hfit : noOverflow bits (coos.map f).sum = true)
    (hi : i < coos.length) (hx : x < f (coos.getD i emptyCoo)) :
    noOverflow bits (x + before f coos i) = true := by
  have hnext := before_le f coos (i + 1)
  rw [before_succ hi] at hnext
  exact noOverflow_mono (by omega) hfit

lemma castId_add_before {f : COOMatrix → ℕ} (hfit : noOverflow bits (coos.map f).sum = true)
    (hi : i < coos.length) (hx : x < f (coos.getD i emptyCoo)) :
    castId bits (x + before f coos i) = x + before f coos i := by
  exact_mod_cast castId_eq (noOverflow_add_before hfit hi hx)

section Writes

variable (h : Mates coos bits) (hfit : SumsFit coos bits) {i : ℕ} (hi : i < coos.length)
include h hfit hi

lemma Mates.unionWrites_eq :
    unionWrites bits (coos.getD i emptyCoo) (before numRows coos i) (before numCols coos i)
        (before nnz coos i) =
      ((List.range (coos.getD i emptyCoo).nnz).map fun j => (before nnz coos i + j,
          (((coos.getD i emptyCoo).entry j).shift (before numRows coos i) (before numCols coos i)
            (before nnz coos i)).toInts)).map fun w => ((w.1 : ℤ), w.2) := by
  have hvalid := h.valid _ (mem_getD hi)
  rw [unionWrites, List.map_map]
  refine List.map_congr_left fun j hj => ?_
  obtain ⟨hrow, hcol⟩ : (coos.getD i emptyCoo).row.getD j 0 < (coos.getD i emptyCoo).numRows ∧
      (coos.getD i emptyCoo).col.getD j 0 < (coos.getD i emptyCoo).numCols :=
    hvalid.entry_lt (List.mem_map.2 ⟨j, hj, rfl⟩)
  have hid : idAt (coos.getD i emptyCoo).data j < (coos.getD i emptyCoo).nnz :=
    List.mem_range.1 (hvalid.numbers.map_idAt.subset (List.mem_map_of_mem hj))
  have hplace := castId_add_before hfit.nnz hi (List.mem_range.1 hj)
  rw [Int.add_comm] at hplace
  rw [ite_hasData, hplace, castId_add_before hfit.numRows hi hrow,
    castId_add_before hfit.numCols hi hcol, castId_add_before hfit.nnz hi hid]
  exact Prod.ext (Nat.cast_add _ _).symm rfl

end Writes

/-- The entries of the union, each written to its place. -/
def diagonalWrites (coos : List COOMatrix) : List (ℕ × ℤ × ℤ × ℤ) :=
  (List.range coos.length).flatMap fun i => (List.range (coos.getD i emptyCoo).nnz).map fun j =>
    (before nnz coos i + j,
      (((coos.getD i emptyCoo).entry j).shift (before numRows coos i) (before numCols coos i)
        (before nnz coos i)).toInts)

lemma fills_diagonalWrites (coos : List COOMatrix) :
    Fills (diagonalWrites coos) ((diagonal coos).map Entry.toInts) := by
  have hblock (i : ℕ) (_ : i < coos.length) := fills_range (fun j =>
    (((coos.getD i emptyCoo).entry j).shift (before numRows coos i) (before numCols coos i)
      (before nnz coos i)).toInts) (coos.getD i emptyCoo).nnz
  have hfills := fills_flatMap hblock (before_zero nnz coos) fun i hi => by
    rw [before_succ hi, List.length_map, List.length_range]
  convert hfills using 1
  · refine List.flatMap_congr fun i _ => ?_
    rw [List.map_map]
    rfl
  · rw [diagonal, List.map_flatMap]
    refine List.flatMap_congr fun i _ => ?_
    rw [entries, List.map_map, List.map_map]
    rfl

variable {ws : List (ℤ × ℤ × ℤ × ℤ)}

lemma storeUnion_eq {cells : List (ℕ × ℤ × ℤ × ℤ)} {target : List (ℤ × ℤ × ℤ)}
    (hfills : Fills cells target) (hperm : ws.Perm (cells.map fun w => ((w.1 : ℤ), w.2)))
    (numRows numCols : ℤ) (hasData rowSorted colSorted : Bool) :
    storeUnion numRows numCols target.length hasData rowSorted colSorted ws =
      .ok ⟨numRows, numCols, target.map fun x => some x.1, target.map fun x => some x.2.1,
        if hasData then target.map fun x => some x.2.2 else [], rowSorted, colSorted⟩ := by
  have hin : ∀ w ∈ ws, 0 ≤ w.1 ∧ w.1 < target.length := by
    intro w hw
    obtain ⟨c, hc, rfl⟩ := List.mem_map.1 (hperm.subset hw)
    have hlt := List.mem_range.1 (hfills.places.subset (List.mem_map_of_mem hc))
    exact ⟨Int.natCast_nonneg _, Int.ofNat_lt.2 hlt⟩
  have hwrites : (ws.map fun w => (w.1.toNat, some w.2)).Perm (cells.map fun w => (w.1, some w.2)) := by
    refine (hperm.map _).trans (List.Perm.of_eq ?_)
    rw [List.map_map]
    rfl
  have hcells : applyWrites (List.replicate target.length none)
      (ws.map fun w => (w.1.toNat, some w.2)) = target.map some :=
    ((hfills.map some).perm hwrites).applyWrites_eq (by rw [List.length_replicate, List.length_map])
  rw [storeUnion, if_neg (Int.not_lt.2 (Int.natCast_nonneg _)),
    if_pos (List.all_eq_true.2 fun w hw => decide_eq_true (hin w hw)), Int.toNat_natCast, hcells]
  simp only [List.map_map]
  rfl

/-- The union, with the sums that are computed. -/
lemma Mates.disjointUnionCoo_eq_storeUnion (h : Mates coos bits) (hthreads : 0 < numThreads)
    (hne : coos ≠ []) (schedule : AnyOrder (ℤ × ℤ × ℤ × ℤ)) :
    disjointUnionCoo coos numThreads schedule =
      storeUnion (castId bits (coos.map numRows).sum) (castId bits (coos.map numCols).sum)
        (castId bits (coos.map nnz).sum) (coos.any hasData) (coos.all rowSorted) (coos.all colSorted)
        (schedule.run ((List.range coos.length).flatMap fun i =>
          unionWrites bits (coos.getD i emptyCoo) (castId bits (before numRows coos i))
            (castId bits (before numCols coos i)) (castId bits (before nnz coos i)))) := by
  obtain ⟨first, rest, rfl⟩ := List.exists_cons_of_ne_nil hne
  have hfirst : first.bits = bits := h.bits_eq first List.mem_cons_self
  have hsame : (first :: rest).all (fun coo => coo.bits = first.bits) = true :=
    List.all_eq_true.2 fun coo hcoo => decide_eq_true ((h.bits_eq coo hcoo).trans hfirst.symm)
  have hsums (f : COOMatrix → ℕ) : ∃ sums, computePrefixSums (first :: rest) bits numThreads f =
      .ok sums ∧ ∀ i ≤ (first :: rest).length, sums.getD i 0 = castId bits (before f (first :: rest) i) :=
    exists_computePrefixSums bits hthreads f
  obtain ⟨srcs, hsrcs, hsrc⟩ := hsums numRows
  obtain ⟨dsts, hdsts, hdst⟩ := hsums numCols
  obtain ⟨elms, helms, helm⟩ := hsums nnz
  rw [disjointUnionCoo, if_pos hsame, hfirst, hsrcs, hdsts, helms]
  simp only [bind, Except.bind]
  rw [parallelFor_eq hthreads, mapM_ok (g := fun i => unionWrites bits
    ((first :: rest).getD i emptyCoo) (srcs.getD i 0) (dsts.getD i 0) (elms.getD i 0)) fun _ _ => rfl,
    hsrc _ le_rfl, hdst _ le_rfl, helm _ le_rfl, before_length, before_length, before_length]
  show storeUnion _ _ _ _ _ _ (schedule.run (List.map _ _).flatten) = _
  rw [← List.flatMap_def]
  congr 2
  refine List.flatMap_congr fun i hi => ?_
  have hle := (List.mem_range.1 hi).le
  rw [hsrc i hle, hdst i hle, helm i hle]

/-- **The union is computed** if the sums fit. -/
theorem Mates.disjointUnionCoo_eq (h : Mates coos bits) (hthreads : 0 < numThreads) (hne : coos ≠ [])
    (hfit : SumsFit coos bits) (schedule : AnyOrder (ℤ × ℤ × ℤ × ℤ)) :
    disjointUnionCoo coos numThreads schedule = .ok (.ofCoo (unionOf coos bits)) := by
  have hwrites : ((List.range coos.length).flatMap fun i =>
      unionWrites bits (coos.getD i emptyCoo) (castId bits (before numRows coos i))
        (castId bits (before numCols coos i)) (castId bits (before nnz coos i))) =
      (diagonalWrites coos).map fun w => ((w.1 : ℤ), w.2) := by
    rw [diagonalWrites, List.map_flatMap]
    refine List.flatMap_congr fun i hi => ?_
    rw [castId_eq (noOverflow_mono (before_le _ _ _) hfit.numRows),
      castId_eq (noOverflow_mono (before_le _ _ _) hfit.numCols),
      castId_eq (noOverflow_mono (before_le _ _ _) hfit.nnz)]
    exact h.unionWrites_eq hfit (List.mem_range.1 hi)
  have hlen : ((diagonal coos).map Entry.toInts).length = (coos.map nnz).sum := by
    rw [List.length_map, h.length_diagonal]
  have hstore := storeUnion_eq (fills_diagonalWrites coos) (schedule.perm _)
    (coos.map numRows).sum (coos.map numCols).sum (coos.any hasData) (coos.all rowSorted)
    (coos.all colSorted)
  rw [hlen] at hstore
  rw [h.disjointUnionCoo_eq_storeUnion hthreads hne, hwrites, castId_eq hfit.numRows,
    castId_eq hfit.numCols, castId_eq hfit.nnz, hstore, RawCOO.ofCoo, unionOf, ofParts]
  simp only [List.map_map]
  by_cases hany : coos.any hasData = true
  · simp only [if_pos hany, List.map_map]
    rfl
  · simp only [if_neg hany, List.map_nil]
    rfl

lemma Valid.nnz_ne_zero {coo : COOMatrix} (h : coo.Valid) (hdata : coo.hasData = true) :
    coo.nnz ≠ 0 := by
  intro hzero
  have hne : coo.data ≠ [] := of_decide_eq_true hdata
  exact hne (List.eq_nil_of_length_eq_zero ((h.numbers.length hne).trans hzero))

lemma Mates.data_unionOf (h : Mates coos bits) :
    (unionOf coos bits).data ≠ [] ↔ ∃ coo ∈ coos, coo.hasData = true := by
  rw [← List.any_eq_true, unionOf, ofParts]
  cases hany : coos.any hasData with
  | false => exact ⟨fun hne => absurd rfl hne, nofun⟩
  | true =>
      refine ⟨fun _ => rfl, fun _ hnil => ?_⟩
      obtain ⟨coo, hcoo, hdata⟩ := List.any_eq_true.1 hany
      have hsum : (coos.map nnz).sum = 0 := by
        rw [← h.length_diagonal, List.map_eq_nil_iff.1 hnil, List.length_nil]
      exact (h.valid _ hcoo).nnz_ne_zero hdata
        (List.sum_eq_zero_iff.1 hsum _ (List.mem_map_of_mem hcoo))

lemma Mates.isUnion (h : Mates coos bits) : IsUnion coos bits (.ofCoo (unionOf coos bits)) where
  holds := ⟨_, rfl, h.valid_unionOf, h.colsSorted_unionOf, rfl, rfl, rfl, h.entries_unionOf⟩
  data := by
    rw [RawCOO.ofCoo, Ne, List.map_eq_nil_iff]
    exact h.data_unionOf
  rowSorted := rfl
  colSorted := rfl

/-- What is stored has the sums as its shape. -/
lemma storeUnion_shape {numRows numCols size : ℤ} {hasData rowSorted colSorted : Bool}
    {result : RawCOO}
    (hresult : storeUnion numRows numCols size hasData rowSorted colSorted ws = .ok result) :
    result.numRows = numRows ∧ result.numCols = numCols ∧ (result.row.length : ℤ) = size := by
  rw [storeUnion] at hresult
  split at hresult
  · cases hresult
  · rename_i hsize
    split at hresult
    · cases hresult
      refine ⟨rfl, rfl, ?_⟩
      rw [List.length_map, length_applyWrites, List.length_replicate,
        Int.toNat_of_nonneg (Int.not_lt.1 hsize)]
    · cases hresult

/-- A result that is the union shows that the sums fit. -/
lemma Mates.sumsFit (h : Mates coos bits) (hthreads : 0 < numThreads) (hne : coos ≠ [])
    {schedule : AnyOrder (ℤ × ℤ × ℤ × ℤ)} {result : RawCOO}
    (hresult : disjointUnionCoo coos numThreads schedule = .ok result)
    (hunion : IsUnion coos bits result) : SumsFit coos bits := by
  obtain ⟨u, rfl, -, -, -, hrows, hcols, hentries⟩ := hunion.holds
  rw [h.disjointUnionCoo_eq_storeUnion hthreads hne] at hresult
  obtain ⟨hnumRows, hnumCols, hsize⟩ := storeUnion_shape hresult
  have hnnz : (RawCOO.ofCoo u).row.length = (coos.map nnz).sum := by
    rw [← h.length_diagonal, ← hentries, entries, List.length_map, List.length_range]
    exact List.length_map _
  refine ⟨noOverflow_of_castId (hnumRows.symm.trans ?_), noOverflow_of_castId (hnumCols.symm.trans ?_),
    noOverflow_of_castId (hsize.symm.trans ?_)⟩
  · exact congrArg Nat.cast hrows
  · exact congrArg Nat.cast hcols
  · exact congrArg Nat.cast hnnz

/-! ## Slices of the union -/

/-- The entries of a matrix with their places in the union. -/
def shifted (coos : List COOMatrix) (i : ℕ) : List Entry :=
  (coos.getD i emptyCoo).entries.map
    (.shift (before numRows coos i) (before numCols coos i) (before nnz coos i))

lemma length_shifted (coos : List COOMatrix) (i : ℕ) :
    (shifted coos i).length = (coos.getD i emptyCoo).nnz := by
  rw [shifted, List.length_map, entries, List.length_map, List.length_range]

lemma length_flatMap_shifted (hi : i ≤ coos.length) :
    ((List.range i).flatMap (shifted coos)).length = before nnz coos i := by
  induction i with
  | zero => rfl
  | succ i ih =>
      rw [List.range_succ, List.flatMap_append, List.length_append, ih (Nat.le_of_succ_le hi),
        List.flatMap_singleton, length_shifted, before_succ hi]

/-- The entries of a matrix, cut out of the union. -/
lemma take_drop_diagonal (hi : i < coos.length) :
    ((diagonal coos).drop (before nnz coos i)).take (before nnz coos (i + 1) - before nnz coos i) =
      shifted coos i := by
  have hcut := take_drop_flatMap (List.range coos.length) (shifted coos) (List.getElem?_range hi)
  rw [List.take_range, Nat.min_eq_left hi.le, length_flatMap_shifted hi.le, length_shifted] at hcut
  rw [before_succ hi, Nat.add_sub_cancel_left]
  exact hcut

lemma indexSelectRange_map {α : Type*} (es : List α) (f : α → Option ℤ) {first last : ℕ}
    (hfirst : first < es.length) (hle : first ≤ last) (hlast : last ≤ es.length) :
    indexSelectRange (es.map f) first last = .ok (((es.drop first).take (last - first)).map f) := by
  rw [indexSelectRange, List.length_map, if_neg (not_not.2 hfirst), if_neg (not_not.2 hlast),
    if_neg (not_not.2 hle), List.map_take, List.map_drop]

section Chunk

variable (h : Mates coos bits) (hfit : SumsFit coos bits) {i : ℕ} (hi : i < coos.length)
include hi

/-- One array of a chunk: its offset is taken off again. -/
lemma indexSelectRange_union (g : Entry → ℕ) {offset : ℕ}
    (hshift : ∀ e : Entry, g (e.shift (before numRows coos i) (before numCols coos i)
      (before nnz coos i)) = g e + offset)
    (hids : ∀ e ∈ (coos.getD i emptyCoo).entries, noOverflow bits (g e) = true)
    (hlen : (diagonal coos).length = (coos.map nnz).sum)
    (hlt : before nnz coos i < (coos.map nnz).sum) :
    selectChunk true bits (((diagonal coos).map g).map fun (x : ℕ) => some (x : ℤ))
        (before nnz coos i, before nnz coos (i + 1)) offset =
      .ok (((coos.getD i emptyCoo).entries.map g).map fun (x : ℕ) => some (x : ℤ)) := by
  rw [selectChunk, if_pos rfl, List.map_map, indexSelectRange_map _ _ (hlen ▸ hlt)
    (before_mono (Nat.le_succ i)) (hlen ▸ before_le _ _ _), take_drop_diagonal hi]
  refine congrArg Except.ok ?_
  show subOffset bits (List.map _ (shifted coos i)) offset = _
  rw [subOffset, shifted, List.map_map, List.map_map, List.map_map]
  refine List.map_congr_left fun e he => congrArg some ?_
  show castId bits ((g (e.shift _ _ _) : ℤ) - offset) = g e
  rw [hshift, Nat.cast_add, Int.add_sub_cancel, castId_eq (hids e he)]

/-- A chunk without edges does not look at the array. -/
lemma selectChunk_union (g : Entry → ℕ) {offset : ℕ}
    (hshift : ∀ e : Entry, g (e.shift (before numRows coos i) (before numCols coos i)
      (before nnz coos i)) = g e + offset)
    (hids : ∀ e ∈ (coos.getD i emptyCoo).entries, noOverflow bits (g e) = true)
    (hlen : (diagonal coos).length = (coos.map nnz).sum) :
    selectChunk (before nnz coos (i + 1) ≠ before nnz coos i) bits
        (((diagonal coos).map g).map fun (x : ℕ) => some (x : ℤ))
        (before nnz coos i, before nnz coos (i + 1)) offset =
      .ok (((coos.getD i emptyCoo).entries.map g).map fun (x : ℕ) => some (x : ℤ)) := by
  have hnext := before_succ (f := nnz) hi
  by_cases hempty : (coos.getD i emptyCoo).nnz = 0
  · rw [decide_eq_false (by omega), entries, hempty]
    rfl
  · have hle := before_le nnz coos (i + 1)
    rw [decide_eq_true (by omega), indexSelectRange_union hi g hshift hids hlen (by omega)]

include h

lemma Mates.perm_ids : ((coos.getD i emptyCoo).entries.map fun e => e.2.2).Perm
    (List.range (coos.getD i emptyCoo).entries.length) := by
  have hlen : (coos.getD i emptyCoo).entries.length = (coos.getD i emptyCoo).nnz := by
    rw [entries, List.length_map, List.length_range]
  rw [map_ids_entries, hlen]
  exact (h.valid _ (mem_getD hi)).numbers.map_idAt

/-- What is cut out at the offsets of a matrix holds the matrix. -/
lemma Mates.holds_chunk : Holds (.ofCoo (ofParts bits (coos.getD i emptyCoo).numRows
      (coos.getD i emptyCoo).numCols (coos.getD i emptyCoo).entries (coos.any hasData)
      (coos.all rowSorted) (coos.all colSorted))) bits (coos.getD i emptyCoo).numRows
    (coos.getD i emptyCoo).numCols (coos.getD i emptyCoo).entries := by
  have hvalid := h.valid _ (mem_getD hi)
  have hentries : (ofParts bits (coos.getD i emptyCoo).numRows (coos.getD i emptyCoo).numCols
      (coos.getD i emptyCoo).entries (coos.any hasData) (coos.all rowSorted)
      (coos.all colSorted)).entries = (coos.getD i emptyCoo).entries := by
    refine entries_ofParts fun hany => ?_
    rw [map_ids_entries, null_of_not_any hany _ (mem_getD hi), map_idAt_nil, entries, List.length_map,
      List.length_range]
  refine ⟨_, rfl, valid_ofParts (h.perm_ids hi) (fun e he => hvalid.entry_lt he) fun hsorted => ?_,
    fun hsorted => ?_, rfl, rfl, rfl, hentries⟩
  · have hrow := hvalid.sorted (List.all_eq_true.1 hsorted _ (mem_getD hi))
    rwa [← map_fst_entries, List.pairwise_map] at hrow
  · rw [hentries]
    exact h.colsSorted _ (mem_getD hi) (List.all_eq_true.1 hsorted _ (mem_getD hi))

include hfit

/-- **A chunk of the union**, if the data array reaches to its edges. -/
theorem Mates.sliceContiguousChunk_eq
    (hreach : coos.any hasData = true → before nnz coos i < (coos.map nnz).sum) :
    (RawCOO.ofCoo (unionOf coos bits)).sliceContiguousChunk bits
        (before nnz coos i, before nnz coos (i + 1)) (before numRows coos i, before numRows coos (i + 1))
        (before numCols coos i, before numCols coos (i + 1)) =
      .ok (.ofCoo (ofParts bits (coos.getD i emptyCoo).numRows (coos.getD i emptyCoo).numCols
        (coos.getD i emptyCoo).entries (coos.any hasData) (coos.all rowSorted)
        (coos.all colSorted))) := by
  have hvalid := h.valid _ (mem_getD hi)
  have hid (e : Entry) (he : e ∈ (coos.getD i emptyCoo).entries) :
      e.2.2 < (coos.getD i emptyCoo).nnz := by
    have hlt := List.mem_range.1 ((h.perm_ids hi).subset (List.mem_map_of_mem he))
    rwa [entries, List.length_map, List.length_range] at hlt
  have hrows (e : Entry) (he : e ∈ (coos.getD i emptyCoo).entries) : noOverflow bits e.1 = true :=
    noOverflow_mono (Nat.le_add_right _ _) (noOverflow_add_before hfit.numRows hi (hvalid.entry_lt he).1)
  have hcols (e : Entry) (he : e ∈ (coos.getD i emptyCoo).entries) : noOverflow bits e.2.1 = true :=
    noOverflow_mono (Nat.le_add_right _ _) (noOverflow_add_before hfit.numCols hi (hvalid.entry_lt he).2)
  have hids (e : Entry) (he : e ∈ (coos.getD i emptyCoo).entries) : noOverflow bits e.2.2 = true :=
    noOverflow_mono (Nat.le_add_right _ _) (noOverflow_add_before hfit.nnz hi (hid e he))
  have hrow : selectChunk (before nnz coos (i + 1) ≠ before nnz coos i) bits
      (RawCOO.ofCoo (unionOf coos bits)).row (before nnz coos i, before nnz coos (i + 1))
      (before numRows coos i) = .ok _ :=
    selectChunk_union hi Prod.fst (fun _ => rfl) hrows h.length_diagonal
  have hcol : selectChunk (before nnz coos (i + 1) ≠ before nnz coos i) bits
      (RawCOO.ofCoo (unionOf coos bits)).col (before nnz coos i, before nnz coos (i + 1))
      (before numCols coos i) = .ok _ :=
    selectChunk_union hi (fun e => e.2.1) (fun _ => rfl) hcols h.length_diagonal
  have hdata : selectChunk ((RawCOO.ofCoo (unionOf coos bits)).data ≠ []) bits
      (RawCOO.ofCoo (unionOf coos bits)).data (before nnz coos i, before nnz coos (i + 1))
      (before nnz coos i) = .ok ((if coos.any hasData then
        (coos.getD i emptyCoo).entries.map fun e => e.2.2 else []).map fun (x : ℕ) => some (x : ℤ)) := by
    have hnull : (RawCOO.ofCoo (unionOf coos bits)).data ≠ [] ↔ coos.any hasData = true := by
      rw [RawCOO.ofCoo, Ne, List.map_eq_nil_iff, List.any_eq_true]
      exact h.data_unionOf
    cases hany : coos.any hasData with
    | false =>
        rw [decide_eq_false (by rw [hnull, hany]; exact Bool.false_ne_true)]
        rfl
    | true =>
        have harray : (RawCOO.ofCoo (unionOf coos bits)).data =
            ((diagonal coos).map fun e => e.2.2).map fun (x : ℕ) => some (x : ℤ) := by
          rw [RawCOO.ofCoo, unionOf, ofParts, hany]
          rfl
        rw [decide_eq_true (hnull.2 hany), harray]
        exact indexSelectRange_union hi (fun e => e.2.2) (fun _ => rfl) hids h.length_diagonal
          (hreach hany)
  have hshape (f : COOMatrix → ℕ) : (before f coos (i + 1) : ℤ) - before f coos i =
      f (coos.getD i emptyCoo) := by
    rw [before_succ hi, Nat.cast_add]
    omega
  rw [RawCOO.sliceContiguousChunk]
  simp only [hshape]
  rw [hrow, hcol, hdata]
  rfl

end Chunk

/-- A data array that ends before the edges of a chunk stops the cut. -/
lemma sliceContiguousChunk_raised {m : RawCOO} {first last : ℕ} {srcRange dstRange : ℕ × ℕ}
    (hdata : m.data ≠ []) (hend : m.data.length ≤ first) {chunk : RawCOO} :
    m.sliceContiguousChunk bits (first, last) srcRange dstRange ≠ .ok chunk := by
  have hselect : selectChunk (m.data ≠ []) bits m.data (first, last) first = .error .raised := by
    rw [selectChunk, if_pos (decide_eq_true hdata), indexSelectRange, if_pos (Nat.not_lt.2 hend)]
    rfl
  rw [RawCOO.sliceContiguousChunk]
  simp only [hselect]
  cases selectChunk (last ≠ first) bits m.row (first, last) srcRange.1 with
  | error => nofun
  | ok =>
      cases selectChunk (last ≠ first) bits m.col (first, last) dstRange.1 with
      | error => nofun
      | ok => nofun

lemma Mates.length_data_unionOf (h : Mates coos bits) (hany : coos.any hasData = true) :
    (RawCOO.ofCoo (unionOf coos bits)).data.length = (coos.map nnz).sum := by
  rw [RawCOO.ofCoo, unionOf, ofParts, if_pos hany, List.length_map, List.length_map,
    h.length_diagonal]

/-- **Every matrix is there again** unless there is data and the last matrix has no edges. -/
theorem Mates.slicesBack_iff (h : Mates coos bits) (hfit : SumsFit coos bits) (hne : coos ≠ []) :
    SlicesBack coos bits (.ofCoo (unionOf coos bits)) ↔
      (coos.any hasData = true → (coos.getLast hne).nnz ≠ 0) := by
  have hpos := List.length_pos_of_ne_nil hne
  have hlast : coos.getD (coos.length - 1) emptyCoo = coos.getLast hne := by
    rw [List.getD_eq_getElem _ _ (Nat.sub_one_lt_of_lt hpos), List.getLast_eq_getElem]
  have hsum : (coos.map nnz).sum = before nnz coos (coos.length - 1) + (coos.getLast hne).nnz := by
    rw [← hlast, ← before_succ (Nat.sub_one_lt_of_lt hpos), Nat.sub_add_cancel hpos, before_length]
  constructor
  · intro hslices hany hzero
    obtain ⟨chunk, hchunk, -⟩ := hslices _ (Nat.sub_one_lt_of_lt hpos)
    refine sliceContiguousChunk_raised ?_ ?_ hchunk
    · rw [RawCOO.ofCoo, Ne, List.map_eq_nil_iff]
      exact h.data_unionOf.2 (List.any_eq_true.1 hany)
    · rw [h.length_data_unionOf hany, hsum, hzero, Nat.add_zero]
  · intro hend i hi
    refine ⟨_, h.sliceContiguousChunk_eq hfit hi fun hany => ?_, h.holds_chunk hi⟩
    have hmono : before nnz coos i ≤ before nnz coos (coos.length - 1) := before_mono (by omega)
    have hnz := hend hany
    omega

/-- **The disjoint union** is block diagonal, and its slices are the matrices, exactly if there are
matrices, the sums are ids of their type, and the last matrix has an edge when there is data. -/
theorem disjointUnionCoo_iff (h : Mates coos bits) (hthreads : 0 < numThreads)
    (schedule : AnyOrder (ℤ × ℤ × ℤ × ℤ)) :
    (∃ result, disjointUnionCoo coos numThreads schedule = .ok result ∧ IsUnion coos bits result ∧
        SlicesBack coos bits result) ↔
      SumsFit coos bits ∧ ∃ last ∈ coos.getLast?, (∃ coo ∈ coos, coo.hasData = true) → last.nnz ≠ 0 := by
  by_cases hne : coos = []
  · subst hne
    constructor
    · rintro ⟨result, hresult, -⟩
      cases hresult
    · rintro ⟨-, last, hlast, -⟩
      cases hlast
  · simp only [List.getLast?_eq_some_getLast hne, Option.mem_def, Option.some.injEq, exists_eq_left',
      ← List.any_eq_true]
    constructor
    · rintro ⟨result, hresult, hunion, hslices⟩
      have hfit := h.sumsFit hthreads hne hresult hunion
      rw [h.disjointUnionCoo_eq hthreads hne hfit] at hresult
      cases hresult
      exact ⟨hfit, (h.slicesBack_iff hfit hne).1 hslices⟩
    · rintro ⟨hfit, hend⟩
      exact ⟨_, h.disjointUnionCoo_eq hthreads hne hfit schedule, h.isUnion,
        (h.slicesBack_iff hfit hne).2 hend⟩

/-- A matrix of one edge, with data. -/
def oneEdge : COOMatrix := ⟨64, 1, 1, [0], [0], [0], true, true⟩

/-- A matrix without data. -/
def withoutData : COOMatrix := ⟨64, 2, 3, [1, 0], [2, 2], [], false, true⟩

lemma mates_twoGraphs : Mates [oneEdge, withoutData] 64 where
  bits_eq := by decide
  valid := by
    simp only [List.forall_mem_cons, List.not_mem_nil, false_imp_iff, implies_true, and_true]
    exact ⟨⟨rfl, by decide, by decide, .inr (.refl _), by decide⟩,
      ⟨rfl, by decide, by decide, .inl rfl, nofun⟩⟩
  colsSorted := by
    simp only [List.forall_mem_cons, List.not_mem_nil, false_imp_iff, implies_true, and_true, ColsSorted]
    decide

theorem disjointUnionCoo_twoGraphs : ∃ result,
    disjointUnionCoo [oneEdge, withoutData] 2 ⟨List.reverse, List.reverse_perm⟩ = .ok result ∧
      IsUnion [oneEdge, withoutData] 64 result ∧ SlicesBack [oneEdge, withoutData] 64 result :=
  (disjointUnionCoo_iff mates_twoGraphs (by decide) _).2
    ⟨⟨rfl, rfl, rfl⟩, withoutData, rfl, fun _ => by decide⟩

/-- The matrix without edges behind the others cannot be cut out. -/
theorem not_slicesBack_noEdges : ¬∃ result,
    disjointUnionCoo [oneEdge, emptyCoo] 1 ⟨id, .refl⟩ = .ok result ∧
      IsUnion [oneEdge, emptyCoo] 64 result ∧ SlicesBack [oneEdge, emptyCoo] 64 result := by
  rintro ⟨result, hresult, -, hslices⟩
  have hvalue : disjointUnionCoo [oneEdge, emptyCoo] 1 ⟨id, .refl⟩ =
      .ok ⟨1, 1, [some 0], [some 0], [some 0], true, true⟩ := by decide
  obtain rfl := Except.ok.inj (hresult.symm.trans hvalue)
  obtain ⟨chunk, hchunk, -⟩ := hslices 1 (by decide)
  exact sliceContiguousChunk_raised (by decide) (by decide) hchunk

end COOMatrix

end DglAscend.Aten
