import DglAscend.Aten.NullData
import DglAscend.Aten.SortedFlags
import DglAscend.Lib.StaticChunks

/-!
# Lookups with and without the flag

`CSRGetData`, `COOGetData` and `CSRGetDataAndIndices` search by bisection where the matrix is marked as
sorted, and scan where it is not.  The first two do their queries in chunks, one for each thread.
-/

namespace DglAscend.Aten

/-! ## The queries in chunks -/

namespace CSRMatrix

variable {α : Type} (csr : CSRMatrix)

/-- The same matrix, marked as sorted. -/
def flagged : CSRMatrix := { csr with sorted := true }

/-- One query of `CSRGetData`. -/
def getDataAt (value : ℕ → α) (filler : α) (p : ℕ × ℕ) : Except Fault α :=
  if csr.numRows ≤ p.1 ∨ csr.numCols ≤ p.2 then .error .raised
  else
    let found := if csr.sorted then
        (lowerBound (fun e : Entry => e.2.1) p.2 (csr.rowEntries p.1)).head?.filter
          fun e => e.2.1 = p.2
      else (csr.rowEntries p.1).find? fun e => e.2.1 = p.2
    .ok ((found.map fun e => value e.2.2).getD filler)

/-- `CSRGetData` with this many threads. -/
def getDataThreads (numThreads : ℕ) (value : ℕ → α) (filler : α) (rows cols : List ℕ) :
    Except Fault (List α) :=
  if !fits rows cols then .error .raised
  else if !readsWithin rows cols then .error .outOfBounds
  else parallelFor numThreads (broadcast rows cols).length fun i =>
    csr.getDataAt value filler ((broadcast rows cols).getD i (0, 0))

/-- **Threads** do not change what is found. -/
lemma getDataThreads_eq (numThreads : ℕ+) (value : ℕ → α) (filler : α) (rows cols : List ℕ) :
    csr.getDataThreads numThreads value filler rows cols = csr.getData value filler rows cols := by
  rw [getDataThreads, parallelFor_eq numThreads.pos,
    mapM_range_getD (broadcast rows cols) (0, 0) (csr.getDataAt value filler)]
  rfl

end CSRMatrix

namespace COOMatrix

variable (coo : COOMatrix)

/-- The same matrix, its rows marked as sorted. -/
def flagged : COOMatrix := { coo with rowSorted := true }

/-- One query of `COOGetData`. -/
def getDataAt (p : ℕ × ℕ) : Option ℕ :=
  let found := if coo.rowSorted then
      ((lowerBound (fun e : Entry => e.1) p.1 coo.entries).takeWhile fun e => e.1 = p.1).find?
        fun e => e.2.1 = p.2
    else coo.entries.find? fun e => e.1 = p.1 ∧ e.2.1 = p.2
  found.map fun e => e.2.2

/-- `COOGetData` with this many threads. -/
def getDataThreads (numThreads : ℕ) (rows cols : List ℕ) : Except Fault (List (Option ℕ)) :=
  if !fits rows cols then .error .raised
  else if !readsWithin rows cols then .error .outOfBounds
  else parallelFor numThreads (broadcast rows cols).length fun i =>
    .ok (coo.getDataAt ((broadcast rows cols).getD i (0, 0)))

/-- **Threads** do not change what is found. -/
lemma getDataThreads_eq (numThreads : ℕ+) (rows cols : List ℕ) :
    coo.getDataThreads numThreads rows cols = coo.getData rows cols := by
  rw [getDataThreads, parallelFor_eq numThreads.pos,
    mapM_range_getD (broadcast rows cols) (0, 0) fun p => .ok (coo.getDataAt p),
    mapM_ok (g := coo.getDataAt) fun _ _ => rfl]
  rfl

end COOMatrix

/-! ## The same answers -/

/-- Both calls fail in the same way, or they find the same entries up to their order. -/
def SameEntries : Except Fault (List (List Entry)) → Except Fault (List (List Entry)) → Prop
  | .ok found, .ok found' => found.flatten.Perm found'.flatten
  | .error e, .error e' => e = e'
  | _, _ => False

lemma SameEntries.refl (x : Except Fault (List (List Entry))) : SameEntries x x := by
  cases x with
  | ok found => exact List.Perm.refl _
  | error e => rfl

/-- Where the second call finds what the first one has found, the same entries mean the same result. -/
lemma eq_of_sameEntries {x y : Except Fault (List (List Entry))} (h : SameEntries x y)
    (hxy : ∀ found, x = .ok found → y = .ok found) : x = y := by
  cases x with
  | ok found => exact (hxy found rfl).symm
  | error e =>
      cases y with
      | ok found => exact absurd h id
      | error e' => exact congrArg Except.error h

/-- The answers for the flagged matrices and those for the unflagged ones. -/
structure LooksUpAlike {α : Type} (csr : CSRMatrix) (coo : COOMatrix) (value : ℕ → α) (filler : α)
    (rows cols : List ℕ) (numThreads numThreads' : ℕ+) : Prop where
  csrGetData : csr.flagged.getDataThreads numThreads value filler rows cols =
    csr.unflagged.getDataThreads numThreads' value filler rows cols
  cooGetData : coo.flagged.getDataThreads numThreads rows cols =
    coo.unflagged.getDataThreads numThreads' rows cols
  csrGetDataAndIndices : SameEntries (csr.flagged.getDataAndIndices rows cols)
    (csr.unflagged.getDataAndIndices rows cols)

namespace CSRMatrix

variable {csr : CSRMatrix} {rows cols : List ℕ}

/-- The entries of a row at a column. -/
def at_ (csr : CSRMatrix) (p : ℕ × ℕ) : List Entry := (csr.rowEntries p.1).filter fun e => e.2.1 = p.2

/-- A pair of indices that the checks let pass. -/
def inRange (csr : CSRMatrix) (p : ℕ × ℕ) : Bool := p.1 < csr.numRows ∧ p.2 < csr.numCols

lemma not_inRange (p : ℕ × ℕ) : (csr.numRows ≤ p.1 ∨ csr.numCols ≤ p.2) ↔ (!csr.inRange p) = true := by
  simp [inRange, or_iff_not_imp_left]

lemma getDataAndIndices_unflagged (hfits : fits rows cols = true) :
    csr.unflagged.getDataAndIndices rows cols = (broadcast rows cols).mapM fun p =>
      if !csr.inRange p then .error .raised else .ok (csr.at_ p) := by
  rw [getDataAndIndices, hfits, Bool.not_true, if_neg Bool.false_ne_true]
  congr 1
  funext p
  by_cases hp : csr.numRows ≤ p.1 ∨ csr.numCols ≤ p.2
  · rw [if_pos ((not_inRange p).1 hp)]
    exact if_pos hp
  · rw [if_neg fun h => hp ((not_inRange p).2 h)]
    exact if_neg hp

/-- **The sorted search** reads the data array for every entry that it finds. -/
lemma getDataAndIndices_flagged (hs : csr.flagged.ColsSorted) (hfits : fits rows cols = true) :
    csr.flagged.getDataAndIndices rows cols = (broadcast rows cols).mapM fun p =>
      if !csr.inRange p then .error .raised
      else if !csr.hasData && !(csr.at_ p).isEmpty then .error .outOfBounds else .ok (csr.at_ p) := by
  rw [getDataAndIndices, hfits, Bool.not_true, if_neg Bool.false_ne_true]
  congr 1
  funext p
  by_cases hp : csr.numRows ≤ p.1 ∨ csr.numCols ≤ p.2
  · rw [if_pos ((not_inRange p).1 hp)]
    exact if_pos hp
  · have hrow : p.1 < csr.flagged.numRows := Nat.lt_of_not_le fun h => hp (Or.inl h)
    rw [if_neg fun h => hp ((not_inRange p).2 h)]
    apply (if_neg hp).trans
    dsimp only
    rw [takeWhile_lowerBound (hs rfl p.1 hrow)]
    rfl

/-- What the sorted search returns for a pair, the scan returns. -/
lemma found_of_searched {inRange : Bool} {found ys : List Entry}
    (h : (if !inRange then Except.error Fault.raised
      else if !found.isEmpty then .error .outOfBounds else .ok found) = .ok ys) :
    (if !inRange then Except.error Fault.raised else .ok found) = .ok ys := by
  split at h
  · cases h
  · rename_i hin
    rw [if_neg hin]
    split at h
    · cases h
    · exact h

/-- **Data and indices**: the two searches agree exactly if there is a data array, or nothing is found
before the first pair that the checks refuse. -/
theorem sameEntries_iff (hs : csr.flagged.ColsSorted) (rows cols : List ℕ) :
    SameEntries (csr.flagged.getDataAndIndices rows cols) (csr.unflagged.getDataAndIndices rows cols) ↔
      csr.hasData = true ∨ fits rows cols = false ∨
        ∀ p ∈ (broadcast rows cols).takeWhile csr.inRange, csr.at_ p = [] := by
  by_cases hfits : fits rows cols = true
  · rw [getDataAndIndices_flagged hs hfits, getDataAndIndices_unflagged hfits]
    by_cases hdata : csr.hasData = true
    · simp only [hdata, Bool.not_true, Bool.false_and]
      exact iff_of_true (SameEntries.refl _) (Or.inl trivial)
    · have hno : (!csr.hasData) = true := by simpa using hdata
      simp only [hno, Bool.true_and]
      rw [or_iff_right hdata, or_iff_right (by simp [hfits]), ← mapM_found_iff]
      constructor
      · intro hsame
        exact eq_of_sameEntries hsame fun found hfound => mapM_eq_ok_iff.2
          ((mapM_eq_ok_iff.1 hfound).imp fun p ys hp => found_of_searched hp)
      · intro heq
        rw [heq]
        exact SameEntries.refl _
  · rw [Bool.not_eq_true] at hfits
    rw [getDataAndIndices, getDataAndIndices, hfits]
    exact iff_of_true (SameEntries.refl _) (Or.inr (Or.inl rfl))

end CSRMatrix

/-- **Lookups.**  With a true flag the answers are the ones without it, whatever the number of threads,
except that `CSRGetDataAndIndices` reads a data array that is not there as soon as it finds something. -/
theorem lookups_agree_iff {α : Type} (csr : CSRMatrix) (coo : COOMatrix)
    (hcsr : csr.flagged.ColsSorted) (hcoo : coo.flagged.RowsSorted) (value : ℕ → α) (filler : α)
    (rows cols : List ℕ) (numThreads numThreads' : ℕ+) :
    LooksUpAlike csr coo value filler rows cols numThreads numThreads' ↔
      csr.hasData = true ∨ fits rows cols = false ∨
        ∀ p ∈ (broadcast rows cols).takeWhile csr.inRange, csr.at_ p = [] := by
  rw [← CSRMatrix.sameEntries_iff hcsr]
  refine ⟨fun h => h.csrGetDataAndIndices, fun h => ⟨?_, ?_, h⟩⟩
  · rw [CSRMatrix.getDataThreads_eq, CSRMatrix.getDataThreads_eq, CSRMatrix.getData_unflagged hcsr]
    rfl
  · rw [COOMatrix.getDataThreads_eq, COOMatrix.getDataThreads_eq, COOMatrix.getData_unflagged hcoo]
    rfl

/-- One row with two parallel edges. -/
def oneRow (data : List ℕ) : CSRMatrix where
  bits := 64
  numRows := 1
  numCols := 2
  indptr := [0, 3]
  indices := [0, 1, 1]
  data := data
  sorted := false

lemma oneRow_sorted (data : List ℕ) : (oneRow data).flagged.ColsSorted := by
  intro _ r hr
  obtain rfl : r = 0 := Nat.lt_one_iff.1 hr
  rw [CSRMatrix.rowEntries, List.map_map]
  show [0, 1, 1].Pairwise (· ≤ ·)
  decide

lemma oneRow_rows (data : List ℕ) : (oneRow data).toCOO.flagged.RowsSorted := by
  intro _
  show [0, 0, 0].Pairwise (· ≤ ·)
  decide

theorem lookups_oneRow : LooksUpAlike (oneRow [2, 0, 1]) (oneRow [2, 0, 1]).toCOO id 0 [0] [1, 0] 2 3 :=
  (lookups_agree_iff (oneRow [2, 0, 1]) (oneRow [2, 0, 1]).toCOO (oneRow_sorted _) (oneRow_rows _) id 0
    [0] [1, 0] 2 3).2 (Or.inl (by decide))

/-- Without a data array the sorted search reads what is not there, and the scan returns the places. -/
theorem lookups_differ :
    (oneRow []).flagged.getDataAndIndices [0] [1] = .error .outOfBounds ∧
      (oneRow []).unflagged.getDataAndIndices [0] [1] = .ok [[(0, 1, 1), (0, 1, 2)]] ∧
      ¬ LooksUpAlike (oneRow []) (oneRow []).toCOO id 0 [0] [1] 1 1 := by
  have hflagged : (oneRow []).flagged.getDataAndIndices [0] [1] = .error .outOfBounds := by decide
  have hunflagged : (oneRow []).unflagged.getDataAndIndices [0] [1] =
      .ok [[(0, 1, 1), (0, 1, 2)]] := by decide
  refine ⟨hflagged, hunflagged, fun h => ?_⟩
  have hsame := h.csrGetDataAndIndices
  rw [hflagged, hunflagged] at hsame
  exact hsame

end DglAscend.Aten
