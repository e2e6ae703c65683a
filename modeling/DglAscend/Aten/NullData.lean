import DglAscend.Aten.Lookups
import DglAscend.Lib.Cursor

/-!
# Matrices without a data array

A CSR matrix may come without a data array; the ids of its entries are then their places.  Every
function that reads ids has its own case for this.  Here are these functions, and exactly when they
return for such a matrix what they return for the same matrix with the data array `0, 1, …`.
-/

namespace DglAscend.Aten

namespace CSRMatrix

variable {α : Type} (csr : CSRMatrix)

/-! ## The functions -/

/-- `CSRSliceRows` of a range of rows. -/
def sliceRange (start stop : ℕ) : Except Fault CSRMatrix :=
  if csr.numRows ≤ start ∨ csr.numRows < stop ∨ stop < start then .error .raised
  else
    let nnz := csr.ptr stop - csr.ptr start
    .ok
      { bits := csr.bits
        numRows := stop - start
        numCols := csr.numCols
        indptr := (List.range' start (stop - start + 1)).map fun i => csr.ptr i - csr.ptr start
        indices := (csr.indices.drop (csr.ptr start)).take nnz
        data := if csr.hasData then (csr.data.drop (csr.ptr start)).take nnz
          else List.range' (csr.ptr start) nnz
        sorted := csr.sorted }

/-- One place of the loop of `CSRRemoveConsecutive`: the index into the sorted entries and the
entries that are kept. -/
def removeAt (sorted : List ℕ) (s : ℕ × List (ℕ × ℕ)) (j : ℕ) : ℕ × List (ℕ × ℕ) :=
  if sorted[s.1]? = some j then (s.1 + ((sorted.drop s.1).takeWhile (· = j)).length, s.2)
  else (s.1, s.2 ++ [(csr.indices.getD j 0, s.1)])

/-- One row of the loop. -/
def removeRow (sorted : List ℕ) (s : ℕ × List (List (ℕ × ℕ))) (i : ℕ) :
    ℕ × List (List (ℕ × ℕ)) :=
  let row := (csr.places i).foldl (csr.removeAt sorted) (s.1, [])
  (row.1, s.2 ++ [row.2])

/-- `CSRRemoveConsecutive`: `new_eids->push_back(k)` where `k` is the index into the sorted entries. -/
def removeConsecutive (entries : List ℕ) : CSRMatrix :=
  let sorted := entries.insertionSort (· ≤ ·)
  ofRows csr.bits csr.numCols ((List.range csr.numRows).foldl (csr.removeRow sorted) (0, [])).2 false

/-- `CSRRemoveShuffled`. -/
def removeShuffled (entries : List ℕ) : CSRMatrix :=
  ofRows csr.bits csr.numCols ((List.range csr.numRows).map fun i =>
    ((csr.rowEntries i).filter fun e => e.2.2 ∉ entries).map Prod.snd) false

/-- `CSRRemove`.  With more entries than the matrix has `reserve` is called with a negative number. -/
def remove (entries : List ℕ) : Except Fault CSRMatrix :=
  if entries = [] then .ok csr
  else if csr.nnz < entries.length then .error .raised
  else .ok (if csr.hasData then csr.removeShuffled entries else csr.removeConsecutive entries)

/-- `CSRReorder`.  The data array is read without looking whether there is one. -/
def reorder (newRows newCols : List ℕ) : Except Fault CSRMatrix :=
  if newRows.length ≠ csr.numRows ∨ newCols.length ≠ csr.numCols then .error .raised
  else if newRows.any fun r => csr.numRows ≤ r then .error .outOfBounds
  -- A row that no old row goes to has the length -1.
  else if (List.range csr.numRows).any fun r => r ∉ newRows then .error .raised
  else if !csr.hasData ∧ csr.nnz ≠ 0 then .error .outOfBounds
  else .ok (ofRows csr.bits csr.numCols ((List.range csr.numRows).map fun r =>
    (csr.rowEntries (newRows.idxOf r)).map fun e => (newCols.getD e.2.1 0, e.2.2)) false)

/-- The same matrix with the data array `0, 1, …`. -/
def withIds : CSRMatrix := { csr with data := List.range csr.nnz }

end CSRMatrix

/-- A call of one of the functions. -/
inductive IdOp (α : Type)
  | getRowData (row : ℕ)
  | getData (value : ℕ → α) (filler : α) (rows cols : List ℕ)
  | getDataAndIndices (rows cols : List ℕ)
  | sliceRange (start stop : ℕ)
  | sliceRows (rows : List ℕ)
  | sliceMatrix (rows cols : List ℕ)
  | transpose
  | toCOO
  | remove (entries : List ℕ)
  | reorder (newRows newCols : List ℕ)

/-- What a call returns. -/
inductive IdResult (α : Type)
  | ids (xs : List ℕ)
  | values (xs : List α)
  | found (es : List (List Entry))
  | csr (m : CSRMatrix)
  | coo (m : COOMatrix)
  deriving DecidableEq, Repr

namespace IdResult

variable {α : Type}

/-- An absent data array stands for consecutive ids. -/
def explicit : IdResult α → IdResult α
  | .csr m => .csr (if m.hasData then m else m.withIds)
  | .coo m => .coo (if m.hasData then m else { m with data := List.range m.nnz })
  | r => r

end IdResult

namespace IdOp

variable {α : Type}

/-- The call on a matrix. -/
def run (csr : CSRMatrix) : IdOp α → Except Fault (IdResult α)
  | .getRowData row => (csr.getRowData row).map .ids
  | .getData value filler rows cols => (csr.getData value filler rows cols).map .values
  | .getDataAndIndices rows cols => (csr.getDataAndIndices rows cols).map .found
  | .sliceRange start stop => (csr.sliceRange start stop).map .csr
  | .sliceRows rows => (csr.sliceRows rows).map .csr
  | .sliceMatrix rows cols => (csr.sliceMatrix rows cols).map .csr
  | .transpose => .ok (.csr csr.transpose)
  | .toCOO => .ok (.coo csr.toCOO)
  | .remove entries => (csr.remove entries).map .csr
  | .reorder newRows newCols => (csr.reorder newRows newCols).map .csr

/-- When the case without a data array is right. -/
def RightWithoutData (csr : CSRMatrix) : IdOp α → Prop
  | .getRowData row => csr.numRows ≤ row ∨ csr.ptr row = 0 ∨ csr.ptr (row + 1) = csr.ptr row
  | .getDataAndIndices rows cols =>
      csr.sorted = true → fits rows cols = true →
        ∀ p ∈ (broadcast rows cols).takeWhile fun p => p.1 < csr.numRows ∧ p.2 < csr.numCols,
          ∀ e ∈ csr.entries, ¬ (e.1 = p.1 ∧ e.2.1 = p.2)
  | .remove entries =>
      entries = [] ∨ csr.nnz < entries.length ∨
        ∀ j < csr.nnz, j ∉ entries → entries.countP (· < j) = j
  | .reorder newRows newCols =>
      csr.nnz = 0 ∨ newRows.length ≠ csr.numRows ∨ newCols.length ≠ csr.numCols ∨
        ¬ newRows.Perm (List.range csr.numRows)
  | _ => True

end IdOp

/-! ## Loops that fail -/

section Loops

variable {γ β : Type} {f : γ → Except Fault β}

lemma mapM_cons_ok {a : γ} {b : β} (hf : f a = .ok b) (l : List γ) :
    (a :: l).mapM f = (l.mapM f).map (b :: ·) := by
  rw [List.mapM_cons, hf]
  cases l.mapM f <;> rfl

lemma mapM_cons_error {a : γ} {e : Fault} (hf : f a = .error e) (l : List γ) :
    (a :: l).mapM f = .error e := by
  rw [List.mapM_cons, hf]
  rfl

lemma map_cons_inj {b : β} {x y : Except Fault (List β)} :
    x.map (b :: ·) = y.map (b :: ·) ↔ x = y := by
  cases x <;> cases y <;> simp [Except.map]

lemma mapM_ne_outOfBounds (hf : ∀ a, f a ≠ .error .outOfBounds) (l : List γ) :
    l.mapM f ≠ .error .outOfBounds := by
  induction l with
  | nil => nofun
  | cons a l ih =>
      cases ha : f a with
      | ok b =>
          rw [mapM_cons_ok ha]
          intro h
          apply ih
          cases hl : l.mapM f with
          | ok bs =>
              rw [hl] at h
              cases h
          | error e =>
              rw [hl] at h
              exact h
      | error e =>
          rw [mapM_cons_error ha]
          intro h
          apply hf a
          rw [ha, Except.error.inj h]

/-- A loop that reads a null array where another one finds something: they agree if nothing is found
before the first pair that is out of range. -/
lemma mapM_found_iff (inRange : γ → Bool) (found : γ → List β) (l : List γ) :
    (l.mapM fun p => if !inRange p then Except.error Fault.raised
        else if !(found p).isEmpty then .error .outOfBounds else .ok (found p)) =
      (l.mapM fun p => if !inRange p then Except.error Fault.raised else .ok (found p)) ↔
      ∀ p ∈ l.takeWhile inRange, found p = [] := by
  induction l with
  | nil => exact iff_of_true rfl nofun
  | cons p l ih =>
      by_cases hp : inRange p = true
      · rw [List.takeWhile_cons_of_pos hp, List.forall_mem_cons, ← ih]
        rw [mapM_cons_ok (f := fun p => if !inRange p then Except.error Fault.raised
          else .ok (found p)) (b := found p) (by simp [hp])]
        by_cases hf : found p = []
        · rw [mapM_cons_ok (b := found p) (by simp [hp, hf]), map_cons_inj]
          exact (and_iff_right hf).symm
        · rw [mapM_cons_error (e := .outOfBounds) (by simp [hp, hf])]
          refine iff_of_false (fun heq => ?_) fun hall => hf hall.1
          rw [← mapM_cons_ok (f := fun p => if !inRange p then Except.error Fault.raised
            else .ok (found p)) (a := p) (by simp [hp])] at heq
          refine mapM_ne_outOfBounds (fun q => ?_) _ heq.symm
          split <;> nofun
      · rw [List.takeWhile_cons_of_neg hp, mapM_cons_error (e := .raised) (by simp [hp]),
          mapM_cons_error (e := .raised) (by simp [hp])]
        exact iff_of_true rfl nofun

end Loops

/-! ## Removing sorted entries -/

section Remove

variable {csr : CSRMatrix} {entries : List ℕ}

/-- One place: the index stands at the number of smaller entries. -/
lemma removeAt_eq (acc : List (ℕ × ℕ)) (j : ℕ) :
    csr.removeAt (entries.insertionSort (· ≤ ·)) (entries.countP (· < j), acc) j =
      (entries.countP (· < j + 1),
        if j ∈ entries then acc
        else acc ++ [(csr.indices.getD j 0, entries.countP (· < j))]) := by
  have hperm : (entries.insertionSort (· ≤ ·)).Perm entries := List.perm_insertionSort _ _
  have hsorted : (entries.insertionSort (· ≤ ·)).Pairwise (· ≤ ·) :=
    List.pairwise_insertionSort _ _
  have hmeets := getElem?_countP_lt (i := j) hsorted
  have hskip := skipEqual_countP_lt (i := j) hsorted
  rw [hperm.countP_eq, hperm.mem_iff] at hmeets
  rw [hperm.countP_eq, hperm.countP_eq, skipEqual] at hskip
  rw [CSRMatrix.removeAt]
  dsimp only
  by_cases hj : j ∈ entries
  · rw [if_pos (hmeets.2 hj), if_pos hj, hskip]
  · rw [if_neg fun h => hj (hmeets.1 h), if_neg hj, countP_lt_succ_of_notMem hj]

lemma foldl_removeAt (csr : CSRMatrix) (entries : List ℕ) (start n : ℕ) (acc : List (ℕ × ℕ)) :
    (List.range' start n).foldl (csr.removeAt (entries.insertionSort (· ≤ ·)))
        (entries.countP (· < start), acc) =
      (entries.countP (· < start + n),
        acc ++ ((List.range' start n).filter (· ∉ entries)).map fun j =>
          (csr.indices.getD j 0, entries.countP (· < j))) := by
  induction n generalizing start acc with
  | zero => simp
  | succ n ih =>
      rw [List.range'_succ, List.foldl_cons, removeAt_eq, ih, Nat.add_right_comm, Nat.add_assoc]
      congr 1
      by_cases hj : start ∈ entries
      · rw [if_pos hj, List.filter_cons_of_neg (by simpa using hj)]
      · rw [if_neg hj, List.filter_cons_of_pos (by simpa using hj), List.map_cons,
          List.append_assoc]
        rfl

/-- **`CSRRemoveConsecutive`** gives a kept entry the number of smaller removed ones. -/
lemma removeConsecutive_eq (h : csr.Framed) :
    csr.removeConsecutive entries =
      CSRMatrix.ofRows csr.bits csr.numCols ((List.range csr.numRows).map fun i =>
        ((csr.places i).filter (· ∉ entries)).map fun j =>
          (csr.indices.getD j 0, entries.countP (· < j))) false := by
  have hrows (n : ℕ) (hn : n ≤ csr.numRows) :
      (List.range n).foldl (csr.removeRow (entries.insertionSort (· ≤ ·))) (0, []) =
        (entries.countP (· < csr.ptr n), (List.range n).map fun i =>
          ((csr.places i).filter (· ∉ entries)).map fun j =>
            (csr.indices.getD j 0, entries.countP (· < j))) := by
    induction n with
    | zero =>
        rw [h.ptr_zero]
        simp
    | succ n ih =>
        have hfold := foldl_removeAt csr entries (csr.ptr n) (csr.ptr (n + 1) - csr.ptr n) []
        rw [Nat.add_sub_cancel' (h.ptr_mono n hn), List.nil_append] at hfold
        rw [List.range_succ, List.foldl_append, ih (by omega), List.foldl_cons, List.foldl_nil,
          CSRMatrix.removeRow, CSRMatrix.places, hfold, List.map_append]
        rfl
  rw [CSRMatrix.removeConsecutive]
  simp only [hrows _ le_rfl]

end Remove

/-! ## The entries -/

section Entries

variable {α : Type} {csr : CSRMatrix} (h : csr.Valid) (hnull : csr.data = [])
include h hnull

omit h in
lemma idAt_withIds {j : ℕ} (hj : j < csr.nnz) : idAt csr.withIds.data j = idAt csr.data j := by
  have hne : List.range csr.nnz ≠ [] := by
    rw [Ne, List.range_eq_nil]
    omega
  show idAt (List.range csr.nnz) j = _
  rw [idAt, idAt, if_neg hne, if_pos hnull, List.getD_eq_getElem _ _ (by simpa using hj),
    List.getElem_range]

lemma rowEntries_withIds {r : ℕ} (hr : r < csr.numRows) :
    csr.withIds.rowEntries r = csr.rowEntries r := by
  apply List.map_congr_left
  intro j hj
  show (r, csr.indices.getD j 0, idAt csr.withIds.data j) = (r, csr.indices.getD j 0, _)
  rw [idAt_withIds hnull (h.place_lt hr hj)]

omit h in
lemma rowEntries_null (r : ℕ) :
    csr.rowEntries r = (csr.places r).map fun j => (r, csr.indices.getD j 0, j) := by
  apply List.map_congr_left
  intro j _
  rw [CSRMatrix.entry, idAt, if_pos hnull]

omit h in
lemma hasData_null : csr.hasData = false := by simp [CSRMatrix.hasData, hnull]

omit h hnull in
lemma hasData_withIds : csr.withIds.hasData = true ↔ csr.nnz ≠ 0 := by
  simp [CSRMatrix.hasData, CSRMatrix.withIds]

omit h in
lemma withIds_of_empty (hnnz : csr.nnz = 0) : csr.withIds = csr := by
  obtain ⟨bits, numRows, numCols, indptr, indices, data, sorted⟩ := csr
  simp only at hnull
  subst hnull
  show CSRMatrix.mk _ _ _ _ _ (List.range _) _ = _
  rw [hnnz]
  rfl

/-! ## The functions that are right -/

lemma getData_withIds (value : ℕ → α) (filler : α) (rows cols : List ℕ) :
    csr.withIds.getData value filler rows cols = csr.getData value filler rows cols := by
  rw [CSRMatrix.getData, CSRMatrix.getData]
  congr 3
  funext p
  show (if csr.numRows ≤ p.1 ∨ csr.numCols ≤ p.2 then _ else _) = _
  by_cases hp : csr.numRows ≤ p.1 ∨ csr.numCols ≤ p.2
  · rw [if_pos hp, if_pos hp]
  · rw [if_neg hp, if_neg hp, rowEntries_withIds h hnull (by omega)]
    rfl

lemma sliceRows_withIds (rows : List ℕ) : csr.withIds.sliceRows rows = csr.sliceRows rows := by
  rw [CSRMatrix.sliceRows, CSRMatrix.sliceRows]
  show (if (rows.any fun r => csr.numRows ≤ r) = true then _ else _) = _
  by_cases hany : (rows.any fun r => csr.numRows ≤ r) = true
  · rw [if_pos hany, if_pos hany]
  · rw [if_neg hany, if_neg hany]
    have hrows : (rows.map fun r => (csr.withIds.rowEntries r).map Prod.snd) =
        rows.map fun r => (csr.rowEntries r).map Prod.snd := by
      apply List.map_congr_left
      intro r hr
      have hlt : r < csr.numRows := by
        by_contra hle
        exact hany (List.any_eq_true.2 ⟨r, hr, by simpa using hle⟩)
      rw [rowEntries_withIds h hnull hlt]
    rw [hrows]
    rfl

lemma sliceMatrix_withIds (rows cols : List ℕ) :
    csr.withIds.sliceMatrix rows cols = csr.sliceMatrix rows cols := by
  rw [CSRMatrix.sliceMatrix, CSRMatrix.sliceMatrix]
  show (if (rows.any fun r => csr.numRows ≤ r) = true then _ else _) = _
  by_cases hany : (rows.any fun r => csr.numRows ≤ r) = true
  · rw [if_pos hany, if_pos hany]
  · rw [if_neg hany, if_neg hany]
    congr 2
    apply List.map_congr_left
    intro r hr
    have hlt : r < csr.numRows := by
      by_contra hle
      exact hany (List.any_eq_true.2 ⟨r, hr, by simpa using hle⟩)
    rw [rowEntries_withIds h hnull hlt]

lemma sliceRange_withIds (start stop : ℕ) :
    csr.withIds.sliceRange start stop = csr.sliceRange start stop := by
  by_cases hnnz : csr.nnz = 0
  · rw [withIds_of_empty hnull hnnz]
  rw [CSRMatrix.sliceRange, CSRMatrix.sliceRange]
  show (if csr.numRows ≤ start ∨ csr.numRows < stop ∨ stop < start then _ else _) = _
  by_cases hrange : csr.numRows ≤ start ∨ csr.numRows < stop ∨ stop < start
  · rw [if_pos hrange, if_pos hrange]
  · have hstop : csr.ptr stop ≤ csr.nnz := by
      rw [← h.ptr_last]
      exact h.ptr_le (by omega) le_rfl
    have hstart : csr.ptr start ≤ csr.ptr stop := h.ptr_le (by omega) (by omega)
    have hids : ((List.range csr.nnz).drop (csr.ptr start)).take (csr.ptr stop - csr.ptr start) =
        List.range' (csr.ptr start) (csr.ptr stop - csr.ptr start) := by
      rw [List.range_eq_range', List.drop_range', List.take_range'_of_length_ge (by omega)]
      congr 1
      omega
    rw [if_neg hrange, if_neg hrange]
    simp only [hasData_null hnull, hasData_withIds.2 hnnz, if_true]
    show Except.ok (CSRMatrix.mk _ _ _ _ _ (((List.range csr.nnz).drop (csr.ptr start)).take
      (csr.ptr stop - csr.ptr start)) _) = _
    rw [hids]
    rfl

lemma transpose_withIds : csr.withIds.transpose = csr.transpose := by
  have hfilled (s : List ℕ × List (ℕ × ℕ)) :
      (List.range csr.numRows).foldl (fun s i => (csr.places i).foldl
        (fun s j => placeItem s (csr.indices.getD j 0, (i, idAt csr.withIds.data j))) s) s =
      (List.range csr.numRows).foldl (fun s i => (csr.places i).foldl
        (fun s j => placeItem s (csr.indices.getD j 0, (i, idAt csr.data j))) s) s := by
    apply List.foldl_ext
    intro s i hi
    apply List.foldl_ext
    intro s j hj
    rw [idAt_withIds hnull (h.place_lt (List.mem_range.1 hi) hj)]
  exact congrArg (fun s : List ℕ × List (ℕ × ℕ) => CSRMatrix.mk csr.bits csr.numCols csr.numRows
    (shift s.1) (s.2.map Prod.fst) (s.2.map Prod.snd) false) (hfilled _)

lemma toCOO_withIds : (IdResult.coo csr.withIds.toCOO : IdResult α).explicit =
    (IdResult.coo csr.toCOO : IdResult α).explicit := by
  by_cases hnnz : csr.nnz = 0
  · rw [withIds_of_empty hnull hnnz]
  have hdata : csr.toCOO.hasData = false := hasData_null hnull
  have hdata' : csr.withIds.toCOO.hasData = true := hasData_withIds.2 hnnz
  have hlen : csr.toCOO.nnz = csr.nnz := h.toCOO_row_length
  rw [IdResult.explicit, IdResult.explicit, hdata, hdata', hlen]
  rfl

/-! ## The functions that are not -/

omit h hnull in
lemma map_explicit_iff {β : Type} {c : β → IdResult α} (hinj : Function.Injective c)
    (hc : ∀ b, (c b).explicit = c b) (x y : Except Fault β) :
    (x.map c).map IdResult.explicit = (y.map c).map IdResult.explicit ↔ x = y := by
  cases x <;> cases y <;> simp [Except.map, hc, hinj.eq_iff]

lemma getRowData_iff (hbits : csr.bits = 32 ∨ csr.bits = 64) (row : ℕ) :
    csr.getRowData row = csr.withIds.getRowData row ↔
      csr.numRows ≤ row ∨ csr.ptr row = 0 ∨ csr.ptr (row + 1) = csr.ptr row := by
  by_cases hrow : csr.numRows ≤ row
  · have hraised : csr.getRowData row = .error .raised := if_pos hrow
    have hraised' : csr.withIds.getRowData row = .error .raised := if_pos hrow
    rw [hraised, hraised']
    exact iff_of_true rfl (Or.inl hrow)
  have hmono := h.ptr_mono row (by omega)
  by_cases hnnz : csr.nnz = 0
  · have hle : csr.ptr row ≤ csr.ptr csr.numRows := h.ptr_le (by omega) le_rfl
    rw [h.ptr_last] at hle
    rw [withIds_of_empty hnull hnnz]
    exact iff_of_true rfl (Or.inr (Or.inl (by omega)))
  have hnull' : csr.getRowData row = .ok (List.range' (csr.ptr row * (csr.bits / 8))
      (csr.ptr (row + 1) - csr.ptr row)) := by
    rw [CSRMatrix.getRowData, if_neg hrow, hasData_null hnull]
    rfl
  have hids : csr.withIds.getRowData row = .ok (csr.places row) := by
    have hrow' : ¬ csr.withIds.numRows ≤ row := hrow
    rw [CSRMatrix.getRowData, if_neg hrow', hasData_withIds.2 hnnz, if_pos rfl]
    congr 1
    conv_rhs => rw [← List.map_id (csr.places row)]
    apply List.map_congr_left
    intro j hj
    have hj := h.place_lt (Nat.lt_of_not_le hrow) hj
    show (List.range csr.nnz).getD j 0 = j
    rw [List.getD_eq_getElem _ _ (by simpa using hj), List.getElem_range]
  rw [hnull', hids, CSRMatrix.places]
  constructor
  · intro heq
    have heq := congrArg List.head? (Except.ok.inj heq)
    right
    by_cases hlen : csr.ptr (row + 1) - csr.ptr row = 0
    · right
      omega
    · left
      obtain ⟨n, hn⟩ := Nat.exists_eq_succ_of_ne_zero hlen
      rw [hn, List.range'_succ, List.range'_succ] at heq
      have heq := Option.some.inj heq
      rcases hbits with hbits | hbits <;> rw [hbits] at heq <;> omega
  · rintro (hle | hzero | hempty)
    · exact absurd hle hrow
    · rw [hzero, Nat.zero_mul]
    · rw [hempty, Nat.sub_self]
      rfl

omit h hnull in
/-- What the search finds for a pair of indices. -/
lemma search_eq (hs : csr.ColsSorted) (hsorted : csr.sorted = true) {p : ℕ × ℕ}
    (hp : p.1 < csr.numRows) :
    ((lowerBound (fun e : Entry => e.2.1) p.2 (csr.rowEntries p.1)).takeWhile
      fun e => e.2.1 = p.2) = csr.entries.filter fun e => e.1 = p.1 ∧ e.2.1 = p.2 := by
  rw [takeWhile_lowerBound (hs hsorted p.1 hp), CSRMatrix.filter_rowEntries hp]

lemma getDataAndIndices_iff (hs : csr.ColsSorted) (rows cols : List ℕ) :
    csr.getDataAndIndices rows cols = csr.withIds.getDataAndIndices rows cols ↔
      (csr.sorted = true → fits rows cols = true →
        ∀ p ∈ (broadcast rows cols).takeWhile fun p => p.1 < csr.numRows ∧ p.2 < csr.numCols,
          ∀ e ∈ csr.entries, ¬ (e.1 = p.1 ∧ e.2.1 = p.2)) := by
  by_cases hnnz : csr.nnz = 0
  · rw [withIds_of_empty hnull hnnz]
    refine iff_of_true rfl fun _ _ p _ e he _ => ?_
    have hlen : csr.entries.length = 0 := by
      have hids := congrArg List.length h.map_entries
      rwa [List.length_map, List.length_map, List.length_range, hnnz] at hids
    rw [List.length_eq_zero_iff.1 hlen] at he
    cases he
  by_cases hfits : fits rows cols = true
  swap
  · rw [CSRMatrix.getDataAndIndices, CSRMatrix.getDataAndIndices]
    rw [Bool.not_eq_true] at hfits
    rw [hfits]
    exact iff_of_true rfl fun _ hfits => absurd hfits Bool.false_ne_true
  let inRange : ℕ × ℕ → Bool := fun p => p.1 < csr.numRows ∧ p.2 < csr.numCols
  let found : ℕ × ℕ → List Entry := fun p => csr.entries.filter fun e => e.1 = p.1 ∧ e.2.1 = p.2
  have hrange (p : ℕ × ℕ) : (csr.numRows ≤ p.1 ∨ csr.numCols ≤ p.2) ↔ (!inRange p) = true := by
    simp [inRange, or_iff_not_imp_left]
  have hrow {p : ℕ × ℕ} (hp : ¬ (!inRange p) = true) : p.1 < csr.numRows := by
    rw [← hrange] at hp
    omega
  have hfound : csr.withIds.getDataAndIndices rows cols = (broadcast rows cols).mapM fun p =>
      if !inRange p then .error .raised else .ok (found p) := by
    unfold CSRMatrix.getDataAndIndices
    rw [hfits, Bool.not_true, if_neg Bool.false_ne_true]
    congr 1
    funext p
    show (if csr.numRows ≤ p.1 ∨ csr.numCols ≤ p.2 then _ else if csr.sorted = true then _ else _) = _
    simp only [hrange]
    by_cases hp : (!inRange p) = true
    · rw [if_pos hp, if_pos hp]
    · rw [if_neg hp, if_neg hp, rowEntries_withIds h hnull (hrow hp)]
      split
      · rename_i hsorted
        rw [search_eq hs hsorted (hrow hp), hasData_withIds.2 hnnz]
        rfl
      · rw [CSRMatrix.filter_rowEntries (hrow hp)]
  rw [hfound]
  by_cases hsorted : csr.sorted = true
  · have hread : csr.getDataAndIndices rows cols = (broadcast rows cols).mapM fun p =>
        if !inRange p then .error .raised
        else if !(found p).isEmpty then .error .outOfBounds else .ok (found p) := by
      unfold CSRMatrix.getDataAndIndices
      rw [hfits, Bool.not_true, if_neg Bool.false_ne_true]
      congr 1
      funext p
      simp only [hrange]
      by_cases hp : (!inRange p) = true
      · rw [if_pos hp, if_pos hp]
      · rw [if_neg hp, if_neg hp, if_pos hsorted, search_eq hs hsorted (hrow hp),
          hasData_null hnull]
        rfl
    rw [hread, mapM_found_iff]
    constructor
    · intro hall _ _ p hp e he hep
      exact List.filter_eq_nil_iff.1 (hall p hp) e he (by simpa using hep)
    · intro hall p hp
      rw [List.filter_eq_nil_iff]
      intro e he hep
      exact hall hsorted hfits p hp e he (by simpa using hep)
  · have hread : csr.getDataAndIndices rows cols = (broadcast rows cols).mapM fun p =>
        if !inRange p then .error .raised else .ok (found p) := by
      unfold CSRMatrix.getDataAndIndices
      rw [hfits, Bool.not_true, if_neg Bool.false_ne_true]
      congr 1
      funext p
      simp only [hrange]
      by_cases hp : (!inRange p) = true
      · rw [if_pos hp, if_pos hp]
      · rw [if_neg hp, if_neg hp, if_neg hsorted, CSRMatrix.filter_rowEntries (hrow hp)]
    exact iff_of_true hread fun h => absurd h hsorted

omit h in
lemma explicit_null : (IdResult.csr csr : IdResult α).explicit = .csr csr.withIds := by
  rw [IdResult.explicit, hasData_null hnull]
  rfl

omit h hnull in
lemma explicit_of_length {m : CSRMatrix} (hlen : m.data.length = m.nnz) :
    (IdResult.csr m : IdResult α).explicit = .csr m := by
  by_cases hd : m.hasData = true
  · rw [IdResult.explicit, if_pos hd]
  · have hnull : m.data = [] := by simpa [CSRMatrix.hasData] using hd
    rw [IdResult.explicit, if_neg hd, withIds_of_empty hnull]
    rw [← hlen, hnull]
    rfl

omit h hnull in
lemma explicit_withIds : (IdResult.csr csr.withIds : IdResult α).explicit = .csr csr.withIds :=
  explicit_of_length List.length_range

omit h hnull in
lemma explicit_ofRows (bits numCols : ℕ) (rows : List (List (ℕ × ℕ))) (sorted : Bool) :
    (IdResult.csr (.ofRows bits numCols rows sorted) : IdResult α).explicit =
      .csr (.ofRows bits numCols rows sorted) := by
  apply explicit_of_length
  show (rows.flatten.map Prod.snd).length = (rows.flatten.map Prod.fst).length
  rw [List.length_map, List.length_map]

variable (entries : List ℕ)

lemma removeShuffled_withIds : csr.withIds.removeShuffled entries =
      CSRMatrix.ofRows csr.bits csr.numCols ((List.range csr.numRows).map fun i =>
        ((csr.places i).filter (· ∉ entries)).map fun j => (csr.indices.getD j 0, j)) false := by
  show CSRMatrix.ofRows _ _ ((List.range csr.numRows).map fun i =>
    ((csr.withIds.rowEntries i).filter fun e => e.2.2 ∉ entries).map Prod.snd) _ = _
  congr 1
  apply List.map_congr_left
  intro i hi
  rw [rowEntries_withIds h hnull (List.mem_range.1 hi), rowEntries_null hnull, List.filter_map,
    List.map_map]
  rfl

omit hnull in
lemma ofRows_ids_iff (f : ℕ → ℕ) :
    CSRMatrix.ofRows csr.bits csr.numCols ((List.range csr.numRows).map fun i =>
        ((csr.places i).filter (· ∉ entries)).map fun j => (csr.indices.getD j 0, f j)) false =
      CSRMatrix.ofRows csr.bits csr.numCols ((List.range csr.numRows).map fun i =>
        ((csr.places i).filter (· ∉ entries)).map fun j => (csr.indices.getD j 0, j)) false ↔
      ∀ j < csr.nnz, j ∉ entries → f j = j := by
  have hdata (g : ℕ → ℕ) : (CSRMatrix.ofRows csr.bits csr.numCols ((List.range csr.numRows).map
      fun i => ((csr.places i).filter (· ∉ entries)).map fun j => (csr.indices.getD j 0, g j))
      false).data = ((List.range csr.nnz).filter (· ∉ entries)).map g := by
    show (List.flatten _).map Prod.snd = _
    rw [← h.flatMap_places, ← List.flatMap_def, List.map_flatMap, List.filter_flatMap,
      List.map_flatMap]
    simp only [List.map_map]
    rfl
  constructor
  · intro heq j hj hkept
    have heq := congrArg CSRMatrix.data heq
    rw [hdata f, hdata fun j => j, List.map_inj_left] at heq
    exact heq j (List.mem_filter.2 ⟨List.mem_range.2 hj, by simpa using hkept⟩)
  · intro hall
    congr 1
    apply List.map_congr_left
    intro i hi
    apply List.map_congr_left
    intro j hj
    obtain ⟨hj, hkept⟩ := List.mem_filter.1 hj
    rw [hall j (h.place_lt (List.mem_range.1 hi) hj) (by simpa using hkept)]

lemma remove_iff : ((IdOp.remove entries).run csr).map (IdResult.explicit (α := α)) =
        ((IdOp.remove entries).run csr.withIds).map IdResult.explicit ↔
      entries = [] ∨ csr.nnz < entries.length ∨
        ∀ j < csr.nnz, j ∉ entries → entries.countP (· < j) = j := by
  by_cases hnil : entries = []
  · have hrun (m : CSRMatrix) : (IdOp.remove entries : IdOp α).run m = .ok (.csr m) := by
      rw [IdOp.run, CSRMatrix.remove, if_pos hnil]
      rfl
    rw [hrun, hrun]
    refine iff_of_true ?_ (Or.inl hnil)
    show Except.ok (IdResult.explicit _) = Except.ok (IdResult.explicit _)
    rw [explicit_null hnull, explicit_withIds]
  by_cases hmany : csr.nnz < entries.length
  · have hraised : csr.remove entries = .error .raised := by
      rw [CSRMatrix.remove, if_neg hnil, if_pos hmany]
    have hraised' : csr.withIds.remove entries = .error .raised := by
      rw [CSRMatrix.remove, if_neg hnil]
      exact if_pos hmany
    rw [IdOp.run, IdOp.run, hraised, hraised']
    exact iff_of_true rfl (Or.inr (Or.inl hmany))
  · have hnnz : csr.nnz ≠ 0 := by
      have hpos := List.length_pos_iff.2 hnil
      omega
    have hremoved : csr.remove entries = .ok (csr.removeConsecutive entries) := by
      rw [CSRMatrix.remove, if_neg hnil, if_neg hmany, hasData_null hnull]
      rfl
    have hremoved' : csr.withIds.remove entries = .ok (csr.withIds.removeShuffled entries) := by
      have hmany' : ¬ csr.withIds.nnz < entries.length := hmany
      rw [CSRMatrix.remove, if_neg hnil, if_neg hmany', if_pos (hasData_withIds.2 hnnz)]
    rw [IdOp.run, IdOp.run, hremoved, hremoved', removeConsecutive_eq h.framed,
      removeShuffled_withIds h hnull]
    show Except.ok (IdResult.explicit _) = Except.ok (IdResult.explicit _) ↔ _
    rw [explicit_ofRows, explicit_ofRows, Except.ok.injEq, IdResult.csr.injEq, ofRows_ids_iff h]
    constructor
    · exact fun hall => Or.inr (Or.inr hall)
    · rintro (hnil' | hmany' | hall)
      · exact absurd hnil' hnil
      · exact absurd hmany' hmany
      · exact hall

omit h in
lemma reorder_iff (newRows newCols : List ℕ) :
    ((IdOp.reorder newRows newCols).run csr).map (IdResult.explicit (α := α)) =
        ((IdOp.reorder newRows newCols).run csr.withIds).map IdResult.explicit ↔
      csr.nnz = 0 ∨ newRows.length ≠ csr.numRows ∨ newCols.length ≠ csr.numCols ∨
        ¬ newRows.Perm (List.range csr.numRows) := by
  by_cases hnnz : csr.nnz = 0
  · rw [withIds_of_empty hnull hnnz]
    exact iff_of_true rfl (Or.inl hnnz)
  -- The checks are the same for both matrices.
  have hread : csr.reorder newRows newCols =
      if newRows.length ≠ csr.numRows ∨ newCols.length ≠ csr.numCols then .error .raised
      else if newRows.any fun r => csr.numRows ≤ r then .error .outOfBounds
      else if (List.range csr.numRows).any fun r => r ∉ newRows then .error .raised
      else .error .outOfBounds := by
    have hnone : (!csr.hasData) = true ∧ csr.nnz ≠ 0 := by
      rw [hasData_null hnull]
      exact ⟨rfl, hnnz⟩
    rw [CSRMatrix.reorder, if_pos hnone]
  have hcopy : ∃ m, csr.withIds.reorder newRows newCols =
      if newRows.length ≠ csr.numRows ∨ newCols.length ≠ csr.numCols then .error .raised
      else if newRows.any fun r => csr.numRows ≤ r then .error .outOfBounds
      else if (List.range csr.numRows).any fun r => r ∉ newRows then .error .raised
      else .ok m := by
    have hsome : ¬ ((!csr.withIds.hasData) = true ∧ csr.withIds.nnz ≠ 0) := by
      rw [hasData_withIds.2 hnnz]
      exact fun h => Bool.false_ne_true h.1
    refine ⟨.ofRows csr.bits csr.numCols ((List.range csr.numRows).map fun r =>
      (csr.withIds.rowEntries (newRows.idxOf r)).map fun e => (newCols.getD e.2.1 0, e.2.2)) false, ?_⟩
    rw [CSRMatrix.reorder, if_neg hsome]
    rfl
  obtain ⟨m, hcopy⟩ := hcopy
  rw [IdOp.run, IdOp.run, hread, hcopy]
  by_cases hlen : newRows.length ≠ csr.numRows ∨ newCols.length ≠ csr.numCols
  · rw [if_pos hlen, if_pos hlen]
    refine iff_of_true rfl (Or.inr ?_)
    tauto
  rw [if_neg hlen, if_neg hlen]
  by_cases hout : (newRows.any fun r => csr.numRows ≤ r) = true
  · rw [if_pos hout, if_pos hout]
    refine iff_of_true rfl (Or.inr (Or.inr (Or.inr fun hperm => ?_)))
    obtain ⟨r, hr, hle⟩ := List.any_eq_true.1 hout
    have hlt := List.mem_range.1 (hperm.subset hr)
    have hle : csr.numRows ≤ r := by simpa using hle
    omega
  rw [if_neg hout, if_neg hout]
  by_cases hmissing : ((List.range csr.numRows).any fun r => r ∉ newRows) = true
  · rw [if_pos hmissing, if_pos hmissing]
    refine iff_of_true rfl (Or.inr (Or.inr (Or.inr fun hperm => ?_)))
    obtain ⟨r, hr, hno⟩ := List.any_eq_true.1 hmissing
    have hno : r ∉ newRows := by simpa using hno
    exact hno (hperm.symm.subset hr)
  rw [if_neg hmissing, if_neg hmissing]
  have hall : List.range csr.numRows ⊆ newRows := by
    intro r hr
    by_contra hno
    exact hmissing (List.any_eq_true.2 ⟨r, hr, by simpa using hno⟩)
  have hperm : newRows.Perm (List.range csr.numRows) := by
    have hsub := List.subperm_of_subset List.nodup_range hall
    apply (hsub.perm_of_length_le _).symm
    rw [List.length_range]
    omega
  refine iff_of_false nofun ?_
  tauto

end Entries

/-- **Without a data array**: a function returns what it returns for the ids `0, 1, …` exactly when its
own case for an absent array is right. -/
theorem null_data_iff {α : Type} {csr : CSRMatrix} (h : csr.Valid) (hnull : csr.data = [])
    (hsorted : csr.ColsSorted) (hbits : csr.bits = 32 ∨ csr.bits = 64) (op : IdOp α) :
    (op.run csr).map IdResult.explicit = (op.run csr.withIds).map IdResult.explicit ↔
      op.RightWithoutData csr := by
  cases op with
  | getRowData row =>
      exact (map_explicit_iff (fun _ _ => IdResult.ids.inj) (fun _ => rfl) _ _).trans
        (getRowData_iff h hnull hbits row)
  | getData value filler rows cols =>
      refine iff_of_true ?_ trivial
      rw [IdOp.run, IdOp.run, getData_withIds h hnull]
  | getDataAndIndices rows cols =>
      exact (map_explicit_iff (fun _ _ => IdResult.found.inj) (fun _ => rfl) _ _).trans
        (getDataAndIndices_iff h hnull hsorted rows cols)
  | sliceRange start stop =>
      refine iff_of_true ?_ trivial
      rw [IdOp.run, IdOp.run, sliceRange_withIds h hnull]
  | sliceRows rows =>
      refine iff_of_true ?_ trivial
      rw [IdOp.run, IdOp.run, sliceRows_withIds h hnull]
  | sliceMatrix rows cols =>
      refine iff_of_true ?_ trivial
      rw [IdOp.run, IdOp.run, sliceMatrix_withIds h hnull]
  | transpose =>
      refine iff_of_true ?_ trivial
      rw [IdOp.run, IdOp.run, transpose_withIds h hnull]
  | toCOO => exact iff_of_true (congrArg Except.ok (toCOO_withIds h hnull).symm) trivial
  | remove entries => exact remove_iff h hnull entries
  | reorder newRows newCols => exact reorder_iff hnull newRows newCols

/-- Two entries in row 0 and one in row 1, without a data array. -/
def threePlaces : CSRMatrix where
  bits := 64
  numRows := 2
  numCols := 2
  indptr := [0, 2, 3]
  indices := [0, 1, 0]
  data := []
  sorted := true

lemma threePlaces_valid : threePlaces.Valid where
  indptr_length := rfl
  ptr_zero := rfl
  ptr_mono := by decide
  ptr_last := rfl
  col_lt := by decide
  numbers := Or.inl rfl

theorem null_data_row_zero :
    ((IdOp.getRowData 0).run threePlaces).map (IdResult.explicit (α := ℕ)) =
      ((IdOp.getRowData 0).run threePlaces.withIds).map IdResult.explicit :=
  (null_data_iff threePlaces_valid rfl (fun _ => by decide) (Or.inr rfl) (.getRowData 0)).2
    (Or.inr (Or.inl rfl))

/-- Row 1 has the id 2, not 16; a lookup in the sorted rows and `CSRReorder` read the null array; and
without entry 0 the ids are 1 and 2, not 1 and 1. -/
theorem null_data_differs :
    threePlaces.withIds.getRowData 1 = .ok [2] ∧ threePlaces.getRowData 1 = .ok [16] ∧
      threePlaces.getDataAndIndices [0] [1] = .error .outOfBounds ∧
      threePlaces.reorder [0, 1] [0, 1] = .error .outOfBounds ∧
      (threePlaces.remove [0]).map (·.data) = .ok [1, 1] ∧
      (threePlaces.withIds.remove [0]).map (·.data) = .ok [1, 2] := by decide

end DglAscend.Aten
