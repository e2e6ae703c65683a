import DglAscend.Aten.NullData

/-!
# Removing entries

`cpu/coo_remove.cc`, beside `CSRRemove`.  A matrix with a data array probes a set of the ids that go;
without one the ids are the places, and a cursor runs through the sorted list of them.  Here is exactly
when the two functions remove what they are asked to, in one call and in two.
-/

namespace DglAscend.Aten

/-- `eid_map.Contains(eid)` -/
def IdHashMap.contains (m : IdHashMap) (id : ℕ) : Bool := id ∈ m.ids

lemma contains_ofIds {entries : List ℕ} {i : ℕ} :
    (IdHashMap.ofIds entries).contains i = true ↔ i ∈ entries := by
  rw [IdHashMap.contains, decide_eq_true_eq, IdHashMap.mem_ofIds]

lemma filter_notMem_nil (es : List Entry) : (es.filter fun e => e.2.2 ∉ ([] : List ℕ)) = es := by
  simp

/-- What neither list names is not named by their union. -/
lemma filter_filter_notMem {xs ys zs : List ℕ} (hunion : ∀ x, x ∈ zs ↔ x ∈ xs ∨ x ∈ ys)
    (es : List Entry) : ((es.filter fun e => e.2.2 ∉ xs).filter fun e => e.2.2 ∉ ys) =
      es.filter fun e => e.2.2 ∉ zs := by
  rw [List.filter_filter]
  apply List.filter_congr
  intro e _
  have hiff : e.2.2 ∉ zs ↔ e.2.2 ∉ ys ∧ e.2.2 ∉ xs := by
    rw [hunion, not_or, and_comm]
  rw [decide_eq_decide.2 hiff, Bool.decide_and]

/-! ## What is asked for -/

namespace COOMatrix

variable (coo : COOMatrix)

/-- The loop body of `COORemoveConsecutive`, with the cursor. -/
def consecutiveStep (entryDataSorted : List ℕ) (s : ℕ × List Entry) (i : ℕ) : ℕ × List Entry :=
  if entryDataSorted[s.1]? = some i then (skipEqual entryDataSorted s.1 i, s.2)
  else (s.1, s.2 ++ [(coo.row.getD i 0, coo.col.getD i 0, i)])

/-- `COORemoveConsecutive`. -/
def removeConsecutive (entries : List ℕ) : List Entry :=
  let entryDataSorted := entries.insertionSort (· ≤ ·)
  ((List.range coo.nnz).foldl (coo.consecutiveStep entryDataSorted) (0, [])).2

/-- `COORemoveShuffled`. -/
def removeShuffled (entries : List ℕ) : List Entry :=
  let eidMap := IdHashMap.ofIds entries
  (List.range coo.nnz).foldl (fun new i =>
    let eid := coo.data.getD i 0
    if eidMap.contains eid then new else new ++ [(coo.row.getD i 0, coo.col.getD i 0, eid)]) []

/-- `COORemove`.  With more entries than the matrix has `reserve` is called with a negative number. -/
def remove (entries : List ℕ) : Except Fault COOMatrix :=
  if entries = [] then .ok coo
  else if coo.nnz < entries.length then .error .raised
  else .ok (ofEntries coo.bits coo.numRows coo.numCols
    (if coo.hasData then coo.removeShuffled entries else coo.removeConsecutive entries) false false)

/-- The same matrix with the data array `0, 1, …`. -/
def withIds : COOMatrix := { coo with data := List.range coo.nnz }

/-- The call returns the matrix without the entries that have these ids. -/
def Removes (entries : List ℕ) : Prop :=
  ∃ result, coo.remove entries = .ok result ∧ result.bits = coo.bits ∧
    result.numRows = coo.numRows ∧ result.numCols = coo.numCols ∧
    result.entries = coo.entries.filter fun e => e.2.2 ∉ entries

/-- Two lists of ids are removed: each call returns what it should, the ids may as well be given, and one
call with the union of the lists returns the same matrix. -/
structure RemovesInTurn (xs ys zs : List ℕ) : Prop where
  first : coo.Removes xs
  withIds : coo.data = [] → xs ≠ [] → coo.withIds.remove xs = coo.remove xs
  second : ∀ m, coo.remove xs = .ok m → m.Removes ys
  union : coo.Removes zs
  same : ∀ m m' m'', coo.remove xs = .ok m → m.remove ys = .ok m' → coo.remove zs = .ok m'' →
    m'.entries = m''.entries

end COOMatrix

namespace CSRMatrix

variable (csr : CSRMatrix)

/-- The call returns the matrix without the entries that have these ids. -/
def Removes (entries : List ℕ) : Prop :=
  ∃ result, csr.remove entries = .ok result ∧ result.bits = csr.bits ∧
    result.numRows = csr.numRows ∧ result.numCols = csr.numCols ∧ result.Framed ∧
    ∀ r < csr.numRows, result.rowEntries r = (csr.rowEntries r).filter fun e => e.2.2 ∉ entries

/-- Two lists of ids are removed: each call returns what it should, the ids may as well be given, and one
call with the union of the lists returns the same matrix. -/
structure RemovesInTurn (xs ys zs : List ℕ) : Prop where
  first : csr.Removes xs
  withIds : csr.data = [] → xs ≠ [] → csr.withIds.remove xs = csr.remove xs
  second : ∀ m, csr.remove xs = .ok m → m.Removes ys
  union : csr.Removes zs
  same : ∀ m m' m'', csr.remove xs = .ok m → m.remove ys = .ok m' → csr.remove zs = .ok m'' →
    m'.entries = m''.entries

/-- Every place that is kept has as many removed ones before it as there are places before it; repeated
ids count again. -/
def CountsPlaces (entries : List ℕ) : Prop :=
  ∀ j < csr.nnz, j ∉ entries → entries.countP (· < j) = j

end CSRMatrix

/-! ## COO -/

namespace COOMatrix

variable {coo : COOMatrix} {entries xs ys zs : List ℕ}

lemma foldl_consecutiveStep (n : ℕ) :
    (List.range n).foldl (coo.consecutiveStep (entries.insertionSort (· ≤ ·))) (0, []) =
      (entries.countP (· < n), ((List.range n).filter (· ∉ entries)).map fun i =>
        (coo.row.getD i 0, coo.col.getD i 0, i)) := by
  have hperm : (entries.insertionSort (· ≤ ·)).Perm entries := List.perm_insertionSort _ _
  have hsorted : (entries.insertionSort (· ≤ ·)).Pairwise (· ≤ ·) :=
    List.pairwise_insertionSort _ _
  induction n with
  | zero => simp
  | succ n ih =>
      have hmeets := getElem?_countP_lt (i := n) hsorted
      have hskip := skipEqual_countP_lt (i := n) hsorted
      rw [hperm.countP_eq, hperm.mem_iff] at hmeets
      rw [hperm.countP_eq, hperm.countP_eq] at hskip
      rw [List.range_succ, List.foldl_append, ih, List.foldl_cons, List.foldl_nil, List.filter_append,
        List.map_append, consecutiveStep]
      by_cases hn : n ∈ entries
      · rw [if_pos (hmeets.2 hn), hskip, List.filter_cons_of_neg (by simpa using hn)]
        exact Prod.ext rfl (List.append_nil _).symm
      · rw [if_neg fun h => hn (hmeets.1 h), countP_lt_succ_of_notMem hn,
          List.filter_cons_of_pos (by simpa using hn)]
        rfl

lemma removeConsecutive_eq (hd : coo.data = []) :
    coo.removeConsecutive entries = coo.entries.filter fun e => e.2.2 ∉ entries := by
  have hentry (i : ℕ) : coo.entry i = (coo.row.getD i 0, coo.col.getD i 0, i) := by
    rw [entry, idAt, if_pos hd]
  rw [removeConsecutive, foldl_consecutiveStep, COOMatrix.entries, List.filter_map]
  simp only [Function.comp_def, hentry]
  exact List.map_congr_left fun i _ => (hentry i).symm

lemma removeShuffled_eq (hd : coo.data ≠ []) :
    coo.removeShuffled entries = coo.entries.filter fun e => e.2.2 ∉ entries := by
  have hentry (i : ℕ) : coo.entry i = (coo.row.getD i 0, coo.col.getD i 0, coo.data.getD i 0) := by
    rw [entry, idAt, if_neg hd]
  rw [removeShuffled, COOMatrix.entries]
  induction coo.nnz with
  | zero => rfl
  | succ n ih =>
      dsimp only at ih ⊢
      rw [List.range_succ, List.foldl_append, ih, List.foldl_cons, List.foldl_nil, List.map_append,
        List.filter_append, List.map_singleton, hentry]
      by_cases hn : coo.data.getD n 0 ∈ entries
      · rw [if_pos (contains_ofIds.2 hn), List.filter_cons_of_neg (by simpa using hn)]
        exact (List.append_nil _).symm
      · rw [if_neg fun h => hn (contains_ofIds.1 h), List.filter_cons_of_pos (by simpa using hn)]
        rfl

/-- Both paths keep the entries whose ids are not in the list. -/
lemma remove_eq (coo : COOMatrix) (hne : entries ≠ []) :
    coo.remove entries = if coo.nnz < entries.length then .error .raised
      else .ok (ofEntries coo.bits coo.numRows coo.numCols
        (coo.entries.filter fun e => e.2.2 ∉ entries) false false) := by
  rw [remove, if_neg hne]
  by_cases hd : coo.data = []
  · have hno : ¬ coo.hasData = true := by simpa [hasData] using hd
    rw [removeConsecutive_eq hd, if_neg hno]
  · have hyes : coo.hasData = true := by simpa [hasData] using hd
    rw [removeShuffled_eq hd, if_pos hyes]

/-- **One call** returns what it should exactly if the list is not longer than the matrix. -/
theorem removes_iff (coo : COOMatrix) (entries : List ℕ) :
    coo.Removes entries ↔ entries = [] ∨ entries.length ≤ coo.nnz := by
  by_cases hne : entries = []
  · refine iff_of_true ⟨coo, ?_, rfl, rfl, rfl, ?_⟩ (Or.inl hne)
    · rw [remove, if_pos hne]
    · rw [hne, filter_notMem_nil]
  · rw [Removes, remove_eq coo hne, or_iff_right hne]
    constructor
    · rintro ⟨result, hresult, -⟩
      by_contra hlong
      rw [if_pos (Nat.lt_of_not_le hlong)] at hresult
      cases hresult
    · intro hle
      rw [if_neg (Nat.not_lt.2 hle)]
      exact ⟨_, rfl, rfl, rfl, rfl, entries_ofEntries ..⟩

lemma withIds_entries (hd : coo.data = []) : coo.withIds.entries = coo.entries := by
  apply List.map_congr_left
  intro i hi
  have hi : i < coo.nnz := List.mem_range.1 hi
  have hne : List.range coo.nnz ≠ [] := fun h => by
    rw [List.range_eq_nil.1 h] at hi
    exact Nat.not_lt_zero i hi
  have hid : idAt (List.range coo.nnz) i = idAt coo.data i := by
    rw [idAt, idAt, if_neg hne, if_pos hd, List.getD_eq_getElem _ _ (by rwa [List.length_range]),
      List.getElem_range]
  show (_, _, idAt (List.range coo.nnz) i) = _
  rw [hid]
  rfl

/-- The explicit ids are probed, the others are met by the cursor. -/
lemma remove_withIds (hd : coo.data = []) (hne : entries ≠ []) :
    coo.withIds.remove entries = coo.remove entries := by
  rw [remove_eq _ hne, remove_eq _ hne, withIds_entries hd]
  rfl

lemma nnz_of_remove {m : COOMatrix} (hm : coo.remove entries = .ok m) :
    m.nnz = coo.entries.countP fun e => e.2.2 ∉ entries := by
  by_cases hne : entries = []
  · rw [remove, if_pos hne] at hm
    obtain rfl := Except.ok.inj hm
    rw [hne, List.countP_eq_length_filter, filter_notMem_nil, COOMatrix.entries, List.length_map,
      List.length_range]
  · rw [remove_eq _ hne] at hm
    split at hm
    · cases hm
    · obtain rfl := Except.ok.inj hm
      rw [List.countP_eq_length_filter]
      exact List.length_map _

lemma entries_of_remove {m : COOMatrix} (hm : coo.remove entries = .ok m) :
    m.entries = coo.entries.filter fun e => e.2.2 ∉ entries := by
  have hremoves : coo.Removes entries := by
    rw [removes_iff]
    by_contra hnot
    rw [not_or, Nat.not_le] at hnot
    rw [remove_eq _ hnot.1, if_pos hnot.2] at hm
    cases hm
  obtain ⟨result, hresult, -, -, -, hentries⟩ := hremoves
  obtain rfl := Except.ok.inj (hm.symm.trans hresult)
  exact hentries

/-- **Two calls.** -/
theorem removesInTurn_iff (hunion : ∀ x, x ∈ zs ↔ x ∈ xs ∨ x ∈ ys) :
    coo.RemovesInTurn xs ys zs ↔
      (xs = [] ∨ xs.length ≤ coo.nnz) ∧
      (ys = [] ∨ ys.length ≤ coo.entries.countP fun e => e.2.2 ∉ xs) ∧
      (zs = [] ∨ zs.length ≤ coo.nnz) := by
  constructor
  · intro h
    obtain ⟨m, hm, -⟩ := h.first
    have hsecond := (removes_iff m ys).1 (h.second m hm)
    rw [nnz_of_remove hm] at hsecond
    exact ⟨(removes_iff _ _).1 h.first, hsecond, (removes_iff _ _).1 h.union⟩
  · rintro ⟨hfirst, hsecond, hall⟩
    exact {
      first := (removes_iff _ _).2 hfirst
      withIds := remove_withIds
      second := fun m hm => by rwa [removes_iff, nnz_of_remove hm]
      union := (removes_iff _ _).2 hall
      same := fun m m' m'' hm hm' hm'' => by
        rw [entries_of_remove hm', entries_of_remove hm, entries_of_remove hm'',
          filter_filter_notMem hunion] }

end COOMatrix

/-! ## CSR -/

namespace CSRMatrix

variable {csr : CSRMatrix} {entries xs ys zs : List ℕ}

/-- The rows that `CSRRemoveConsecutive` collects. -/
def countedRows (csr : CSRMatrix) (entries : List ℕ) : List (List (ℕ × ℕ)) :=
  (List.range csr.numRows).map fun r => ((csr.places r).filter (· ∉ entries)).map fun j =>
    (csr.indices.getD j 0, entries.countP (· < j))

/-- The rows that `CSRRemoveShuffled` collects. -/
def remainingRows (csr : CSRMatrix) (entries : List ℕ) : List (List (ℕ × ℕ)) :=
  (List.range csr.numRows).map fun r => ((csr.rowEntries r).filter fun e => e.2.2 ∉ entries).map Prod.snd

lemma remove_eq (h : csr.Framed) (hne : entries ≠ []) :
    csr.remove entries = if csr.nnz < entries.length then .error .raised
      else .ok (ofRows csr.bits csr.numCols
        (if csr.hasData then csr.remainingRows entries else csr.countedRows entries) false) := by
  rw [remove, if_neg hne]
  by_cases hd : csr.hasData = true
  · rw [if_pos hd, if_pos hd]
    rfl
  · rw [if_neg hd, if_neg hd, removeConsecutive_eq h]
    rfl

/-- The kept entries of a row without a data array. -/
lemma kept_null (hd : csr.data = []) (r : ℕ) :
    ((csr.rowEntries r).filter fun e => e.2.2 ∉ entries).map Prod.snd =
      ((csr.places r).filter (· ∉ entries)).map fun j => (csr.indices.getD j 0, j) := by
  have hentry (j : ℕ) : csr.entry r j = (r, csr.indices.getD j 0, j) := by
    rw [entry, idAt, if_pos hd]
  rw [rowEntries, List.filter_map, List.map_map]
  simp only [Function.comp_def, hentry]

/-- **The cursor is the place** of every entry that is kept exactly if the list counts the places. -/
lemma countedRows_eq_iff (h : csr.Framed) (hd : csr.data = []) :
    csr.countedRows entries = csr.remainingRows entries ↔ csr.CountsPlaces entries := by
  rw [countedRows, remainingRows, List.map_inj_left]
  constructor
  · intro hall j hj hkept
    have hmem : j ∈ (List.range csr.numRows).flatMap csr.places := by
      rw [h.flatMap_places]
      exact List.mem_range.2 hj
    obtain ⟨r, hr, hjr⟩ := List.mem_flatMap.1 hmem
    have hrow := hall r hr
    rw [kept_null hd, List.map_inj_left] at hrow
    exact congrArg Prod.snd (hrow j (List.mem_filter.2 ⟨hjr, by simpa using hkept⟩))
  · intro hall r hr
    rw [kept_null hd]
    apply List.map_congr_left
    intro j hj
    obtain ⟨hj, hkept⟩ := List.mem_filter.1 hj
    rw [hall j (h.place_lt (List.mem_range.1 hr) hj) (by simpa using hkept)]

lemma length_remainingRows : (csr.remainingRows entries).length = csr.numRows := by simp [remainingRows]

lemma length_countedRows : (csr.countedRows entries).length = csr.numRows := by simp [countedRows]

lemma getElem_remainingRows {r : ℕ} (hr : r < (csr.remainingRows entries).length) :
    (csr.remainingRows entries)[r].map (fun x => (r, x)) =
      (csr.rowEntries r).filter fun e => e.2.2 ∉ entries := by
  simp only [remainingRows, List.getElem_map, List.getElem_range, List.map_map]
  have hself : ∀ e ∈ (csr.rowEntries r).filter fun e => e.2.2 ∉ entries,
      ((fun x => (r, x)) ∘ Prod.snd) e = id e := by
    intro e he
    obtain ⟨j, hj, rfl⟩ := List.mem_map.1 (List.mem_filter.1 he).1
    rfl
  rw [List.map_congr_left hself, List.map_id]

/-- Collected rows are the kept ones if the matrix of them has the kept entries. -/
lemma rows_eq_iff {rows : List (List (ℕ × ℕ))} (hlen : rows.length = csr.numRows) :
    (∀ r < csr.numRows, (ofRows csr.bits csr.numCols rows false).rowEntries r =
      (csr.rowEntries r).filter fun e => e.2.2 ∉ entries) ↔ rows = csr.remainingRows entries := by
  constructor
  · intro hall
    apply List.ext_getElem (hlen.trans length_remainingRows.symm)
    intro r hr hr'
    have hrow := hall r (hlen ▸ hr)
    rw [rowEntries_ofRows hr, ← getElem_remainingRows hr'] at hrow
    exact List.map_injective_iff.2 (fun x y hxy => congrArg Prod.snd hxy) hrow
  · rintro rfl r hr
    have hr : r < (csr.remainingRows entries).length := hlen.symm ▸ hr
    rw [rowEntries_ofRows hr, getElem_remainingRows hr]

/-- **One call** returns what it should exactly if the list is not longer than the matrix and, where the
matrix has no data array, counts the places that stay. -/
theorem removes_iff (h : csr.Framed) (entries : List ℕ) :
    csr.Removes entries ↔ entries = [] ∨
      entries.length ≤ csr.nnz ∧ (csr.hasData = true ∨ csr.CountsPlaces entries) := by
  by_cases hne : entries = []
  · refine iff_of_true ⟨csr, ?_, rfl, rfl, rfl, h, fun r _ => ?_⟩ (Or.inl hne)
    · rw [remove, if_pos hne]
    · rw [hne, filter_notMem_nil]
  · rw [Removes, remove_eq h hne, or_iff_right hne]
    by_cases hlong : csr.nnz < entries.length
    · rw [if_pos hlong]
      refine iff_of_false ?_ fun hle => absurd hle.1 (Nat.not_le.2 hlong)
      rintro ⟨result, hresult, -⟩
      cases hresult
    · rw [if_neg hlong, and_iff_right (Nat.le_of_not_lt hlong)]
      have hreturns (rows : List (List (ℕ × ℕ))) (hlen : rows.length = csr.numRows) :
          (∃ result, (.ok (ofRows csr.bits csr.numCols rows false) : Except Fault CSRMatrix) = .ok result ∧
            result.bits = csr.bits ∧ result.numRows = csr.numRows ∧ result.numCols = csr.numCols ∧
            result.Framed ∧ ∀ r < csr.numRows, result.rowEntries r =
              (csr.rowEntries r).filter fun e => e.2.2 ∉ entries) ↔ rows = csr.remainingRows entries := by
        rw [← rows_eq_iff hlen]
        constructor
        · rintro ⟨result, hresult, -, -, -, -, hrows⟩
          obtain rfl := Except.ok.inj hresult
          exact hrows
        · exact fun hrows => ⟨_, rfl, rfl, hlen, rfl, framed_ofRows, hrows⟩
      by_cases hd : csr.hasData = true
      · rw [if_pos hd, hreturns _ length_remainingRows]
        exact iff_of_true rfl (Or.inl hd)
      · have hnull : csr.data = [] := by simpa [hasData] using hd
        rw [if_neg hd, hreturns _ length_countedRows, countedRows_eq_iff h hnull, or_iff_right hd]

lemma entries_eq_of_removes {m : CSRMatrix} (hrows : m.numRows = csr.numRows)
    (h : ∀ r < csr.numRows, m.rowEntries r = (csr.rowEntries r).filter fun e => e.2.2 ∉ entries) :
    m.entries = csr.entries.filter fun e => e.2.2 ∉ entries := by
  rw [CSRMatrix.entries, CSRMatrix.entries, List.filter_flatMap, hrows]
  apply List.flatMap_congr
  intro r hr
  exact h r (List.mem_range.1 hr)

/-- What a call that does what it should returns. -/
lemma Removes.of_ok {m : CSRMatrix} (h : csr.Removes entries) (hm : csr.remove entries = .ok m) :
    m.Framed ∧ m.entries = csr.entries.filter fun e => e.2.2 ∉ entries := by
  obtain ⟨result, hresult, -, hnumRows, -, hframed, hrows⟩ := h
  obtain rfl := Except.ok.inj (hm.symm.trans hresult)
  exact ⟨hframed, entries_eq_of_removes hnumRows hrows⟩

/-- A list that was removed leaves a data array behind, or nothing. -/
lemma hasData_of_remove {m : CSRMatrix} (h : csr.Framed) (hne : entries ≠ [])
    (hm : csr.remove entries = .ok m) (hpos : 0 < m.nnz) : m.hasData = true := by
  rw [remove_eq h hne] at hm
  split at hm
  · cases hm
  · obtain rfl := Except.ok.inj hm
    have hdata (rows : List (List (ℕ × ℕ))) :
        (ofRows csr.bits csr.numCols rows false).data.length =
          (ofRows csr.bits csr.numCols rows false).nnz := by
      show (rows.flatten.map Prod.snd).length = (rows.flatten.map Prod.fst).length
      rw [List.length_map, List.length_map]
    have hlen := hdata (if csr.hasData then csr.remainingRows entries else csr.countedRows entries)
    rw [← hlen] at hpos
    simpa [hasData] using List.length_pos_iff.1 hpos

lemma remainingRows_withIds (h : csr.Framed) (hd : csr.data = []) :
    csr.withIds.remainingRows entries = csr.remainingRows entries := by
  apply List.map_congr_left
  intro r hr
  have hrow : csr.withIds.rowEntries r = csr.rowEntries r := by
    apply List.map_congr_left
    intro j hj
    rw [entry, entry, idAt_withIds hd (h.place_lt (List.mem_range.1 hr) hj)]
    rfl
  rw [hrow]

/-- The explicit ids are probed, the others are met by the cursor. -/
lemma remove_withIds (h : csr.Framed) (hd : csr.data = []) (hne : entries ≠ [])
    (hcounts : csr.CountsPlaces entries) : csr.withIds.remove entries = csr.remove entries := by
  have hframed : csr.withIds.Framed := ⟨h.ptr_zero, h.ptr_mono, h.ptr_last⟩
  rw [remove_eq hframed hne, remove_eq h hne]
  show (if csr.nnz < entries.length then _ else Except.ok (ofRows csr.bits csr.numCols _ false)) = _
  rw [remainingRows_withIds h hd, (countedRows_eq_iff h hd).2 hcounts, ite_self]
  by_cases hlong : csr.nnz < entries.length
  · rw [if_pos hlong, if_pos hlong]
  · have hdata : csr.withIds.hasData = true := by
      have hpos := List.length_pos_iff.2 hne
      show decide (List.range csr.nnz ≠ []) = true
      rw [decide_eq_true_eq, Ne, List.range_eq_nil]
      omega
    rw [if_neg hlong, if_neg hlong, if_pos hdata]

/-- **Two calls.** -/
theorem removesInTurn_iff (h : csr.Framed) (hunion : ∀ x, x ∈ zs ↔ x ∈ xs ∨ x ∈ ys) :
    csr.RemovesInTurn xs ys zs ↔
      (xs = [] ∨ xs.length ≤ csr.nnz ∧ (csr.hasData = true ∨ csr.CountsPlaces xs)) ∧
      (ys = [] ∨ (ys.length ≤ csr.entries.countP fun e => e.2.2 ∉ xs) ∧
        (csr.hasData = true ∨ xs ≠ [] ∨ csr.CountsPlaces ys)) ∧
      (zs = [] ∨ zs.length ≤ csr.nnz ∧ (csr.hasData = true ∨ csr.CountsPlaces zs)) := by
  -- The second call is one of a matrix that the first one returned.
  have hsecond {m : CSRMatrix} (hfirst : csr.Removes xs) (hm : csr.remove xs = .ok m) :
      m.Removes ys ↔ (ys = [] ∨ (ys.length ≤ csr.entries.countP fun e => e.2.2 ∉ xs) ∧
        (csr.hasData = true ∨ xs ≠ [] ∨ csr.CountsPlaces ys)) := by
    obtain ⟨hframed, hentries⟩ := hfirst.of_ok hm
    have hnnz : m.nnz = csr.entries.countP fun e => e.2.2 ∉ xs := by
      rw [← hframed.length_entries, hentries, List.countP_eq_length_filter]
    rw [removes_iff hframed, ← hnnz]
    by_cases hxs : xs = []
    · rw [remove, if_pos hxs] at hm
      obtain rfl := Except.ok.inj hm
      have hno : ¬ xs ≠ [] := not_not.2 hxs
      rw [or_iff_right hno]
    · apply or_congr_right'
      intro hys
      apply and_congr_right
      intro hle
      have hpos := List.length_pos_iff.2 hys
      exact iff_of_true (Or.inl (hasData_of_remove h hxs hm (by omega))) (Or.inr (Or.inl hxs))
  constructor
  · intro hturn
    obtain ⟨m, hm, -⟩ := hturn.first
    exact ⟨(removes_iff h _).1 hturn.first, (hsecond hturn.first hm).1 (hturn.second m hm),
      (removes_iff h _).1 hturn.union⟩
  · rintro ⟨hxs, hys, hzs⟩
    have hfirst := (removes_iff h _).2 hxs
    have hall := (removes_iff h _).2 hzs
    exact {
      first := hfirst
      withIds := fun hd hne => by
        have hno : ¬ csr.hasData = true := by simpa [hasData] using hd
        exact remove_withIds h hd hne ((or_iff_right hno).1 ((or_iff_right hne).1 hxs).2)
      second := fun m hm => (hsecond hfirst hm).2 hys
      union := hall
      same := fun m m' m'' hm hm' hm'' => by
        have hm'ok := ((hsecond hfirst hm).2 hys).of_ok hm'
        rw [hm'ok.2, (hfirst.of_ok hm).2, (hall.of_ok hm'').2, filter_filter_notMem hunion] }

end CSRMatrix

/-! ## Both kinds of matrices -/

/-- One row of three entries without a data array. -/
def threeInRow : CSRMatrix where
  bits := 64
  numRows := 1
  numCols := 3
  indptr := [0, 3]
  indices := [0, 1, 2]
  data := []
  sorted := true

lemma threeInRow_framed : threeInRow.Framed := ⟨rfl, by decide, rfl⟩

end DglAscend.Aten
