import DglAscend.Aten.SortedFlags
import DglAscend.Lib.StaticChunks

/-!
# Sampling rows of a COO matrix

`COORowWisePick` of `rowwise_pick.h` slices the seed rows out, converts the slice and picks from the rows
of the slice.  These are numbered by the first occurrences of the seeds, and the numbers are taken for
places of the seed list.
-/

namespace DglAscend.Aten

/-- The functions that pick look at a row only through its columns and ids: `count` says how many entries
of such a row they pick, none of an empty one. -/
structure Picker.ByRow (picker : Picker) (count : List (ℕ × ℕ) → ℕ) : Prop where
  numPicks : ∀ rid off len indices data, picker.numPicks rid off len indices data =
    count ((List.range' off len).map fun p => (indices.getD p 0, idAt data p))
  count_nil : count [] = 0
  inside : ∀ rid off len numPicks indices data j, 0 < len → j < numPicks →
    off ≤ picker.pick rid off len numPicks indices data j ∧
      picker.pick rid off len numPicks indices data j < off + len

namespace COOMatrix

variable (coo : COOMatrix)

/-- `COOToCSR`.  Where the rows are marked as sorted and are not, the scan for the next row runs over the
end of `indptr`. -/
def convert (numThreads : ℕ) : Except Fault CSRMatrix :=
  match coo.cooToCSR numThreads with
  | none => .error .raised
  | some csr =>
      if coo.rowSorted = true ∧ ¬ coo.row.Pairwise (· ≤ ·) then .error .outOfBounds else .ok csr

/-- `COORowWisePick`, position by position of the seed list. -/
def pickRows (numThreads : ℕ) (picker : Picker) (rows : List ℕ) : Except Fault (List (List Entry)) := do
  let csr ← (coo.sliceRows rows).convert numThreads
  let picked ← (List.range rows.length).mapM (csr.pickRow picker)
  return picked.map fun es => es.map fun e => (rows.getD e.1 0, e.2)

/-- For every position of the seed list there are as many picks as `CSRRowWisePick` makes on the converted
matrix, and they are entries of the matrix in the row of the seed. -/
def SamplesLikeCSR (numThreads : ℕ) (picker : Picker) (rows : List ℕ) : Prop :=
  ∃ csr picked picked', coo.convert numThreads = .ok csr ∧ rows.mapM (csr.pickRow picker) = .ok picked ∧
    coo.pickRows numThreads picker rows = .ok picked' ∧ picked'.length = rows.length ∧
    ∀ i < rows.length, (picked'.getD i []).length = (picked.getD i []).length ∧
      ∀ e ∈ picked'.getD i [], e ∈ coo.entries ∧ e.1 = rows.getD i 0

/-- Nothing is listed again before a seed, the seed included, or its row has no edges. -/
def RepeatsAreEmpty (rows : List ℕ) : Prop :=
  ∀ i < rows.length, (rows.take (i + 1)).Nodup ∨ ∀ e ∈ coo.entries, e.1 ≠ rows.getD i 0

end COOMatrix

/-! ## The numbers of the seeds -/

variable {i d : ℕ}

namespace IdHashMap

variable {xs : List ℕ} {i : ℕ}

lemma take_prefix_ofIds (xs : List ℕ) (n : ℕ) : (ofIds (xs.take n)).ids <+: (ofIds xs).ids := by
  have hpre := prefix_ofIds (xs.take n) (xs.drop n)
  rwa [List.take_append_drop] at hpre

/-- Up to the first repetition the ids have their places as numbers. -/
lemma ofIds_getElem? (hi : i < xs.length) (h : (xs.take (i + 1)).Nodup) :
    (ofIds xs).ids[i]? = some (xs.getD i 0) := by
  have hpre := take_prefix_ofIds xs (i + 1)
  rw [ofIds_of_nodup h] at hpre
  have hlt : i < (xs.take (i + 1)).length := by
    rw [List.length_take]
    omega
  obtain ⟨rest, hrest⟩ := hpre
  rw [← hrest, List.getElem?_append_left hlt, List.getElem?_eq_getElem hlt, List.getElem_take,
    List.getD_eq_getElem _ _ hi]

/-- From the first repetition on the number is one of an id that comes later. -/
lemma notMem_take (hi : i < xs.length) (h : ¬ (xs.take (i + 1)).Nodup)
    (hd : (ofIds xs).ids[i]? = some d) : d ∉ xs.take (i + 1) := by
  have hpre := take_prefix_ofIds xs (i + 1)
  have hshort : (ofIds (xs.take (i + 1))).ids.length ≤ i := by
    have hle := length_ofIds_le (xs.take (i + 1))
    rw [List.length_take] at hle
    by_contra hlong
    have hsub : (ofIds (xs.take (i + 1))).ids.Subperm (xs.take (i + 1)) :=
      (nodup_ofIds _).subperm fun _ hx => mem_ofIds.1 hx
    have hperm := hsub.perm_of_length_le (by rw [List.length_take]; omega)
    exact h (hperm.nodup_iff.1 (nodup_ofIds _))
  intro hmem
  obtain ⟨k, hk, hget⟩ := List.getElem_of_mem (mem_ofIds.2 hmem)
  have hk' : (ofIds xs).ids[k]? = some d := by
    obtain ⟨rest, hrest⟩ := hpre
    rw [← hrest, List.getElem?_append_left hk, List.getElem?_eq_getElem hk, hget]
  obtain ⟨hi', hgeti⟩ := List.getElem?_eq_some_iff.1 hd
  obtain ⟨hk'', hgetk⟩ := List.getElem?_eq_some_iff.1 hk'
  have heq : k = i := (nodup_ofIds xs).getElem_inj_iff.1 (hgetk.trans hgeti.symm)
  omega

end IdHashMap

/-! ## The rows of the slice -/

namespace COOMatrix

variable {coo : COOMatrix} {rows : List ℕ} {numThreads : ℕ}

/-- The entries of a row. -/
def entriesAt (coo : COOMatrix) (r : ℕ) : List Entry := coo.entries.filter fun e => e.1 = r

lemma bucketed_rowEntries_eq {r : ℕ} (hr : r < coo.numRows) :
    coo.bucketed.rowEntries r = coo.entriesAt r := by
  rw [bucketed_rowEntries hr, entriesAt, entries, List.filter_map]
  rfl

lemma map_ofIds_eq_iff {x i : ℕ} :
    (IdHashMap.ofIds rows).map x = some i ↔ (IdHashMap.ofIds rows).ids[i]? = some x := by
  rw [← Option.mem_def, IdHashMap.mem_map_ofIds]
  constructor
  · rintro ⟨hx, rfl⟩
    have hlt := List.idxOf_lt_length_of_mem (IdHashMap.mem_ofIds.2 hx)
    rw [List.getElem?_eq_getElem hlt, List.getElem_idxOf]
  · intro hget
    obtain ⟨hlt, rfl⟩ := List.getElem?_eq_some_iff.1 hget
    exact ⟨IdHashMap.mem_ofIds.1 (List.getElem_mem hlt), (IdHashMap.nodup_ofIds rows).idxOf_getElem i hlt⟩

/-- A row of the slice has the entries of the seed with its number. -/
lemma sliceRows_entriesAt (hd : (IdHashMap.ofIds rows).ids[i]? = some d) :
    (coo.sliceRows rows).entriesAt i = (coo.entriesAt d).map fun e => (i, e.2) := by
  rw [entriesAt, entriesAt, sliceRows, entries_ofEntries]
  induction coo.entries with
  | nil => rfl
  | cons e es ih =>
      have hnumber : (IdHashMap.ofIds rows).map e.1 = some i ↔ e.1 = d := by
        rw [map_ofIds_eq_iff, hd, Option.some_inj, eq_comm]
      rw [List.filterMap_cons]
      cases hmap : (IdHashMap.ofIds rows).map e.1 with
      | none =>
          have hne : e.1 ≠ d := fun heq => by
            rw [hnumber.2 heq] at hmap
            cases hmap
          rw [List.filter_cons_of_neg (by simpa using hne)]
          exact ih
      | some p =>
          rw [hmap, Option.some_inj] at hnumber
          dsimp only [Option.map_some]
          by_cases hp : p = i
          · rw [List.filter_cons_of_pos (by simpa using hp),
              List.filter_cons_of_pos (by simpa using hnumber.1 hp), List.map_cons, ih, hp]
          · rw [List.filter_cons_of_neg (by simpa using hp),
              List.filter_cons_of_neg (by simpa using fun h => hp (hnumber.2 h))]
            exact ih

/-- The rows of the slice that no seed has as its number are empty. -/
lemma sliceRows_entriesAt_none (hd : (IdHashMap.ofIds rows).ids[i]? = none) :
    (coo.sliceRows rows).entriesAt i = [] := by
  rw [entriesAt, sliceRows, entries_ofEntries, List.filter_eq_nil_iff]
  intro e he hei
  obtain ⟨e', -, hmap⟩ := List.mem_filterMap.1 he
  obtain ⟨p, hp, rfl⟩ := Option.map_eq_some_iff.1 hmap
  have hpi : p = i := by simpa using hei
  rw [hpi, map_ofIds_eq_iff, hd] at hp
  cases hp

/-! ## Picking from a row -/

variable {count : List (ℕ × ℕ) → ℕ} {picker : Picker} {csr : CSRMatrix}

lemma exists_pickRow (hby : picker.ByRow count) {rid : ℕ} (hr : rid < csr.numRows) :
    ∃ es, csr.pickRow picker rid = .ok es ∧ es.length = count ((csr.rowEntries rid).map Prod.snd) ∧
      ∀ e ∈ es, e ∈ csr.rowEntries rid := by
  have hcells : ((csr.rowEntries rid).map Prod.snd) =
      (List.range' (csr.ptr rid) (csr.ptr (rid + 1) - csr.ptr rid)).map fun p =>
        (csr.indices.getD p 0, idAt csr.data p) := by
    rw [CSRMatrix.rowEntries, List.map_map]
    rfl
  have hnum := hby.numPicks rid (csr.ptr rid) (csr.ptr (rid + 1) - csr.ptr rid) csr.indices csr.data
  rw [← hcells] at hnum
  rw [CSRMatrix.pickRow, if_neg (Nat.not_le.2 hr)]
  dsimp only
  rw [hnum]
  by_cases hlen : csr.ptr (rid + 1) - csr.ptr rid = 0
  · have hempty : csr.rowEntries rid = [] := by
      rw [CSRMatrix.rowEntries, CSRMatrix.places, hlen]
      rfl
    have hzero : count ((csr.rowEntries rid).map Prod.snd) = 0 := by
      rw [hempty]
      exact hby.count_nil
    rw [hzero, if_neg fun h => h.2 rfl]
    exact ⟨[], rfl, rfl, fun e he => absurd he List.not_mem_nil⟩
  · rw [if_neg fun h => hlen h.1]
    refine ⟨_, rfl, by rw [List.length_map, List.length_range], fun e he => ?_⟩
    obtain ⟨j, hj, rfl⟩ := List.mem_map.1 he
    have hplace := hby.inside rid (csr.ptr rid) (csr.ptr (rid + 1) - csr.ptr rid)
      (count ((csr.rowEntries rid).map Prod.snd)) csr.indices csr.data j (Nat.pos_of_ne_zero hlen)
      (List.mem_range.1 hj)
    exact List.mem_map_of_mem (List.mem_range'_1.2 hplace)

/-! ## Converting the slice -/

lemma convert_eq (h : coo.InRange) (T : ℕ+) (hfit : noOverflow coo.bits coo.nnz = true) :
    coo.convert T = .ok coo.bucketed := by
  rw [convert, h.cooToCSR_eq T.pos, if_pos hfit]
  exact if_neg fun hs => hs.2 (h.sorted hs.1)

lemma nnz_sliceRows_le (coo : COOMatrix) (rows : List ℕ) : (coo.sliceRows rows).nnz ≤ coo.nnz := by
  have hle : (coo.entries.filterMap fun e => ((IdHashMap.ofIds rows).map e.1).map fun r => (r, e.2)).length ≤
      coo.entries.length := List.length_filterMap_le _ _
  have hlen : coo.entries.length = coo.nnz := by rw [entries, List.length_map, List.length_range]
  rw [← hlen]
  exact (List.length_map _).trans_le hle

/-- **The slice is converted** exactly if its flag is true. -/
lemma convert_sliceRows (h : coo.InRange) (T : ℕ+) (hfit : noOverflow coo.bits coo.nnz = true)
    (hin : coo.RowsInOrder rows) :
    (coo.sliceRows rows).convert T = .ok (coo.sliceRows rows).bucketed := by
  apply convert_eq _ T (noOverflow_mono (nnz_sliceRows_le coo rows) hfit)
  apply inRange_ofEntries _ ((sliceRows_rowsSorted_iff h.sorted).2 hin)
  intro e he
  obtain ⟨e', -, he⟩ := List.mem_filterMap.1 he
  obtain ⟨p, hp, rfl⟩ := Option.map_eq_some_iff.1 he
  exact IdHashMap.map_ofIds_lt hp

lemma rowsInOrder_of_convert (h : coo.InRange)
    (hc : (coo.sliceRows rows).convert numThreads = .ok csr) : coo.RowsInOrder rows := by
  rw [← sliceRows_rowsSorted_iff h.sorted]
  intro hflag
  rw [convert] at hc
  split at hc
  · cases hc
  · by_contra hunsorted
    rw [if_pos ⟨hflag, hunsorted⟩] at hc
    cases hc

lemma sliceRows_cells (hi : i < rows.length) (hd : (IdHashMap.ofIds rows).ids[i]? = some d) :
    (coo.sliceRows rows).bucketed.rowEntries i = (coo.entriesAt d).map fun e => (i, e.2) := by
  have hlt : i < (coo.sliceRows rows).numRows := hi
  rw [bucketed_rowEntries_eq hlt, sliceRows_entriesAt hd]

/-- A row that nothing is said about is empty, in the slice too. -/
lemma entriesAt_eq_nil {r : ℕ} (h : ∀ e ∈ coo.entries, e.1 ≠ r) : coo.entriesAt r = [] := by
  rw [entriesAt, List.filter_eq_nil_iff]
  intro e he
  simpa using h e he

/-- The number of a place behind a repetition belongs to a seed that comes later, which is empty, too. -/
lemma sliceRows_empty (hi : i < rows.length) (hrepeats : coo.RepeatsAreEmpty rows)
    (hdup : ¬ (rows.take (i + 1)).Nodup) : (coo.sliceRows rows).bucketed.rowEntries i = [] := by
  have hlt : i < (coo.sliceRows rows).numRows := hi
  cases hd : (IdHashMap.ofIds rows).ids[i]? with
  | none => rw [bucketed_rowEntries_eq hlt, sliceRows_entriesAt_none hd]
  | some d =>
      have hmem : d ∈ rows := IdHashMap.mem_ofIds.1 (List.mem_of_getElem? hd)
      have hlater := IdHashMap.notMem_take hi hdup hd
      have hk := List.idxOf_lt_length_of_mem hmem
      have hik : i < rows.idxOf d := by
        by_contra hle
        apply hlater
        rw [List.mem_take_iff_getElem]
        exact ⟨rows.idxOf d, by omega, List.getElem_idxOf hk⟩
      have hdup' : ¬ (rows.take (rows.idxOf d + 1)).Nodup := fun hnodup =>
        hdup (hnodup.sublist (List.take_sublist_take_left (by omega)))
      have hempty := (hrepeats _ hk).resolve_left hdup'
      rw [List.getD_eq_getElem _ _ hk, List.getElem_idxOf] at hempty
      rw [sliceRows_cells hi hd, entriesAt_eq_nil hempty, List.map_nil]

/-- What is picked at a position, seen from the slice and from the matrix. -/
lemma cells_eq (hrows : ∀ r ∈ rows, r < coo.numRows) (hrepeats : coo.RepeatsAreEmpty rows)
    (hi : i < rows.length) : ((coo.sliceRows rows).bucketed.rowEntries i).map Prod.snd =
        (coo.bucketed.rowEntries (rows.getD i 0)).map Prod.snd ∧
      ∀ e ∈ (coo.sliceRows rows).bucketed.rowEntries i,
        ((rows.getD i 0, e.2) : Entry) ∈ coo.entries ∧ e.1 = i := by
  have hr : rows.getD i 0 < coo.numRows := by
    rw [List.getD_eq_getElem _ _ hi]
    exact hrows _ (List.getElem_mem hi)
  rw [bucketed_rowEntries_eq hr]
  by_cases hnodup : (rows.take (i + 1)).Nodup
  · rw [sliceRows_cells hi (IdHashMap.ofIds_getElem? hi hnodup), List.map_map]
    refine ⟨rfl, fun e he => ?_⟩
    obtain ⟨e', he', rfl⟩ := List.mem_map.1 he
    obtain ⟨he', hrow⟩ := List.mem_filter.1 he'
    have hrow : e'.1 = rows.getD i 0 := by simpa using hrow
    rw [← hrow]
    exact ⟨he', rfl⟩
  · rw [sliceRows_empty hi hrepeats hnodup, entriesAt_eq_nil ((hrepeats i hi).resolve_left hnodup)]
    exact ⟨rfl, nofun⟩

lemma Valid.entry_unique (h : coo.Valid) {e e' : Entry} (he : e ∈ coo.entries) (he' : e' ∈ coo.entries)
    (hid : e.2.2 = e'.2.2) : e = e' := by
  have hids : (coo.entries.map fun e => e.2.2).Nodup := by
    have hmap : (coo.entries.map fun e => e.2.2) = (List.range coo.nnz).map (idAt coo.data) := by
      rw [entries, List.map_map]
      rfl
    rw [hmap]
    exact h.numbers.map_idAt.nodup_iff.2 List.nodup_range
  exact List.inj_on_of_nodup_map hids he he' hid

/-- Every entry of a row is picked. -/
def pickAll : Picker where
  numPicks _ _ len _ _ := len
  pick _ off len _ _ _ j := off + j % len

lemma pickAll_byRow : pickAll.ByRow List.length where
  numPicks rid off len indices data := by rw [List.length_map, List.length_range']; rfl
  count_nil := rfl
  inside rid off len numPicks indices data j hlen _ :=
    ⟨Nat.le_add_right _ _, Nat.add_lt_add_left (Nat.mod_lt j hlen) off⟩

/-- Picks of `CSRRowWisePick`, position by position. -/
lemma exists_picks (hby : picker.ByRow count) {rs : List ℕ} (hrs : ∀ r ∈ rs, r < csr.numRows) :
    ∃ picked, rs.mapM (csr.pickRow picker) = .ok picked ∧ picked.length = rs.length ∧
      ∀ i < rs.length, (picked.getD i []).length = count ((csr.rowEntries (rs.getD i 0)).map Prod.snd) ∧
        ∀ e ∈ picked.getD i [], e ∈ csr.rowEntries (rs.getD i 0) := by
  rw [← mapM_range_getD rs 0 (csr.pickRow picker)]
  refine exists_mapM_range (P := fun i es =>
    es.length = count ((csr.rowEntries (rs.getD i 0)).map Prod.snd) ∧
      ∀ e ∈ es, e ∈ csr.rowEntries (rs.getD i 0)) [] fun i hi => ?_
  have hr : rs.getD i 0 < csr.numRows := by
    rw [List.getD_eq_getElem _ _ hi]
    exact hrs _ (List.getElem_mem hi)
  exact exists_pickRow hby hr

lemma getD_map_map (picked : List (List Entry)) (f : Entry → Entry) (i : ℕ) :
    (picked.map fun es => es.map f).getD i [] = (picked.getD i []).map f := by
  rw [List.getD_eq_getElem?_getD, List.getD_eq_getElem?_getD, List.getElem?_map]
  cases picked[i]? <;> rfl

/-- **Seeds in order, repetitions without edges.** -/
lemma samples_of_order (h : coo.InRange) (hfit : noOverflow coo.bits coo.nnz = true)
    (hrows : ∀ r ∈ rows, r < coo.numRows) (T : ℕ+) (hin : coo.RowsInOrder rows)
    (hrepeats : coo.RepeatsAreEmpty rows) (hby : picker.ByRow count) :
    coo.SamplesLikeCSR T picker rows := by
  have hslice : ∀ r ∈ List.range rows.length, r < (coo.sliceRows rows).bucketed.numRows :=
    fun r hr => List.mem_range.1 hr
  have hfull : ∀ r ∈ rows, r < coo.bucketed.numRows := hrows
  obtain ⟨picked, hpicked, -, hspec⟩ := exists_picks hby hfull
  obtain ⟨picked', hpicked', hlen', hspec'⟩ := exists_picks hby hslice
  rw [List.length_range] at hlen' hspec'
  refine ⟨coo.bucketed, picked, picked'.map fun es => es.map fun e => (rows.getD e.1 0, e.2),
    convert_eq h T hfit, hpicked, ?_, by rw [List.length_map, hlen'], fun i hi => ?_⟩
  · rw [pickRows, convert_sliceRows h T hfit hin]
    dsimp only [bind, Except.bind]
    rw [hpicked']
    rfl
  · obtain ⟨hnum, hmem⟩ := hspec' i hi
    obtain ⟨hcells, hreal⟩ := cells_eq hrows hrepeats hi
    have hplace : (List.range rows.length).getD i 0 = i := by
      rw [List.getD_eq_getElem _ _ (by rwa [List.length_range]), List.getElem_range]
    rw [hplace] at hnum hmem
    rw [getD_map_map, List.length_map, hnum, (hspec i hi).1, hcells]
    refine ⟨rfl, fun e he => ?_⟩
    obtain ⟨e', he', rfl⟩ := List.mem_map.1 he
    obtain ⟨hentry, hrow⟩ := hreal e' (hmem e' he')
    rw [hrow]
    exact ⟨hentry, rfl⟩

/-- **A seed with edges behind a repetition** gets picks that are no entries of its row. -/
lemma not_samples_of_repeat (h : coo.Valid) (hi : i < rows.length)
    (hr : rows.getD i 0 < coo.numRows) (hdup : ¬ (rows.take (i + 1)).Nodup)
    (hedge : ∃ e ∈ coo.entries, e.1 = rows.getD i 0) {full part : List Entry}
    (hfull : full.length = ((coo.bucketed.rowEntries (rows.getD i 0)).map Prod.snd).length)
    (hpart : ∀ e ∈ part, e ∈ (coo.sliceRows rows).bucketed.rowEntries i)
    (hlen : part.length = full.length)
    (hreal : ∀ e ∈ part, ((rows.getD e.1 0, e.2) : Entry) ∈ coo.entries) : False := by
  obtain ⟨e, he, hrow⟩ := hedge
  have hmem : e ∈ coo.entriesAt (rows.getD i 0) := List.mem_filter.2 ⟨he, by simpa using hrow⟩
  have hpos : 0 < part.length := by
    rw [hlen, hfull, List.length_map, bucketed_rowEntries_eq hr]
    exact List.length_pos_of_mem hmem
  obtain ⟨e', he'⟩ := List.exists_mem_of_length_pos hpos
  have hin := hpart e' he'
  have hreal := hreal e' he'
  cases hd : (IdHashMap.ofIds rows).ids[i]? with
  | none =>
      have hlt : i < (coo.sliceRows rows).numRows := hi
      rw [bucketed_rowEntries_eq hlt, sliceRows_entriesAt_none hd] at hin
      cases hin
  | some d =>
      rw [sliceRows_cells hi hd] at hin
      obtain ⟨e'', he'', rfl⟩ := List.mem_map.1 hin
      obtain ⟨hentry, hrow'⟩ := List.mem_filter.1 he''
      have hrow' : e''.1 = d := by simpa using hrow'
      have heq := h.entry_unique hreal hentry rfl
      have hd' : rows.getD i 0 = d := by
        rw [← hrow', ← heq]
      apply IdHashMap.notMem_take hi hdup hd
      rw [← hd', List.getD_eq_getElem _ _ hi, List.mem_take_iff_getElem]
      exact ⟨i, by omega, rfl⟩

/-- Rows 0 and 2 have an edge each, row 1 has none. -/
def twoEdges (rowSorted : Bool) : COOMatrix where
  bits := 64
  numRows := 3
  numCols := 2
  row := [0, 2]
  col := [1, 0]
  data := []
  rowSorted := rowSorted
  colSorted := false

lemma twoEdges_valid : (twoEdges false).Valid := ⟨rfl, by decide, by decide, Or.inl rfl, nofun⟩

end COOMatrix

end DglAscend.Aten
