import DglAscend.Ascend.SpmmWindows
import Mathlib.Data.List.GetD

/-!
# What the windows of the sum SpMM compute

The dense blocks, column lists and offsets of the preprocessing are those of the cube windows in
order.  So every row is written once: with the sum over its edges in a vector window, and in a cube
window with the sum over the distinct columns, each of them as often as the cell says that is loaded
for it.
-/

namespace DglAscend.Ascend

namespace Csr

variable {csr : Csr} {w r k : ℕ}

/-- The dense block of a window, row by row. -/
def denseBlock (csr : Csr) (w : ℕ) : List ℚ :=
  (csr.blockCells w).foldl (fun block cell => block.set cell 1)
    (List.replicate (windowSize * csr.paddedColumns w) 0)

lemma length_foldl_set (cells : List ℕ) (block : List ℚ) :
    (cells.foldl (fun block cell => block.set cell 1) block).length = block.length := by
  induction cells generalizing block with
  | nil => rfl
  | cons cell cells ih => rw [List.foldl_cons, ih, List.length_set]

lemma getElem?_foldl_set (cells : List ℕ) (block : List ℚ) (k : ℕ) (hk : k < block.length) :
    (cells.foldl (fun block cell => block.set cell 1) block)[k]? =
      if k ∈ cells then some 1 else block[k]? := by
  induction cells generalizing block with
  | nil => rfl
  | cons cell cells ih =>
      rw [List.foldl_cons, ih _ (by rwa [List.length_set])]
      by_cases hmem : k ∈ cells
      · rw [if_pos hmem, if_pos (List.mem_cons_of_mem _ hmem)]
      · rw [if_neg hmem]
        by_cases hcell : cell = k
        · subst hcell
          rw [if_pos List.mem_cons_self, List.getElem?_set_self hk]
        · have hnot : k ∉ cell :: cells := by
            rw [List.mem_cons, not_or]
            exact ⟨fun h => hcell h.symm, hmem⟩
          rw [if_neg hnot, List.getElem?_set_ne hcell]

lemma foldl_set_append (cells : List ℕ) (front block : List ℚ) :
    cells.foldl (fun blocks cell => blocks.set (front.length + cell) 1) (front ++ block) =
      front ++ cells.foldl (fun block cell => block.set cell 1) block := by
  induction cells generalizing block with
  | nil => rfl
  | cons cell cells ih =>
      rw [List.foldl_cons, List.foldl_cons, List.set_append_right _ _ (Nat.le_add_right _ _),
        Nat.add_sub_cancel_left, ih]

@[simp] lemma length_denseBlock :
    (csr.denseBlock w).length = windowSize * csr.paddedColumns w := by
  rw [denseBlock, length_foldl_set, List.length_replicate]

lemma denseBlock_getD (hk : k < windowSize * csr.paddedColumns w) :
    (csr.denseBlock w).getD k 0 = if k ∈ csr.blockCells w then 1 else 0 := by
  rw [List.getD_eq_getElem?_getD, denseBlock, getElem?_foldl_set _ _ _ (by simpa using hk),
    List.getElem?_replicate, if_pos hk]
  by_cases hmem : k ∈ csr.blockCells w
  · rw [if_pos hmem, if_pos hmem]
    rfl
  · rw [if_neg hmem, if_neg hmem]
    rfl

lemma nodup_uniqueColumns : (csr.uniqueColumns w).Nodup := Finset.sort_nodup _ _

lemma mem_uniqueColumns {c : ℕ} :
    c ∈ csr.uniqueColumns w ↔ ∃ e ∈ csr.windowEdges w, csr.col e = c := by
  rw [uniqueColumns, Finset.mem_sort, List.mem_toFinset, List.mem_map]

/-- `std::lower_bound` finds a column that is there. -/
lemma findIdx_uniqueColumns {i : ℕ} (hi : i < (csr.uniqueColumns w).length) :
    (csr.uniqueColumns w).findIdx (fun c => (csr.uniqueColumns w)[i] ≤ c) = i := by
  have hsorted : (csr.uniqueColumns w).Pairwise (· < ·) :=
    (Finset.sortedLT_sort _).pairwise
  rw [List.findIdx_eq hi]
  refine ⟨by simp, fun j hj => ?_⟩
  have hlt := List.pairwise_iff_getElem.1 hsorted j i (hj.trans hi) hi hj
  simpa using hlt

lemma mem_windowRows : r ∈ csr.windowRows w ↔ startNode w ≤ r ∧ r < csr.endNode w := by
  rw [windowRows, List.mem_range'_1]
  omega

lemma startNode_le_endNode (hw : w < csr.numWindows) : startNode w ≤ csr.endNode w := by
  simp only [numWindows, startNode, endNode, windowSize] at hw ⊢
  omega

/-- The edges of a window are those of its rows. -/
lemma flatMap_windowRows (hw : w < csr.numWindows) :
    (csr.windowRows w).flatMap csr.rowEdges = csr.windowEdges w :=
  flatMap_rowEdges (startNode_le_endNode hw) (min_le_right _ _)

lemma tcBlocks_mul (n : ℕ) : n ≤ tcBlocks n * tcBlockWidth := by
  simp only [tcBlocks, tcBlockWidth]
  omega

lemma cell_div {a p i : ℕ} (hi : i < p) : (a * p + i) / p = a := by
  rw [Nat.add_comm, Nat.add_mul_div_right _ _ (Nat.zero_lt_of_lt hi), Nat.div_eq_of_lt hi,
    Nat.zero_add]

/-- **A cell of the dense block** is set if and only if the row has an edge to the column. -/
theorem mem_blockCells (hw : w < csr.numWindows) {i : ℕ} (hr : r ∈ csr.windowRows w)
    (hi : i < (csr.uniqueColumns w).length) :
    (r - startNode w) * csr.paddedColumns w + i ∈ csr.blockCells w ↔
      (csr.uniqueColumns w)[i] ∈ csr.rowCols r := by
  have hpad : (csr.uniqueColumns w).length ≤ csr.paddedColumns w := tcBlocks_mul _
  unfold blockCells
  simp only [List.mem_flatMap, List.mem_map]
  constructor
  · rintro ⟨r', hr', e, he, heq⟩
    have hmem : csr.col e ∈ csr.uniqueColumns w := mem_uniqueColumns.2
      ⟨e, by rw [← flatMap_windowRows hw]; exact List.mem_flatMap.2 ⟨r', hr', he⟩, rfl⟩
    obtain ⟨j, hj, hcol⟩ := List.mem_iff_getElem.1 hmem
    rw [← hcol, findIdx_uniqueColumns hj] at heq
    -- Both numbers are row times width plus column.
    have hrow : r' - startNode w = r - startNode w := by
      have hdiv := cell_div (a := r' - startNode w) (hj.trans_le hpad)
      rw [heq, cell_div (hi.trans_le hpad)] at hdiv
      exact hdiv.symm
    have hij : j = i := by
      rw [hrow] at heq
      omega
    have hrr : r' = r := by
      have h1 := (mem_windowRows.1 hr').1
      have h2 := (mem_windowRows.1 hr).1
      omega
    subst hij hrr
    rw [hcol]
    exact List.mem_map_of_mem he
  · intro hmem
    obtain ⟨e, he, hcol⟩ := List.mem_map.1 hmem
    refine ⟨r, hr, e, he, ?_⟩
    rw [hcol, findIdx_uniqueColumns hi]

end Csr

namespace SumPreprocess

variable {csr : Csr} {isCubeWindow : ℕ → Bool} {s : SumPreprocess} {ws : List ℕ} {w i : ℕ}
  {feat : Features}

/-- The windows that go to the cube cores. -/
def Dense (csr : Csr) (isCubeWindow : ℕ → Bool) (w : ℕ) : Prop :=
  csr.uniqueColumns w ≠ [] ∧ isCubeWindow w = true

instance : Decidable (Dense csr isCubeWindow w) := inferInstanceAs (Decidable (_ ∧ _))

/-- The preprocessing after the windows `ws`. -/
structure Built (csr : Csr) (isCubeWindow : ℕ → Bool) (ws : List ℕ) (s : SumPreprocess) :
    Prop where
  cube_eq : s.cubeWindowIds = ws.filter fun w => Dense csr isCubeWindow w
  vector_eq : s.vectorWindowIds = ws.filter fun w => ¬Dense csr isCubeWindow w
  columns_eq : s.columnToEdge = s.cubeWindowIds.flatMap csr.uniqueColumns
  ptr_length : s.winEdgePtr.length = s.cubeWindowIds.length + 1
  ptr_eq : ∀ i ≤ s.cubeWindowIds.length,
    s.winEdgePtr.getD i 0 = ((s.cubeWindowIds.take i).flatMap csr.uniqueColumns).length
  blocks_eq : s.denseBlocks = s.cubeWindowIds.flatMap csr.denseBlock

lemma built_init : Built csr isCubeWindow [] init := by
  refine ⟨rfl, rfl, rfl, rfl, fun i hi => ?_, rfl⟩
  obtain rfl : i = 0 := Nat.le_zero.1 hi
  rfl

/-- **One window.** -/
theorem Built.addWindow (h : Built csr isCubeWindow ws s) (w : ℕ) :
    Built csr isCubeWindow (ws ++ [w]) (addWindow csr isCubeWindow s w) := by
  obtain ⟨hcube, hvector, hcolumns, hlen, hptr, hblocks⟩ := h
  unfold SumPreprocess.addWindow
  by_cases hd : Dense csr isCubeWindow w
  · have hcond : ¬(csr.uniqueColumns w = [] ∨ isCubeWindow w = false) := by
      rw [not_or, Bool.not_eq_false]
      exact hd
    rw [if_neg hcond]
    refine ⟨?_, ?_, ?_, ?_, fun i hi => ?_, ?_⟩
    · rw [List.filter_append, ← hcube]
      simp [hd]
    · rw [List.filter_append, ← hvector]
      simp [hd]
    · rw [List.flatMap_append, ← hcolumns, List.flatMap_singleton]
    · show (s.winEdgePtr ++ [_]).length = (s.cubeWindowIds ++ [w]).length + 1
      rw [List.length_append, hlen, List.length_singleton, List.length_append,
        List.length_singleton]
    · rw [List.length_append, List.length_singleton] at hi
      by_cases hlast : i = s.cubeWindowIds.length + 1
      · have htake : (s.cubeWindowIds ++ [w]).take i = s.cubeWindowIds ++ [w] := by
          rw [List.take_of_length_le]
          rw [List.length_append, List.length_singleton, hlast]
        rw [htake, List.flatMap_append, ← hcolumns, List.flatMap_singleton, hlast, ← hlen,
          List.getD_append_right _ _ _ _ (le_refl _), Nat.sub_self]
        rfl
      · have hle : i ≤ s.cubeWindowIds.length := by omega
        rw [List.getD_append _ _ _ _ (by omega), hptr i hle, List.take_append_of_le_length hle]
    · rw [List.flatMap_append, ← hblocks, List.flatMap_singleton, Csr.foldl_set_append]
      rfl
  · have hcond : csr.uniqueColumns w = [] ∨ isCubeWindow w = false := by
      rw [Dense, not_and_or, not_not, Bool.not_eq_true] at hd
      exact hd
    rw [if_pos hcond]
    refine ⟨?_, ?_, hcolumns, hlen, hptr, hblocks⟩
    · rw [List.filter_append, ← hcube]
      simp [hd]
    · rw [List.filter_append, ← hvector]
      simp [hd]

/-- **All windows.** -/
theorem built_build (csr : Csr) (isCubeWindow : ℕ → Bool) :
    Built csr isCubeWindow (List.range csr.numWindows) (build csr isCubeWindow) := by
  unfold build
  suffices h : ∀ (ws done : List ℕ) (s : SumPreprocess), Built csr isCubeWindow done s →
      Built csr isCubeWindow (done ++ ws) (ws.foldl (SumPreprocess.addWindow csr isCubeWindow) s) from
    h _ [] init built_init
  intro ws
  induction ws with
  | nil =>
      intro done s h
      rwa [List.append_nil]
  | cons w ws ih =>
      intro done s h
      rw [List.foldl_cons, List.append_cons]
      exact ih _ _ (h.addWindow w)

/-! ## A cube window -/

lemma Built.windowColumns_eq (h : Built csr isCubeWindow ws s) (hi : i < s.cubeWindowIds.length) :
    s.windowColumns i = (csr.uniqueColumns s.cubeWindowIds[i]).length := by
  rw [windowColumns, h.ptr_eq i hi.le, h.ptr_eq (i + 1) hi, List.take_succ_eq_append_getElem hi,
    List.flatMap_append, List.flatMap_singleton, List.length_append, Nat.add_sub_cancel_left]

lemma Built.tcOffset_eq (h : Built csr isCubeWindow ws s) (hi : i ≤ s.cubeWindowIds.length) :
    s.tcOffset i * (windowSize * tcBlockWidth) =
      ((s.cubeWindowIds.take i).flatMap csr.denseBlock).length := by
  rw [tcOffset]
  induction i with
  | zero => simp
  | succ i ih =>
      have ih := ih (by omega)
      rw [List.range_succ, List.map_append, List.sum_append, Nat.add_mul, ih,
        List.take_succ_eq_append_getElem hi, List.flatMap_append, List.length_append,
        List.flatMap_singleton, Csr.length_denseBlock, List.map_singleton, List.sum_singleton,
        h.windowColumns_eq hi, Csr.paddedColumns]
      ring

/-- The blocks up to a window lie inside the buffer. -/
lemma Built.tcOffset_le (h : Built csr isCubeWindow ws s) (hi : i ≤ s.cubeWindowIds.length) :
    s.tcOffset i * (windowSize * tcBlockWidth) ≤ s.denseBlocks.length := by
  rw [h.tcOffset_eq hi, h.blocks_eq]
  conv_rhs => rw [← List.take_append_drop i s.cubeWindowIds, List.flatMap_append, List.length_append]
  exact Nat.le_add_right _ _

lemma tcOffset_succ : s.tcOffset (i + 1) = s.tcOffset i + tcBlocks (s.windowColumns i) := by
  rw [tcOffset, tcOffset, List.range_succ, List.map_append, List.sum_append, List.map_singleton,
    List.sum_singleton]

/-- The cell of the dense block of a window. -/
def blockCell (s : SumPreprocess) (i r c : ℕ) : ℚ :=
  s.denseBlocks.getD (s.tcOffset i * (windowSize * tcBlockWidth) +
    r * (tcBlocks (s.windowColumns i) * tcBlockWidth) + c) 0

/-- The cell that is loaded for it. -/
def loadedCell (s : SumPreprocess) (i r c : ℕ) : ℚ :=
  s.denseBlocks.getD (s.loadedPlace i (c / maxKColumns) r (c % maxKColumns)) 0

/-- The cells of the dense blocks are 0 or 1. -/
lemma Built.cell_eq (h : Built csr isCubeWindow ws s) (k : ℕ) :
    s.denseBlocks.getD k 0 = 0 ∨ s.denseBlocks.getD k 0 = 1 := by
  have hcells : ∀ x ∈ s.denseBlocks, x = 0 ∨ x = 1 := by
    rw [h.blocks_eq]
    intro x hx
    obtain ⟨w, -, hx⟩ := List.mem_flatMap.1 hx
    obtain ⟨j, hj, rfl⟩ := List.mem_iff_getElem.1 hx
    rw [← List.getD_eq_getElem _ 0 hj, Csr.denseBlock_getD (by simpa using hj)]
    split_ifs
    · exact Or.inr rfl
    · exact Or.inl rfl
  by_cases hk : k < s.denseBlocks.length
  · rw [List.getD_eq_getElem _ _ hk]
    exact hcells _ (List.getElem_mem hk)
  · exact Or.inl (List.getD_eq_default _ _ (not_lt.1 hk))

/-- The cells of a block say which edges are there. -/
lemma Built.blockCell_eq (h : Built csr isCubeWindow ws s) (hi : i < s.cubeWindowIds.length)
    (hw : s.cubeWindowIds[i] < csr.numWindows) {r c : ℕ}
    (hr : r < min windowSize (csr.numRows - s.cubeWindowIds[i] * windowSize))
    (hc : c < (csr.uniqueColumns s.cubeWindowIds[i]).length) :
    s.blockCell i r c = if (csr.uniqueColumns s.cubeWindowIds[i])[c] ∈
      csr.rowCols (s.cubeWindowIds[i] * windowSize + r) then 1 else 0 := by
  set w := s.cubeWindowIds[i] with hwdef
  set n := (csr.uniqueColumns w).length with hn
  have hget : s.cubeWindowIds[i]? = some w := List.getElem?_eq_getElem hi
  have hrow : w * windowSize + r ∈ csr.windowRows w := by
    rw [Csr.mem_windowRows, Csr.startNode, Csr.endNode, Csr.startNode]
    omega
  have hlt : r * csr.paddedColumns w + c < windowSize * csr.paddedColumns w := by
    have hr16 : r + 1 ≤ windowSize := by omega
    calc r * csr.paddedColumns w + c < r * csr.paddedColumns w + csr.paddedColumns w :=
          Nat.add_lt_add_left (hc.trans_le (Csr.tcBlocks_mul n)) _
      _ = (r + 1) * csr.paddedColumns w := by ring
      _ ≤ windowSize * csr.paddedColumns w := Nat.mul_le_mul_right _ hr16
  have hsub : w * windowSize + r - Csr.startNode w = r := by
    rw [Csr.startNode]
    omega
  have hmem := Csr.mem_blockCells hw hrow hc
  rw [hsub] at hmem
  rw [blockCell, h.windowColumns_eq hi, Nat.add_assoc, h.tcOffset_eq hi.le, h.blocks_eq,
    List.getD_eq_getElem?_getD, getElem?_flatMap _ _ hget (by rwa [Csr.length_denseBlock]),
    ← List.getD_eq_getElem?_getD]
  rw [show tcBlocks n * tcBlockWidth = csr.paddedColumns w from rfl, Csr.denseBlock_getD hlt]
  exact if_congr hmem rfl rfl

lemma sum_range_padded {n k : ℕ} {f : ℕ → ℕ → ℚ} (hle : n ≤ k) (hpadding : ∀ c, n ≤ c → f c = 0) :
    ((List.range k).map f).sum = ((List.range n).map f).sum := by
  obtain ⟨d, rfl⟩ := Nat.exists_eq_add_of_le hle
  have hzero : ((List.range d).map (f ∘ (n + ·))).sum = 0 := by
    apply List.sum_eq_zero
    intro x hx
    obtain ⟨c, -, rfl⟩ := List.mem_map.1 hx
    exact hpadding _ (Nat.le_add_right _ _)
  rw [List.range_add, List.map_append, List.sum_append, List.map_map, hzero, add_zero]

lemma sum_slices (n : ℕ) (f : ℕ → ℕ → ℚ) :
    ((List.range ((n + maxKColumns - 1) / maxKColumns)).map fun t =>
      ((List.range (min (n - t * maxKColumns) maxKColumns)).map fun c =>
        f (t * maxKColumns + c)).sum).sum = ((List.range n).map f).sum := by
  have hmax : maxKColumns = 1024 := rfl
  rw [hmax]
  have hslots : slotItems (fun t => min (t * 1024) n) ((n + 1024 - 1) / 1024) =
      List.range (min ((n + 1024 - 1) / 1024 * 1024) n) :=
    slotItems_eq (by simp) fun t _ => by omega
  rw [show min ((n + 1024 - 1) / 1024 * 1024) n = n by omega] at hslots
  rw [← hslots, slotItems, List.map_flatMap, List.flatMap_def, List.sum_flatten, List.map_map]
  congr 1
  apply List.map_congr_left
  intro t _
  rw [Function.comp_apply]
  by_cases ht : t * 1024 ≤ n
  · rw [min_eq_left ht, show min ((t + 1) * 1024) n - t * 1024 = min (n - t * 1024) 1024 by omega,
      List.range'_eq_map_range, List.map_map]
    rfl
  · rw [show min ((t + 1) * 1024) n - min (t * 1024) n = 0 by omega,
      show min (n - t * 1024) 1024 = 0 by omega]
    rfl

/-- **What is written to a row of a cube window**: every column as often as the cell says that is loaded
for it. -/
lemma Built.cubeRow_eq (h : Built csr isCubeWindow ws s) (hi : i < s.cubeWindowIds.length) (r : ℕ) :
    cubeRow feat s i r = ((List.range (csr.uniqueColumns s.cubeWindowIds[i]).length).map fun c =>
      s.loadedCell i r c • feat ((csr.uniqueColumns s.cubeWindowIds[i]).getD c 0)).sum := by
  set w := s.cubeWindowIds[i] with hwdef
  have hmax : maxKColumns = 1024 := rfl
  have hcols : s.windowColumns i = (csr.uniqueColumns w).length := h.windowColumns_eq hi
  have hget : s.cubeWindowIds[i]? = some w := List.getElem?_eq_getElem hi
  have hfeat (c : ℕ) (hc : c < (csr.uniqueColumns w).length) :
      s.columnToEdge.getD (s.winEdgePtr.getD i 0 + c) 0 = (csr.uniqueColumns w).getD c 0 := by
    rw [h.ptr_eq i hi.le, h.columns_eq, List.getD_eq_getElem?_getD, getElem?_flatMap _ _ hget hc,
      List.getD_eq_getElem?_getD]
  -- In a slice, the rows beside its columns are zero.
  have hslice (t : ℕ) : ((List.range (s.sliceRows i t)).map fun c =>
      s.denseBlocks.getD (s.loadedPlace i t r c) 0 •
        if c < s.sliceColumns i t then
          feat (s.columnToEdge.getD (s.winEdgePtr.getD i 0 + t * maxKColumns + c) 0)
        else 0).sum = ((List.range (min (s.windowColumns i - t * maxKColumns) maxKColumns)).map fun c =>
          s.loadedCell i r (t * maxKColumns + c) •
            feat (s.columnToEdge.getD (s.winEdgePtr.getD i 0 + (t * maxKColumns + c)) 0)).sum := by
    have hle : s.sliceColumns i t ≤ s.sliceRows i t := Csr.tcBlocks_mul _
    refine (sum_range_padded hle fun c hc => by rw [if_neg (not_lt.2 hc), smul_zero]).trans ?_
    rw [← sliceColumns]
    refine congrArg List.sum (List.map_congr_left fun c hc => ?_)
    have hc := List.mem_range.1 hc
    have hlt : c < 1024 := by
      rw [sliceColumns, hmax] at hc
      omega
    rw [if_pos hc, loadedCell, hmax, show (t * 1024 + c) / 1024 = t by omega,
      show (t * 1024 + c) % 1024 = c by omega, Nat.add_assoc]
  rw [cubeRow, slices, List.map_congr_left fun t _ => hslice t, sum_slices (s.windowColumns i) fun c =>
    s.loadedCell i r c • feat (s.columnToEdge.getD (s.winEdgePtr.getD i 0 + c) 0), hcols]
  congr 1
  apply List.map_congr_left
  intro c hc
  rw [hfeat c (List.mem_range.1 hc)]

/-- A row of the reference: every edge counts. -/
def edgeRow (csr : Csr) (feat : Features) (row : ℕ) : ℕ → ℚ :=
  ((csr.rowEdges row).map fun e => feat (csr.col e)).sum

/-- The columns of a row are columns of its window. -/
lemma mem_uniqueColumns_of_row {row c : ℕ} (hw : w < csr.numWindows) (hrow : row ∈ csr.windowRows w)
    (hc : c ∈ csr.rowCols row) : c ∈ csr.uniqueColumns w := by
  obtain ⟨e, he, hcol⟩ := List.mem_map.1 hc
  refine Csr.mem_uniqueColumns.2 ⟨e, ?_, hcol⟩
  rw [← Csr.flatMap_windowRows hw]
  exact List.mem_flatMap.2 ⟨row, hrow, he⟩

variable {vectorCores cubeCores row : ℕ}

/-- The sum over the edges, column by column. -/
lemma edgeRow_eq (hw : w < csr.numWindows) (hrow : row ∈ csr.windowRows w) :
    edgeRow csr feat row = ((List.range (csr.uniqueColumns w).length).map fun c =>
      ((csr.rowCols row).count ((csr.uniqueColumns w).getD c 0) : ℚ) •
        feat ((csr.uniqueColumns w).getD c 0)).sum := by
  have hsub : (csr.rowCols row).toFinset ⊆ (csr.uniqueColumns w).toFinset := fun c hc =>
    List.mem_toFinset.2 (mem_uniqueColumns_of_row hw hrow (List.mem_toFinset.1 hc))
  have hrange (f : ℕ → ℕ → ℚ) : (List.range (csr.uniqueColumns w).length).map (fun c =>
      f ((csr.uniqueColumns w).getD c 0)) = (csr.uniqueColumns w).map f := by
    apply List.ext_getElem
    · rw [List.length_map, List.length_map, List.length_range]
    · intro c hc hc'
      rw [List.length_map] at hc'
      rw [List.getElem_map, List.getElem_map, List.getElem_range, List.getD_eq_getElem _ _ hc']
  calc edgeRow csr feat row = ((csr.rowCols row).map feat).sum := by
        rw [edgeRow, Csr.rowCols, List.map_map]
        rfl
    _ = ∑ c ∈ (csr.rowCols row).toFinset, (csr.rowCols row).count c • feat c :=
        Finset.sum_list_map_count _ _
    _ = ∑ c ∈ (csr.uniqueColumns w).toFinset, ((csr.rowCols row).count c : ℚ) • feat c := by
        simp only [Nat.cast_smul_eq_nsmul]
        refine Finset.sum_subset hsub fun c _ hc => ?_
        rw [List.count_eq_zero_of_not_mem fun h => hc (List.mem_toFinset.2 h), zero_smul]
    _ = _ := by
        rw [List.sum_toFinset _ Csr.nodup_uniqueColumns,
          hrange fun c => ((csr.rowCols row).count c : ℚ) • feat c]

/-- The feature matrix that is 1 in the row of one column. -/
lemma sum_indicator {n c : ℕ} {l : List ℕ} (hl : l.Nodup) (hc : c < l.length) (a : ℕ → ℚ) :
    ((List.range l.length).map fun c' => a c' •
      (fun c' _ => if c' = l.getD c 0 then 1 else 0 : Features) (l.getD c' 0)).sum n = a c := by
  rw [← List.sum_toFinset _ List.nodup_range, Finset.sum_apply, Finset.sum_eq_single c]
  · show a c * (if l.getD c 0 = l.getD c 0 then 1 else 0) = a c
    rw [if_pos rfl, mul_one]
  · intro c' hc' hne
    have hlt := List.mem_range.1 (List.mem_toFinset.1 hc')
    show a c' * (if l.getD c' 0 = l.getD c 0 then 1 else 0) = 0
    rw [List.getD_eq_getElem _ _ hc, List.getD_eq_getElem _ _ hlt,
      if_neg fun heq => hne (hl.getElem_inj_iff.1 heq), mul_zero]
  · intro hnot
    exact absurd (List.mem_toFinset.2 (List.mem_range.2 hc)) hnot

/-- The row of a cube window is the sum over the edges for all features, if and only if every cell that
is loaded is the number of edges to its column. -/
lemma Built.cubeRow_eq_edgeRow_iff (h : Built csr isCubeWindow ws s) (hi : i < s.cubeWindowIds.length)
    (hw : s.cubeWindowIds[i] < csr.numWindows) {r : ℕ}
    (hr : r < min windowSize (csr.numRows - s.cubeWindowIds[i] * windowSize)) :
    (∀ feat, cubeRow feat s i r = edgeRow csr feat (s.cubeWindowIds[i] * windowSize + r)) ↔
      (csr.rowCols (s.cubeWindowIds[i] * windowSize + r)).Nodup ∧
        ∀ c < s.windowColumns i, s.loadedCell i r c = s.blockCell i r c := by
  set w := s.cubeWindowIds[i] with hwdef
  set row := w * windowSize + r with hrow
  have hcols : s.windowColumns i = (csr.uniqueColumns w).length := h.windowColumns_eq hi
  have hmem : row ∈ csr.windowRows w := by
    rw [Csr.mem_windowRows, Csr.startNode, Csr.endNode, Csr.startNode]
    omega
  have hget {c : ℕ} (hc : c < s.windowColumns i) :
      (csr.uniqueColumns w).getD c 0 = (csr.uniqueColumns w)[c] := List.getD_eq_getElem _ _ _
  have hcell {c : ℕ} (hc : c < s.windowColumns i) : s.blockCell i r c =
      if (csr.uniqueColumns w).getD c 0 ∈ csr.rowCols row then 1 else 0 := by
    rw [hget hc]
    exact h.blockCell_eq hi hw hr (hcols ▸ hc)
  have hcount : (∀ feat, cubeRow feat s i r = edgeRow csr feat row) ↔
      ∀ c < s.windowColumns i,
        s.loadedCell i r c = (csr.rowCols row).count ((csr.uniqueColumns w).getD c 0) := by
    simp only [h.cubeRow_eq hi, edgeRow_eq hw hmem]
    constructor
    · intro hall c hc
      have hone := congrFun (hall fun c' _ => if c' = (csr.uniqueColumns w).getD c 0 then 1 else 0) 0
      rwa [sum_indicator Csr.nodup_uniqueColumns (hcols ▸ hc),
        sum_indicator Csr.nodup_uniqueColumns (hcols ▸ hc)] at hone
    · intro hall feat
      congr 1
      apply List.map_congr_left
      intro c hc
      rw [hall c (hcols ▸ List.mem_range.1 hc)]
  rw [hcount]
  constructor
  · intro hall
    have hle {c : ℕ} (hc : c < s.windowColumns i) :
        (csr.rowCols row).count ((csr.uniqueColumns w).getD c 0) ≤ 1 := by
      rcases h.cell_eq (s.loadedPlace i (c / maxKColumns) r (c % maxKColumns)) with hzero | hone
      · have := hall c hc
        rw [loadedCell, hzero] at this
        have : (csr.rowCols row).count ((csr.uniqueColumns w).getD c 0) = 0 := by exact_mod_cast this.symm
        omega
      · have := hall c hc
        rw [loadedCell, hone] at this
        have : (csr.rowCols row).count ((csr.uniqueColumns w).getD c 0) = 1 := by exact_mod_cast this.symm
        omega
    have hnodup : (csr.rowCols row).Nodup := by
      rw [List.nodup_iff_count_le_one]
      intro x
      by_cases hx : x ∈ csr.rowCols row
      · obtain ⟨c, hc, rfl⟩ := List.mem_iff_getElem.1 (mem_uniqueColumns_of_row hw hmem hx)
        rw [← List.getD_eq_getElem _ 0 hc]
        exact hle (hcols ▸ hc)
      · rw [List.count_eq_zero_of_not_mem hx]
        exact Nat.zero_le 1
    refine ⟨hnodup, fun c hc => ?_⟩
    rw [hall c hc, hcell hc, hnodup.count]
    split_ifs <;> rfl
  · rintro ⟨hnodup, hload⟩ c hc
    rw [hload c hc, hcell hc, hnodup.count]
    split_ifs <;> rfl

/-! ## What is written -/

/-- The rows of a window with their values. -/
def windowWrites (csr : Csr) (value : ℕ → ℕ → ℕ → ℚ) (w : ℕ) : List (ℕ × (ℕ → ℚ)) :=
  (csr.windowRows w).map fun row => (row, value w row)

/-- The value of a row of a cube window. -/
def cubeValue (feat : Features) (s : SumPreprocess) (w row : ℕ) : ℕ → ℚ :=
  cubeRow feat s (s.cubeWindowIds.idxOf w) (row - w * windowSize)

lemma cubeWindow_eq (hnodup : s.cubeWindowIds.Nodup) (hi : i < s.cubeWindowIds.length) :
    cubeWindow csr feat s i = windowWrites csr (cubeValue feat s) s.cubeWindowIds[i] := by
  have hrows : csr.endNode s.cubeWindowIds[i] - Csr.startNode s.cubeWindowIds[i] =
      min windowSize (csr.numRows - s.cubeWindowIds[i] * windowSize) := by
    simp only [Csr.endNode, Csr.startNode]
    omega
  unfold cubeWindow windowWrites
  rw [List.getD_eq_getElem _ _ hi, Csr.windowRows, hrows, List.range'_eq_map_range, List.map_map]
  apply List.map_congr_left
  intro r _
  rw [Function.comp_apply, Csr.startNode, cubeValue, hnodup.idxOf_getElem i hi, Nat.add_sub_cancel_left]

lemma vectorWindow_eq (hi : i < s.vectorWindowIds.length) :
    vectorWindow csr feat s i =
      windowWrites csr (fun _ => edgeRow csr feat) s.vectorWindowIds[i] := by
  rw [vectorWindow, List.getD_eq_getElem _ _ hi]
  rfl

lemma flatMap_range_eq {l : List ℕ} {f g : ℕ → List (ℕ × (ℕ → ℚ))}
    (hf : ∀ i (hi : i < l.length), f i = g l[i]) :
    (List.range l.length).flatMap f = l.flatMap g := by
  rw [List.flatMap_def, List.flatMap_def]
  congr 1
  apply List.ext_getElem
  · rw [List.length_map, List.length_map, List.length_range]
  · intro i hi _
    rw [List.length_map, List.length_range] at hi
    rw [List.getElem_map, List.getElem_map, List.getElem_range]
    exact hf i hi

/-- The values that are written to a row. -/
def writtenTo (writes : List (ℕ × (ℕ → ℚ))) (row : ℕ) : List (ℕ → ℚ) :=
  (writes.filter fun p => p.1 = row).map Prod.snd

lemma writtenTo_append (xs ys : List (ℕ × (ℕ → ℚ))) (row : ℕ) :
    writtenTo (xs ++ ys) row = writtenTo xs row ++ writtenTo ys row := by
  rw [writtenTo, List.filter_append, List.map_append]
  rfl

lemma mem_windowRows_iff (hrow : row < csr.numRows) :
    row ∈ csr.windowRows w ↔ w = row / windowSize := by
  simp only [Csr.mem_windowRows, Csr.startNode, Csr.endNode, windowSize]
  omega

variable {value : ℕ → ℕ → ℕ → ℚ}

lemma writtenTo_windowWrites (hrow : row < csr.numRows) : writtenTo (windowWrites csr value w) row =
      if w = row / windowSize then [value w row] else [] := by
  have hfilter : (csr.windowRows w).filter (fun r => r = row) =
      if w = row / windowSize then [row] else [] := by
    have hnodup : (csr.windowRows w).Nodup := List.nodup_range'
    by_cases hw : w = row / windowSize
    · rw [if_pos hw]
      have hmem := (mem_windowRows_iff hrow).2 hw
      rw [List.filter_eq, List.count_eq_one_of_mem hnodup hmem]
      rfl
    · rw [if_neg hw, List.filter_eq_nil_iff]
      intro r hr heq
      rw [decide_eq_true_eq] at heq
      exact hw ((mem_windowRows_iff hrow).1 (heq ▸ hr))
  rw [writtenTo, windowWrites, List.filter_map, List.map_map]
  show ((csr.windowRows w).filter (fun r => r = row)).map (value w) = _
  rw [hfilter]
  split_ifs <;> rfl

lemma writtenTo_flatMap (hrow : row < csr.numRows) (hnodup : ws.Nodup) :
    writtenTo (ws.flatMap (windowWrites csr value)) row =
      if row / windowSize ∈ ws then [value (row / windowSize) row] else [] := by
  induction ws with
  | nil => rfl
  | cons w ws ih =>
      obtain ⟨hnot, hrest⟩ := List.nodup_cons.1 hnodup
      rw [List.flatMap_cons, writtenTo_append, writtenTo_windowWrites hrow, ih hrest]
      by_cases hw : w = row / windowSize
      · rw [if_pos hw, if_neg (by rwa [← hw]), if_pos (by rw [hw]; exact List.mem_cons_self), hw,
          List.append_nil]
      · have hiff : row / windowSize ∈ ws ↔ row / windowSize ∈ w :: ws := by
          rw [List.mem_cons, or_iff_right fun h => hw h.symm]
        rw [if_neg hw, List.nil_append]
        exact if_congr hiff rfl rfl

/-! ## All cores -/

lemma build_cubeWindowIds :
    (build csr isCubeWindow).cubeWindowIds =
      (List.range csr.numWindows).filter fun w => Dense csr isCubeWindow w :=
  (built_build csr isCubeWindow).cube_eq

lemma build_vectorWindowIds :
    (build csr isCubeWindow).vectorWindowIds =
      (List.range csr.numWindows).filter fun w => ¬Dense csr isCubeWindow w :=
  (built_build csr isCubeWindow).vector_eq

lemma nodup_cubeWindowIds : (build csr isCubeWindow).cubeWindowIds.Nodup := by
  rw [build_cubeWindowIds]
  exact List.nodup_range.filter _

lemma mem_cubeWindowIds :
    w ∈ (build csr isCubeWindow).cubeWindowIds ↔ w < csr.numWindows ∧ Dense csr isCubeWindow w := by
  rw [build_cubeWindowIds, List.mem_filter, List.mem_range, decide_eq_true_eq]

/-- `CHECK_NO_OVERFLOW` bounds the number of windows. -/
lemma numWindows_le (hrows : csr.numRows < 2 ^ 31) : csr.numWindows ≤ 2 ^ 31 := by
  simp only [Csr.numWindows, windowSize]
  omega

lemma length_filter_range_le (p : ℕ → Bool) (n : ℕ) : ((List.range n).filter p).length ≤ n :=
  (List.length_filter_le _ _).trans List.length_range.le

lemma noWrap_cubeWork (cubeCores : ℕ) : NoWrap (build csr isCubeWindow).cubeWork cubeCores := by
  have hbuilt := built_build csr isCubeWindow
  intro hsum hmany
  exfalso
  have hlen : (build csr isCubeWindow).cubeWork.length =
      (build csr isCubeWindow).cubeWindowIds.length := by
    rw [cubeWork, List.length_map, List.length_range]
  have hpos : 0 < (build csr isCubeWindow).cubeWindowIds.length := by omega
  have hdense := (mem_cubeWindowIds.1 (List.getElem_mem hpos)).2
  have hcolumns := List.length_pos_iff.2 hdense.1
  have hwork : tcBlocks ((build csr isCubeWindow).windowColumns 0) ∈
      (build csr isCubeWindow).cubeWork := List.mem_map_of_mem (List.mem_range.2 hpos)
  have hzero := List.sum_eq_zero_iff.1 hsum _ hwork
  rw [hbuilt.windowColumns_eq hpos] at hzero
  have hmul := Csr.tcBlocks_mul
    (csr.uniqueColumns (build csr isCubeWindow).cubeWindowIds[0]).length
  rw [hzero, Nat.zero_mul] at hmul
  exact absurd hcolumns (Nat.not_lt.2 hmul)

lemma length_vectorWork (csr : Csr) (isCubeWindow : ℕ → Bool) :
    (vectorWork csr (build csr isCubeWindow)).length =
      (build csr isCubeWindow).vectorWindowIds.length := List.length_map _

lemma length_cubeWork (csr : Csr) (isCubeWindow : ℕ → Bool) :
    (build csr isCubeWindow).cubeWork.length = (build csr isCubeWindow).cubeWindowIds.length := by
  rw [cubeWork, List.length_map, List.length_range]

lemma vectorWork_le (isCubeWindow : ℕ → Bool) (hrows : csr.numRows < 2 ^ 31) :
    (vectorWork csr (build csr isCubeWindow)).length ≤ 2 ^ 31 := by
  rw [length_vectorWork, build_vectorWindowIds]
  exact (length_filter_range_le _ _).trans (numWindows_le hrows)

lemma cubeWork_le (isCubeWindow : ℕ → Bool) (hrows : csr.numRows < 2 ^ 31) :
    (build csr isCubeWindow).cubeWork.length ≤ 2 ^ 31 := by
  rw [length_cubeWork, build_cubeWindowIds]
  exact (length_filter_range_le _ _).trans (numWindows_le hrows)

/-- The dense blocks that the cube cores load lie in the buffer. -/
def LoadsInside (csr : Csr) (isCubeWindow : ℕ → Bool) : Prop :=
  ∀ i < (build csr isCubeWindow).cubeWindowIds.length, (build csr isCubeWindow).loadsInside i = true

/-- **The cores together** write the windows in order. -/
theorem writes_eq_some_iff (hrows : csr.numRows < 2 ^ 31) (hvector : 0 < vectorCores)
    (hcube : 0 < cubeCores) (hno : NoWrap (vectorWork csr (build csr isCubeWindow)) vectorCores)
    {out : List (ℕ × (ℕ → ℚ))} :
    writes csr feat (build csr isCubeWindow) vectorCores cubeCores = some out ↔
      LoadsInside csr isCubeWindow ∧ out = (build csr isCubeWindow).vectorWindowIds.flatMap
          (windowWrites csr fun _ => edgeRow csr feat) ++
        (build csr isCubeWindow).cubeWindowIds.flatMap
          (windowWrites csr (cubeValue feat (build csr isCubeWindow))) := by
  have hvectorItems := (slotItems_balanced hvector (vectorWork_le isCubeWindow hrows) hno).trans
    (congrArg List.range (length_vectorWork csr isCubeWindow))
  have hcubeItems := (slotItems_balanced hcube (cubeWork_le isCubeWindow hrows) (noWrap_cubeWork _)).trans
    (congrArg List.range (length_cubeWork csr isCubeWindow))
  have hvectorRows : (List.range (build csr isCubeWindow).vectorWindowIds.length).flatMap
      (vectorWindow csr feat (build csr isCubeWindow)) = _ :=
    flatMap_range_eq fun i hi => vectorWindow_eq hi
  have hcubeRows : (List.range (build csr isCubeWindow).cubeWindowIds.length).flatMap
      (cubeWindow csr feat (build csr isCubeWindow)) = _ :=
    flatMap_range_eq fun i hi => cubeWindow_eq nodup_cubeWindowIds hi
  have hload : (List.range (build csr isCubeWindow).cubeWindowIds.length).all
      (build csr isCubeWindow).loadsInside = true ↔ LoadsInside csr isCubeWindow := by
    rw [List.all_eq_true]
    exact forall_congr' fun i => imp_congr_left List.mem_range
  simp only [writes]
  rw [hvectorItems, hcubeItems, hvectorRows, hcubeRows, Option.ite_none_right_eq_some, hload,
    Option.some_inj, eq_comm]

/-- **Every row is written once.** -/
theorem writtenTo_writes (hrows : csr.numRows < 2 ^ 31) (hvector : 0 < vectorCores)
    (hcube : 0 < cubeCores) (hno : NoWrap (vectorWork csr (build csr isCubeWindow)) vectorCores)
    (hrow : row < csr.numRows) (x : ℕ → ℚ) :
    (writes csr feat (build csr isCubeWindow) vectorCores cubeCores).map (writtenTo · row) = some [x] ↔
      LoadsInside csr isCubeWindow ∧ (if Dense csr isCubeWindow (row / windowSize)
        then cubeValue feat (build csr isCubeWindow) (row / windowSize) row else edgeRow csr feat row) = x := by
  have hw : row / windowSize < csr.numWindows := by
    simp only [Csr.numWindows, windowSize]
    omega
  have hone : writtenTo ((build csr isCubeWindow).vectorWindowIds.flatMap
        (windowWrites csr fun _ => edgeRow csr feat) ++
      (build csr isCubeWindow).cubeWindowIds.flatMap
        (windowWrites csr (cubeValue feat (build csr isCubeWindow)))) row =
      [if Dense csr isCubeWindow (row / windowSize)
        then cubeValue feat (build csr isCubeWindow) (row / windowSize) row else edgeRow csr feat row] := by
    rw [writtenTo_append, writtenTo_flatMap hrow nodup_cubeWindowIds, build_vectorWindowIds,
      writtenTo_flatMap hrow (List.nodup_range.filter _)]
    by_cases hdense : Dense csr isCubeWindow (row / windowSize)
    · rw [if_neg (by simp [hdense]), if_pos (mem_cubeWindowIds.2 ⟨hw, hdense⟩), if_pos hdense,
        List.nil_append]
    · rw [if_pos (by simp [hdense, hw]), if_neg fun h => hdense (mem_cubeWindowIds.1 h).2,
        if_neg hdense, List.append_nil]
  rw [Option.map_eq_some_iff]
  simp only [writes_eq_some_iff hrows hvector hcube hno]
  constructor
  · rintro ⟨_, ⟨hload, rfl⟩, hx⟩
    rw [hone] at hx
    exact ⟨hload, List.singleton_inj.1 hx⟩
  · rintro ⟨hload, rfl⟩
    exact ⟨_, ⟨hload, rfl⟩, hone⟩

/-! ## Independence of the classification -/

/-- Every window is taken by one core, and every row is written once with the sum over its edges. -/
structure EdgeSums (csr : Csr) (isCubeWindow : ℕ → Bool) (vectorCores cubeCores : ℕ) : Prop where
  row_window : ∀ row < csr.numRows, ∃! w, w < csr.numWindows ∧ row ∈ csr.windowRows w
  window_path : ((build csr isCubeWindow).vectorWindowIds ++
    (build csr isCubeWindow).cubeWindowIds).Perm (List.range csr.numWindows)
  vector_core : ∀ i < (build csr isCubeWindow).vectorWindowIds.length, ∃! core,
    core < vectorCores ∧
      InSlot (buildBalancedPartitions (vectorWork csr (build csr isCubeWindow)) vectorCores) core i
  cube_core : ∀ i < (build csr isCubeWindow).cubeWindowIds.length, ∃! core, core < cubeCores ∧
    InSlot (buildBalancedPartitions (build csr isCubeWindow).cubeWork cubeCores) core i
  sum_eq : ∀ feat, ∀ row < csr.numRows,
    (writes csr feat (build csr isCubeWindow) vectorCores cubeCores).map (writtenTo · row) =
      some [edgeRow csr feat row]

/-- The sum SpMM does not depend on the windows that are selected. -/
structure Independent (csr : Csr) (vectorCores cubeCores : ℕ) : Prop where
  edgeSums : ∀ isCubeWindow, EdgeSums csr isCubeWindow vectorCores cubeCores
  another_window : ∀ isCubeWindow w feat, ∀ row < csr.numRows,
    (writes csr feat (build csr (Function.update isCubeWindow w true)) vectorCores cubeCores).map
        (writtenTo · row) =
      (writes csr feat (build csr isCubeWindow) vectorCores cubeCores).map (writtenTo · row)

/-- The number of windows without edges. -/
def emptyWindows (csr : Csr) : ℕ :=
  ((List.range csr.numWindows).filter fun w => csr.windowEdges w = []).length

/-- The windows without edges are few enough for the boundaries to fit in 32 bits. -/
def EmptyWindowsFit (csr : Csr) (vectorCores : ℕ) : Prop :=
  vectorCores < emptyWindows csr → (vectorCores - 1) * emptyWindows csr < 2 ^ 32

lemma uniqueColumns_eq_nil_iff : csr.uniqueColumns w = [] ↔ csr.windowEdges w = [] := by
  rw [List.eq_nil_iff_forall_not_mem, List.eq_nil_iff_forall_not_mem]
  constructor
  · intro h e he
    exact h _ (Csr.mem_uniqueColumns.2 ⟨e, he, rfl⟩)
  · intro h c hc
    obtain ⟨e, he, -⟩ := Csr.mem_uniqueColumns.1 hc
    exact h e he

/-- The boundaries of the vector cores wrap around only if the vector windows have no edges. -/
lemma noWrap_vectorWork_iff (vectorCores : ℕ) :
    NoWrap (vectorWork csr (build csr isCubeWindow)) vectorCores ↔
      ((∀ w < csr.numWindows, csr.windowEdges w ≠ [] → isCubeWindow w = true) →
        EmptyWindowsFit csr vectorCores) := by
  have hsum : (vectorWork csr (build csr isCubeWindow)).sum = 0 ↔
      ∀ w < csr.numWindows, csr.windowEdges w ≠ [] → isCubeWindow w = true := by
    rw [List.sum_eq_zero_iff, vectorWork, List.forall_mem_map, build_vectorWindowIds]
    refine forall_congr' fun w => ?_
    have hempty : csr.windowEdges w = [] ↔
        csr.ptr (csr.endNode w) - csr.ptr (Csr.startNode w) = 0 := by
      rw [← List.length_eq_zero_iff, Csr.windowEdges, Csr.edgesBetween, List.length_range']
    rw [List.mem_filter, List.mem_range, decide_eq_true_eq, Dense, Ne, uniqueColumns_eq_nil_iff,
      ← hempty]
    tauto
  refine imp_congr_ctx hsum fun hall => ?_
  have hids : (build csr isCubeWindow).vectorWindowIds =
      (List.range csr.numWindows).filter fun w => csr.windowEdges w = [] := by
    rw [build_vectorWindowIds]
    apply List.filter_congr
    intro w hw
    have hcube := hall w (List.mem_range.1 hw)
    rw [decide_eq_decide, Dense, Ne, uniqueColumns_eq_nil_iff]
    tauto
  rw [vectorWork, List.length_map, hids]
  rfl

/-- The loads of a cube window lie in the buffer, and the cells of its columns that are loaded are those of
its block. -/
def LoadsBlock (csr : Csr) (s : SumPreprocess) (i : ℕ) : Prop :=
  s.loadsInside i = true ∧ ∀ r < min windowSize (csr.numRows - s.cubeWindowIds.getD i 0 * windowSize),
    ∀ c < s.windowColumns i, s.loadedCell i r c = s.blockCell i r c

/-- A block of 16 columns is loaded as it is. -/
lemma Built.loadsBlock (h : Built csr isCubeWindow ws s) (hi : i < s.cubeWindowIds.length)
    (hle : s.windowColumns i ≤ tcBlockWidth) : LoadsBlock csr s i := by
  have hmax : maxKColumns = 1024 := rfl
  rw [tcBlockWidth] at hle
  have hslice : s.sliceColumns i 0 = s.windowColumns i := by
    rw [sliceColumns, hmax]
    omega
  have hblocks : tcBlocks (s.windowColumns i) ≤ 1 := by
    simp only [tcBlocks, tcBlockWidth]
    omega
  constructor
  · rw [loadsInside, List.all_eq_true]
    intro t ht
    rw [slices, List.mem_range, hmax] at ht
    obtain rfl : t = 0 := by omega
    have hbuffer := h.tcOffset_le (i := i + 1) hi
    rw [tcOffset_succ] at hbuffer
    have hone : tcBlocks (s.windowColumns i) = 1 := by
      have hpos := Csr.tcBlocks_mul (s.windowColumns i)
      rw [tcBlockWidth] at hpos
      omega
    rw [hone] at hbuffer
    rw [sliceStart, sliceRows, hslice, hone]
    simp only [windowSize, tcBlockWidth] at hbuffer ⊢
    exact decide_eq_true (by omega)
  · intro r _ c hc
    have hone : tcBlocks (s.windowColumns i) = 1 := by
      have hpos := Csr.tcBlocks_mul (s.windowColumns i)
      rw [tcBlockWidth] at hpos
      omega
    rw [loadedCell, blockCell, hmax, show c / 1024 = 0 by omega, show c % 1024 = c by omega, loadedPlace,
      sliceStart, sliceRows, hslice, hone]
    simp only [windowSize, tcBlockWidth]
    congr 1
    omega

/-- The load of a wider block alone runs off the buffer. -/
lemma not_loadsInside (hw : w < csr.numWindows) (hmany : tcBlockWidth < (csr.uniqueColumns w).length) :
    ¬LoadsInside csr fun w' => w' = w := by
  intro h
  have hbuilt := built_build csr fun w' => w' = w
  have hids : (build csr fun w' => w' = w).cubeWindowIds = [w] := by
    have hfilter : (List.range csr.numWindows).filter (fun w' => Dense csr (fun w' => w' = w) w') =
        (List.range csr.numWindows).filter fun w' => w' = w := by
      apply List.filter_congr
      intro w' _
      rw [decide_eq_decide, Dense, decide_eq_true_iff, and_iff_right_iff_imp]
      rintro rfl hnil
      rw [hnil] at hmany
      exact Nat.not_lt_zero _ hmany
    rw [build_cubeWindowIds, hfilter, List.filter_eq, List.count_eq_one_of_mem List.nodup_range
      (List.mem_range.2 hw)]
    rfl
  have hpos : 0 < (build csr fun w' => w' = w).cubeWindowIds.length := by
    rw [hids]
    exact Nat.one_pos
  have hcols := hbuilt.windowColumns_eq hpos
  simp only [hids, List.getElem_singleton] at hcols
  have hlength : (build csr fun w' => w' = w).denseBlocks.length =
      windowSize * (tcBlocks (csr.uniqueColumns w).length * tcBlockWidth) := by
    rw [hbuilt.blocks_eq, hids, List.flatMap_singleton, Csr.length_denseBlock, Csr.paddedColumns]
  have hzero : (build csr fun w' => w' = w).tcOffset 0 = 0 := rfl
  have hall := List.all_eq_true.1 (h 0 hpos)
  have hmax : maxKColumns = 1024 := rfl
  generalize (csr.uniqueColumns w).length = n at *
  simp only [slices, List.mem_range, hcols, hmax, decide_eq_true_iff, sliceStart, sliceRows, sliceColumns,
    hzero, hlength, tcBlocks, windowSize, tcBlockWidth] at hall hmany
  by_cases hwide : n ≤ 1024
  · have hin := hall 0 (by omega)
    have hk : 2 ≤ (min (n - 0 * 1024) 1024 + 16 - 1) / 16 := by omega
    have hsame : (n + 16 - 1) / 16 = (min (n - 0 * 1024) 1024 + 16 - 1) / 16 := by omega
    rw [hsame] at hin
    generalize (min (n - 0 * 1024) 1024 + 16 - 1) / 16 = k at hin hk
    have hlarge : 31 * (k * 16) ≤ (k * 16 - 1) * (k * 16) := Nat.mul_le_mul_right _ (by omega)
    omega
  · -- The last slice but one is full.
    have hin := hall ((n - 1) / 1024 - 1) (by omega)
    have hfull : min (n - ((n - 1) / 1024 - 1) * 1024) 1024 = 1024 := by omega
    rw [hfull] at hin
    omega

/-- **A classification** gives the sums over the edges if and only if the cube windows have no
parallel edges, their blocks are loaded as they are, and the boundaries do not wrap around. -/
lemma edgeSums_iff (hrows : csr.numRows < 2 ^ 31) (hvector : 0 < vectorCores)
    (hcube : 0 < cubeCores) : EdgeSums csr isCubeWindow vectorCores cubeCores ↔
      (∀ w < csr.numWindows, isCubeWindow w = true → ∀ row ∈ csr.windowRows w,
        (csr.rowCols row).Nodup) ∧
      (∀ i < (build csr isCubeWindow).cubeWindowIds.length,
        LoadsBlock csr (build csr isCubeWindow) i) ∧
      ((∀ w < csr.numWindows, csr.windowEdges w ≠ [] → isCubeWindow w = true) →
        EmptyWindowsFit csr vectorCores) := by
  have hbuilt := built_build csr isCubeWindow
  have hvectorLen := length_vectorWork csr isCubeWindow
  have hcores := existsUnique_core_iff hvector (vectorWork_le isCubeWindow hrows)
  rw [hvectorLen, noWrap_vectorWork_iff] at hcores
  have hwindow {row : ℕ} (hrow : row < csr.numRows) : row / windowSize < csr.numWindows := by
    simp only [Csr.numWindows, windowSize]
    omega
  -- The rows of a cube window.
  have hvalue {i r : ℕ} (hi : i < (build csr isCubeWindow).cubeWindowIds.length)
      (hr : r < min windowSize
        (csr.numRows - (build csr isCubeWindow).cubeWindowIds[i] * windowSize)) (feat : Features) :
      (if Dense csr isCubeWindow (((build csr isCubeWindow).cubeWindowIds[i] * windowSize + r) / windowSize)
        then cubeValue feat (build csr isCubeWindow)
          (((build csr isCubeWindow).cubeWindowIds[i] * windowSize + r) / windowSize)
          ((build csr isCubeWindow).cubeWindowIds[i] * windowSize + r)
        else edgeRow csr feat ((build csr isCubeWindow).cubeWindowIds[i] * windowSize + r)) =
      cubeRow feat (build csr isCubeWindow) i r := by
    have hid : ((build csr isCubeWindow).cubeWindowIds[i] * windowSize + r) / windowSize =
        (build csr isCubeWindow).cubeWindowIds[i] := Csr.cell_div (hr.trans_le (min_le_left _ _))
    rw [hid, if_pos (mem_cubeWindowIds.1 (List.getElem_mem hi)).2, cubeValue,
      nodup_cubeWindowIds.idxOf_getElem i hi, Nat.add_sub_cancel_left]
  constructor
  · intro h
    have hno := hcores.1 h.vector_core
    have hsum {i r : ℕ} (hi : i < (build csr isCubeWindow).cubeWindowIds.length)
        (hr : r < min windowSize
          (csr.numRows - (build csr isCubeWindow).cubeWindowIds[i] * windowSize)) (feat : Features) :=
      (writtenTo_writes hrows hvector hcube ((noWrap_vectorWork_iff _).2 hno) (by omega) _).1
        (h.sum_eq feat ((build csr isCubeWindow).cubeWindowIds[i] * windowSize + r) (by omega))
    have hcells {i r : ℕ} (hi : i < (build csr isCubeWindow).cubeWindowIds.length)
        (hr : r < min windowSize
          (csr.numRows - (build csr isCubeWindow).cubeWindowIds[i] * windowSize)) :=
      (hbuilt.cubeRow_eq_edgeRow_iff hi (mem_cubeWindowIds.1 (List.getElem_mem hi)).1 hr).1
        fun feat => (hvalue hi hr feat).symm.trans (hsum hi hr feat).2
    refine ⟨fun w hw hsel row hrow => ?_, fun i hi => ⟨?_, fun r hr c hc => ?_⟩, hno⟩
    · by_cases hempty : csr.uniqueColumns w = []
      · have hnil : csr.rowCols row = [] := by
          rw [List.eq_nil_iff_forall_not_mem]
          intro c hc
          have hmem := mem_uniqueColumns_of_row hw hrow hc
          rw [hempty] at hmem
          cases hmem
        rw [hnil]
        exact List.nodup_nil
      · obtain ⟨i, hi, hwi⟩ := List.mem_iff_getElem.1 (mem_cubeWindowIds.2 ⟨hw, hempty, hsel⟩)
        have hrow' := Csr.mem_windowRows.1 hrow
        simp only [Csr.startNode, Csr.endNode] at hrow'
        have hnodup := (hcells hi (r := row - w * windowSize) (by rw [hwi]; omega)).1
        rwa [hwi, Nat.add_sub_cancel' hrow'.1] at hnodup
    · have hfirst : 0 < min windowSize
          (csr.numRows - (build csr isCubeWindow).cubeWindowIds[i] * windowSize) := by
        have hlt := (mem_cubeWindowIds.1 (List.getElem_mem hi)).1
        simp only [Csr.numWindows, windowSize] at hlt ⊢
        omega
      exact (hsum hi hfirst fun _ _ => 0).1 i hi
    · rw [List.getD_eq_getElem _ _ hi] at hr
      exact (hcells hi hr).2 c hc
  · rintro ⟨hparallel, hload, hfit⟩
    have hno : NoWrap (vectorWork csr (build csr isCubeWindow)) vectorCores :=
      (noWrap_vectorWork_iff _).2 hfit
    refine ⟨fun row hrow => ?_, ?_, hcores.2 hfit, ?_, fun feat row hrow => ?_⟩
    · exact ⟨row / windowSize, ⟨hwindow hrow, (mem_windowRows_iff hrow).2 rfl⟩,
        fun w hw => (mem_windowRows_iff hrow).1 hw.2⟩
    · rw [build_vectorWindowIds, build_cubeWindowIds]
      have hperm := List.filter_append_perm (fun w => decide (Dense csr isCubeWindow w))
        (List.range csr.numWindows)
      apply (List.perm_append_comm).trans
      simpa only [decide_not] using hperm
    · rw [← length_cubeWork]
      exact (existsUnique_core_iff hcube (cubeWork_le _ hrows)).2 (noWrap_cubeWork _)
    · rw [writtenTo_writes hrows hvector hcube hno hrow]
      refine ⟨fun i hi => (hload i hi).1, ?_⟩
      by_cases hdense : Dense csr isCubeWindow (row / windowSize)
      · obtain ⟨i, hi, hwi⟩ := List.mem_iff_getElem.1 (mem_cubeWindowIds.2 ⟨hwindow hrow, hdense⟩)
        have hr : row % windowSize < min windowSize
            (csr.numRows - (build csr isCubeWindow).cubeWindowIds[i] * windowSize) := by
          rw [hwi]
          simp only [windowSize] at *
          omega
        have hsplit : (build csr isCubeWindow).cubeWindowIds[i] * windowSize + row % windowSize = row := by
          rw [hwi, Nat.mul_comm]
          exact Nat.div_add_mod row windowSize
        have hrow := hvalue hi hr feat
        rw [hsplit] at hrow
        rw [hrow]
        have hall := (hbuilt.cubeRow_eq_edgeRow_iff hi (mem_cubeWindowIds.1 (List.getElem_mem hi)).1 hr).2
        rw [hsplit] at hall
        refine hall ⟨hparallel _ (hwindow ‹row < csr.numRows›) hdense.2 row
          ((mem_windowRows_iff ‹row < csr.numRows›).2 rfl), fun c hc => (hload i hi).2 _ ?_ c hc⟩ feat
        rwa [List.getD_eq_getElem _ _ hi]
      · rw [if_neg hdense]

/-- Two edges from row 0 to column 0. -/
def parallelEdges : Csr := Csr.parallelEdges

/-- One edge from row 0 to column 0. -/
def singleEdge : Csr where
  numRows := 1
  numCols := 1
  indptr := [0, 1]
  indices := [0]
  indptr_length := rfl
  indptr_zero := rfl
  indptr_mono := by decide
  indptr_last := rfl
  col_lt := by decide

/-- A row with an edge to each of 17 columns. -/
def wideRow : Csr where
  numRows := 1
  numCols := 17
  indptr := [0, 17]
  indices := List.range 17
  indptr_length := rfl
  indptr_zero := rfl
  indptr_mono := by decide
  indptr_last := rfl
  col_lt := by decide

end SumPreprocess

end DglAscend.Ascend
