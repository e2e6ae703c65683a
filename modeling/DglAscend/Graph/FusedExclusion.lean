import DglAscend.Aten.Slices
import DglAscend.Lib.Compaction
import DglAscend.Lib.Loops
import DglAscend.Lib.StdAlgorithms

/-!
# Excluding edges from a fused sample

`ExcludeCertainEdgesFused` of `neighbor.cc` removes the excluded edges from the CSR matrix that has been
sampled for each edge type, in place: the rows pointers are replaced while the rows are read.  An edge
type for which nothing has been sampled is refused if it has rows, and a weight array is filtered but not
made shorter.
-/

namespace DglAscend.Graph

open Aten

/-- What has been sampled for an edge type.  There are no weights if the pointer to them is null. -/
structure FusedSample (W : Type) where
  csr : CSRMatrix
  inducedEdges : List ℕ
  cooRows : List ℕ
  weights : List W
  deriving DecidableEq, Repr

/-- `std::binary_search` in the sorted `exclude_edges`. -/
def excluded (sort : StdSort ℕ) (excludeEdges : List ℕ) (id : ℕ) : Bool :=
  binarySearch (fun x => x) id (sort.run (fun a b => decide (a < b)) excludeEdges)

/-- `aten::IndexSelect(array, 0, end)` -/
def firstOf {α : Type} (array : List α) (stop : ℕ) : Except Fault (List α) :=
  if ¬ 0 < array.length then .error .raised
  else if ¬ stop ≤ array.length then .error .raised
  else .ok (array.take stop)

/-- `weights_data ? aten::IndexSelect(weights, 0, end) : NullArray()` -/
def firstWeights {W : Type} (weights : List W) (stop : ℕ) : Except Fault (List W) :=
  if weights = [] then .ok [] else firstOf weights stop

/-- The arrays of an edge type, and `outIndices`. -/
structure Scan (W : Type) where
  out : ℕ
  indptr : List ℕ
  indices : List ℕ
  inducedEdges : List ℕ
  cooRows : List ℕ
  weights : List W

/-- `weights_data[outIndices] = weights_data[col]` if there are weights. -/
def moveWeights {W : Type} [Inhabited W] (weights : List W) (out i : ℕ) : List W :=
  if weights = [] then [] else moveTo weights out i

section Loops

variable {W : Type} [Inhabited W] (gone : ℕ → Bool)

namespace Scan

/-- The body of the loop over the entries of a row. -/
def entry (s : Scan W) (col : ℕ) : Scan W :=
  if gone (s.inducedEdges.getD col default) then s
  else { s with
    out := s.out + 1
    indices := moveTo s.indices s.out col
    inducedEdges := moveTo s.inducedEdges s.out col
    cooRows := moveTo s.cooRows s.out col
    weights := moveWeights s.weights s.out col }

/-- The body of the loop over the rows. -/
def row (s : Scan W) (row : ℕ) : Scan W :=
  let tmpRow := s.indptr.getD row 0
  let s := if s.out ≠ tmpRow then { s with indptr := s.indptr.set row s.out } else s
  (List.range' tmpRow (s.indptr.getD (row + 1) 0 - tmpRow)).foldl (entry gone) s

/-- The loop over the rows, and the last row pointer. -/
def run (s : Scan W) : Scan W :=
  let s := (List.range (s.indptr.length - 1)).foldl (row gone) s
  { s with indptr := s.indptr.set (s.indptr.length - 1) s.out }

end Scan

end Loops

/-- `ExcludeCertainEdgesFused` for an edge type.  The induced edges and the weights keep their lengths. -/
def excludeFused {W : Type} [Inhabited W] (sort : StdSort ℕ) (sample : FusedSample W)
    (excludeEdges : List ℕ) : Except Fault (FusedSample W) :=
  if excludeEdges = [] ∨ sample.csr.numRows = 0 then .ok sample
  else do
    let s := Scan.run (excluded sort excludeEdges)
      ⟨0, sample.csr.indptr, sample.csr.indices, sample.inducedEdges, sample.cooRows, sample.weights⟩
    let remainInducedEdges ← firstOf s.inducedEdges s.out
    let _remainWeights ← firstWeights s.weights s.out
    let remainIndices ← firstOf s.indices s.out
    let cooRows ← firstOf s.cooRows s.out
    return ⟨⟨sample.csr.bits, sample.csr.numRows, s.out, s.indptr, remainIndices, remainInducedEdges,
      false⟩, s.inducedEdges, cooRows, s.weights⟩

/-- `ExcludeCertainEdgesFused`: every edge type with the edges to exclude. -/
def excludeCertainEdgesFused {W : Type} [Inhabited W] (sort : StdSort ℕ)
    (samples : List (FusedSample W × List ℕ)) : Except Fault (List (FusedSample W)) :=
  samples.mapM fun p => excludeFused sort p.1 p.2

/-! ## Filtered samples -/

/-- The arrays of an edge type belong together. -/
structure FusedSample.Aligned {W : Type} (s : FusedSample W) : Prop where
  framed : s.csr.Framed
  indptr : s.csr.numRows = 0 ∨ s.csr.indptr.length = s.csr.numRows + 1
  data : s.csr.data.length = s.csr.nnz
  cooRows : s.cooRows.length = s.csr.nnz
  weights : s.weights = [] ∨ s.weights.length = s.csr.nnz

/-- A sampled edge: its row in the matrix, the vertex of the row, its column, id and weight. -/
structure SampledEdge (W : Type) where
  row : ℕ
  cooRow : ℕ
  col : ℕ
  id : ℕ
  weight : Option W
  deriving DecidableEq, Repr

namespace FusedSample

variable {W : Type}

/-- The edge at a place of a row. -/
def edge (s : FusedSample W) (r p : ℕ) : SampledEdge W :=
  ⟨r, s.cooRows.getD p 0, s.csr.indices.getD p 0, s.csr.data.getD p 0, s.weights[p]?⟩

/-- The sampled edges in the order of the arrays. -/
def edges (s : FusedSample W) : List (SampledEdge W) :=
  (List.range s.csr.numRows).flatMap fun r => (s.csr.places r).map (s.edge r)

/-- The sample has the edges that are not excluded, in their order, and nothing is changed if nothing is
to be excluded. -/
structure Filtered (s : FusedSample W) (excludeEdges : List ℕ) (s' : FusedSample W) : Prop where
  aligned : s'.Aligned
  numRows : s'.csr.numRows = s.csr.numRows
  edges : s'.edges = s.edges.filter fun e => e.id ∉ excludeEdges
  unchanged : excludeEdges = [] → s' = s

end FusedSample

/-! ## The loops -/

section Runs

variable {W : Type} [Inhabited W] {sample : FusedSample W} {gone : ℕ → Bool}

/-- Whether the edge at a place stays. -/
def keeps (sample : FusedSample W) (gone : ℕ → Bool) (p : ℕ) : Bool :=
  !gone (sample.inducedEdges.getD p default)

/-- The weights after the entries at some places have moved. -/
def compactedWeights (weights : List W) (kept : List ℕ) : List W :=
  if weights = [] then [] else compacted weights kept

/-- The arrays when the places below `m` have been read. -/
def scanAt (sample : FusedSample W) (gone : ℕ → Bool) (indptr : List ℕ) (m : ℕ) : Scan W :=
  let kept := keptBelow (keeps sample gone) m
  ⟨kept.length, indptr, compacted sample.csr.indices kept, compacted sample.inducedEdges kept,
    compacted sample.cooRows kept, compactedWeights sample.weights kept⟩

/-- The row pointers when the rows below `r` have been read. -/
def indptrAt (sample : FusedSample W) (gone : ℕ → Bool) (r : ℕ) : List ℕ :=
  ((List.range r).map fun q => (keptBelow (keeps sample gone) (sample.csr.ptr q)).length) ++
    sample.csr.indptr.drop r

/-- The ids in the matrix are those of the induced edges. -/
structure FusedSample.Sampled (sample : FusedSample W) : Prop extends sample.Aligned where
  induced : sample.inducedEdges = sample.csr.data

lemma moveWeights_compacted {weights : List W} {kept : List ℕ} {i n : ℕ}
    (hw : weights = [] ∨ weights.length = n) (hkept : kept.length ≤ i) (hi : i < n) :
    moveWeights (compactedWeights weights kept) kept.length i =
      compactedWeights weights (kept ++ [i]) := by
  rw [compactedWeights, compactedWeights]
  rcases hw with hw | hw
  · rw [if_pos hw, if_pos hw]
    rfl
  · have hne : weights ≠ [] := by
      rintro rfl
      rw [← hw] at hi
      exact absurd hi (Nat.not_lt_zero i)
    have hlen : (compacted weights kept).length = weights.length :=
      length_compacted (hkept.trans (hw.symm ▸ hi.le))
    rw [if_neg hne, if_neg hne, moveWeights, if_neg, moveTo_compacted hkept (hw.symm ▸ hi)]
    intro hnil
    rw [hnil, List.length_nil, hw] at hlen
    omega

variable {r q : ℕ}

omit [Inhabited W] in
lemma indptrAt_getD (sample : FusedSample W) (gone : ℕ → Bool) (hq : r ≤ q) :
    (indptrAt sample gone r).getD q 0 = sample.csr.ptr q := by
  have hlen : ((List.range r).map fun q =>
      (keptBelow (keeps sample gone) (sample.csr.ptr q)).length).length = r := by
    rw [List.length_map, List.length_range]
  rw [indptrAt, List.getD_append_right _ _ _ _ (hlen.trans_le hq), hlen, CSRMatrix.ptr,
    List.getD_eq_getElem?_getD, List.getElem?_drop, Nat.add_sub_cancel' hq, List.getD_eq_getElem?_getD]

omit [Inhabited W] in
lemma indptrAt_set (gone : ℕ → Bool) (hr : r < sample.csr.indptr.length) :
    (indptrAt sample gone r).set r (keptBelow (keeps sample gone) (sample.csr.ptr r)).length =
      indptrAt sample gone (r + 1) := by
  have hlen : ((List.range r).map fun q =>
      (keptBelow (keeps sample gone) (sample.csr.ptr q)).length).length = r := by
    rw [List.length_map, List.length_range]
  rw [indptrAt, indptrAt, List.set_append_right _ _ hlen.le, hlen, Nat.sub_self,
    List.drop_eq_getElem_cons hr, List.set_cons_zero, List.range_succ, List.map_append,
    List.map_singleton, List.append_assoc, List.singleton_append]

namespace FusedSample.Sampled

variable (h : sample.Sampled)
include h

lemma entry_step (indptr : List ℕ) {i : ℕ} (hi : i < sample.csr.nnz) :
    Scan.entry gone (scanAt sample gone indptr i) i = scanAt sample gone indptr (i + 1) := by
  have hkept := length_keptBelow_le (keeps sample gone) i
  have hid : (compacted sample.inducedEdges (keptBelow (keeps sample gone) i)).getD i default =
      sample.inducedEdges.getD i default := compacted_getD hkept
  have hsucc := keptBelow_succ (keeps sample gone) i
  rw [Scan.entry]
  show (if gone ((compacted sample.inducedEdges (keptBelow (keeps sample gone) i)).getD i default)
    then _ else _) = _
  rw [hid]
  cases hgone : gone (sample.inducedEdges.getD i default) with
  | true =>
      have hkeeps : keeps sample gone i = false := by rw [keeps, hgone]; rfl
      rw [hkeeps, if_neg nofun] at hsucc
      rw [if_pos rfl, scanAt, scanAt, hsucc]
  | false =>
      have hkeeps : keeps sample gone i = true := by rw [keeps, hgone]; rfl
      rw [hkeeps, if_pos rfl] at hsucc
      have hinduced : i < sample.inducedEdges.length := by rwa [h.induced, h.data]
      have hrows : i < sample.cooRows.length := by rwa [h.cooRows]
      rw [if_neg nofun]
      simp only [scanAt, hsucc, List.length_append, List.length_singleton,
        moveTo_compacted hkept hinduced, moveTo_compacted hkept hrows,
        moveTo_compacted hkept (show i < sample.csr.indices.length from hi),
        moveWeights_compacted h.weights hkept hi]

lemma entries_run (indptr : List ℕ) {m n : ℕ} (hn : m + n ≤ sample.csr.nnz) :
    (List.range' m n).foldl (Scan.entry gone) (scanAt sample gone indptr m) =
      scanAt sample gone indptr (m + n) := by
  induction n with
  | zero => rfl
  | succ n ih =>
      rw [List.range'_concat, List.foldl_append, ih (by omega), Nat.one_mul]
      exact h.entry_step indptr (by omega)

lemma row_step (hlen : sample.csr.indptr.length = sample.csr.numRows + 1)
    (hr : r < sample.csr.numRows) :
    Scan.row gone (scanAt sample gone (indptrAt sample gone r) (sample.csr.ptr r)) r =
      scanAt sample gone (indptrAt sample gone (r + 1)) (sample.csr.ptr (r + 1)) := by
  have hmono := h.framed.ptr_mono r hr
  have hle : sample.csr.ptr (r + 1) ≤ sample.csr.nnz := by
    rw [← h.framed.ptr_last]
    exact boundary_mono h.framed.ptr_mono hr le_rfl
  have hin : r < (indptrAt sample gone r).length := by
    rw [indptrAt, List.length_append, List.length_map, List.length_range, List.length_drop]
    omega
  have hset := indptrAt_set gone (show r < sample.csr.indptr.length by omega)
  -- writing the pointer that is there already changes nothing
  have hput : (if (keptBelow (keeps sample gone) (sample.csr.ptr r)).length ≠
        (indptrAt sample gone r).getD r 0
      then ({ scanAt sample gone (indptrAt sample gone r) (sample.csr.ptr r) with
        indptr := (indptrAt sample gone r).set r
          (keptBelow (keeps sample gone) (sample.csr.ptr r)).length } : Scan W)
      else scanAt sample gone (indptrAt sample gone r) (sample.csr.ptr r)) =
        scanAt sample gone (indptrAt sample gone (r + 1)) (sample.csr.ptr r) := by
    by_cases hne : (keptBelow (keeps sample gone) (sample.csr.ptr r)).length ≠
        (indptrAt sample gone r).getD r 0
    · rw [if_pos hne, hset]
      rfl
    · rw [if_neg hne, ← hset, not_not.1 hne, List.getD_eq_getElem _ _ hin, List.set_getElem_self]
  have hrow : Scan.row gone (scanAt sample gone (indptrAt sample gone r) (sample.csr.ptr r)) r =
      (List.range' ((indptrAt sample gone r).getD r 0)
        ((indptrAt sample gone (r + 1)).getD (r + 1) 0 - (indptrAt sample gone r).getD r 0)).foldl
        (Scan.entry gone) (scanAt sample gone (indptrAt sample gone (r + 1)) (sample.csr.ptr r)) := by
    rw [Scan.row]
    exact congrArg (fun s : Scan W => (List.range' ((indptrAt sample gone r).getD r 0)
      (s.indptr.getD (r + 1) 0 - (indptrAt sample gone r).getD r 0)).foldl (Scan.entry gone) s) hput
  rw [hrow, indptrAt_getD sample gone le_rfl, indptrAt_getD sample gone le_rfl,
    h.entries_run _ (by omega), Nat.add_sub_cancel' hmono]

lemma rows_run (gone : ℕ → Bool) (hlen : sample.csr.indptr.length = sample.csr.numRows + 1)
    (hr : r ≤ sample.csr.numRows) :
    (List.range r).foldl (Scan.row gone) (scanAt sample gone sample.csr.indptr 0) =
      scanAt sample gone (indptrAt sample gone r) (sample.csr.ptr r) := by
  induction r with
  | zero => rw [h.framed.ptr_zero]; rfl
  | succ r ih =>
      rw [List.range_succ, List.foldl_append, ih (Nat.le_of_succ_le hr)]
      exact h.row_step hlen hr

/-- **What the loops leave.** -/
lemma run_eq (hlen : sample.csr.indptr.length = sample.csr.numRows + 1) :
    Scan.run gone ⟨0, sample.csr.indptr, sample.csr.indices, sample.inducedEdges, sample.cooRows,
        sample.weights⟩ =
      scanAt sample gone (indptrAt sample gone (sample.csr.numRows + 1)) sample.csr.nnz := by
  have hstart : (⟨0, sample.csr.indptr, sample.csr.indices, sample.inducedEdges, sample.cooRows,
      sample.weights⟩ : Scan W) = scanAt sample gone sample.csr.indptr 0 := by
    have hweights : compactedWeights sample.weights [] = sample.weights := by
      rw [compactedWeights, compacted_nil]
      split_ifs with hw
      · exact hw.symm
      · rfl
    rw [scanAt]
    show _ = Scan.mk 0 _ _ _ _ (compactedWeights sample.weights [])
    rw [hweights]
    rfl
  have hrows := h.rows_run gone hlen le_rfl
  have hset := indptrAt_set gone (show sample.csr.numRows < sample.csr.indptr.length by omega)
  have hfull : (indptrAt sample gone sample.csr.numRows).length = sample.csr.numRows + 1 := by
    rw [indptrAt, List.length_append, List.length_map, List.length_range, List.length_drop]
    omega
  rw [hstart, Scan.run]
  show (let s := (List.range (sample.csr.indptr.length - 1)).foldl (Scan.row gone) _
    ({ s with indptr := s.indptr.set (s.indptr.length - 1) s.out } : Scan W)) = _
  rw [hlen, Nat.add_sub_cancel, hrows, h.framed.ptr_last]
  show ({ scanAt sample gone _ sample.csr.nnz with indptr := _ } : Scan W) = _
  rw [← hset, h.framed.ptr_last]
  show Scan.mk _ ((indptrAt sample gone sample.csr.numRows).set
    ((indptrAt sample gone sample.csr.numRows).length - 1) _) _ _ _ _ = _
  rw [hfull, Nat.add_sub_cancel]
  rfl

end FusedSample.Sampled

/-! ## What the calls return -/

omit [Inhabited W] in
lemma excluded_eq (sort : StdSort ℕ) (excludeEdges : List ℕ) (id : ℕ) :
    excluded sort excludeEdges id = decide (id ∈ excludeEdges) := by
  have hperm := sort.perm (fun a b => decide (a < b)) excludeEdges
  have hsorted : (sort.run (fun a b => decide (a < b)) excludeEdges).Pairwise (· ≤ ·) := by
    refine (sort.sorted (fun a b => decide (a < b)) excludeEdges ?_ ?_).imp ?_
    · intro a b hab
      rw [decide_eq_true_eq] at hab
      exact decide_eq_false (by omega)
    · intro a b c hba hcb
      rw [decide_eq_false_iff_not] at hba hcb ⊢
      omega
    · intro a b hba
      rw [decide_eq_false_iff_not] at hba
      omega
  rw [excluded, binarySearch_eq (by rwa [List.map_id'])]
  apply Bool.eq_iff_iff.2
  rw [List.any_eq_true, decide_eq_true_eq]
  constructor
  · rintro ⟨a, ha, heq⟩
    rw [decide_eq_true_eq] at heq
    exact heq ▸ hperm.mem_iff.1 ha
  · intro hid
    exact ⟨id, hperm.mem_iff.2 hid, decide_eq_true rfl⟩

/-- The places that stay. -/
def keptPlaces (sample : FusedSample W) (gone : ℕ → Bool) : List ℕ :=
  keptBelow (keeps sample gone) sample.csr.nnz

/-- The sample with the entries that stay; the arrays that are not made shorter have more. -/
def filteredSample (sample : FusedSample W) (gone : ℕ → Bool) : FusedSample W :=
  let kept := keptPlaces sample gone
  ⟨⟨sample.csr.bits, sample.csr.numRows, kept.length, indptrAt sample gone (sample.csr.numRows + 1),
    kept.map (sample.csr.indices.getD · default), kept.map (sample.inducedEdges.getD · default), false⟩,
    compacted sample.inducedEdges kept, kept.map (sample.cooRows.getD · default),
    compactedWeights sample.weights kept⟩

omit [Inhabited W] in
lemma firstOf_compacted {α : Type} [Inhabited α] {xs : List α} {kept : List ℕ} (hne : 0 < xs.length)
    (hkept : kept.length ≤ xs.length) :
    firstOf (compacted xs kept) kept.length = .ok (kept.map (xs.getD · default)) := by
  have hlen := length_compacted hkept
  rw [firstOf, if_neg (not_not.2 (by omega)), if_neg (not_not.2 (by omega)), take_compacted]

lemma length_compactedWeights {weights : List W} {kept : List ℕ} (hkept : kept.length ≤ weights.length) :
    (compactedWeights weights kept).length = weights.length := by
  rw [compactedWeights]
  split_ifs with hw
  · rw [hw]
  · exact length_compacted hkept

namespace FusedSample.Sampled

variable (h : sample.Sampled) {sort : StdSort ℕ} {excludeEdges : List ℕ}
include h

lemma excludeFused_eq (hne : ¬ (excludeEdges = [] ∨ sample.csr.numRows = 0)) (hnnz : 0 < sample.csr.nnz) :
    excludeFused sort sample excludeEdges =
      .ok (filteredSample sample (excluded sort excludeEdges)) := by
  have hlen : sample.csr.indptr.length = sample.csr.numRows + 1 :=
    h.indptr.resolve_left fun hzero => hne (Or.inr hzero)
  have hkept : (keptPlaces sample (excluded sort excludeEdges)).length ≤ sample.csr.nnz :=
    length_keptBelow_le _ _
  have hinduced : sample.inducedEdges.length = sample.csr.nnz := by rw [h.induced, h.data]
  have hweights : ∃ ws, firstWeights (compactedWeights sample.weights
      (keptPlaces sample (excluded sort excludeEdges)))
      (keptPlaces sample (excluded sort excludeEdges)).length = .ok ws := by
    by_cases hnil : sample.weights = []
    · rw [compactedWeights, if_pos hnil]
      exact ⟨[], rfl⟩
    · have hw := h.weights.resolve_left hnil
      have hlen : (compacted sample.weights (keptPlaces sample (excluded sort excludeEdges))).length =
          sample.weights.length := length_compacted (hw.symm ▸ hkept)
      rw [compactedWeights, if_neg hnil, firstWeights, if_neg]
      · exact ⟨_, firstOf_compacted (by omega) (hw.symm ▸ hkept)⟩
      · intro hcompacted
        rw [hcompacted, List.length_nil] at hlen
        omega
  obtain ⟨ws, hws⟩ := hweights
  rw [excludeFused, if_neg hne, h.run_eq hlen]
  show (firstOf (compacted sample.inducedEdges (keptPlaces sample (excluded sort excludeEdges)))
    (keptPlaces sample (excluded sort excludeEdges)).length).bind _ = _
  rw [firstOf_compacted (by omega) (hinduced.symm ▸ hkept)]
  show (firstWeights (compactedWeights sample.weights
    (keptPlaces sample (excluded sort excludeEdges)))
    (keptPlaces sample (excluded sort excludeEdges)).length).bind _ = _
  rw [hws]
  show (firstOf (compacted sample.csr.indices (keptPlaces sample (excluded sort excludeEdges)))
    (keptPlaces sample (excluded sort excludeEdges)).length).bind _ = _
  rw [firstOf_compacted hnnz hkept]
  show (firstOf (compacted sample.cooRows (keptPlaces sample (excluded sort excludeEdges)))
    (keptPlaces sample (excluded sort excludeEdges)).length).bind _ = _
  rw [firstOf_compacted (by rw [h.cooRows]; exact hnnz) (h.cooRows.symm ▸ hkept)]
  rfl

lemma excludeFused_empty (hne : ¬ (excludeEdges = [] ∨ sample.csr.numRows = 0)) (hnnz : sample.csr.nnz = 0) :
    excludeFused sort sample excludeEdges = .error .raised := by
  have hlen : sample.csr.indptr.length = sample.csr.numRows + 1 :=
    h.indptr.resolve_left fun hzero => hne (Or.inr hzero)
  have hinduced : sample.inducedEdges = [] := by
    rw [← List.length_eq_zero_iff, h.induced, h.data, hnnz]
  rw [excludeFused, if_neg hne, h.run_eq hlen, hnnz]
  show (firstOf (compacted sample.inducedEdges []) 0).bind _ = _
  rw [compacted_nil, hinduced]
  rfl

omit [Inhabited W] h in
lemma indptrAt_ptr (sample : FusedSample W) (gone : ℕ → Bool) (hq : q ≤ sample.csr.numRows) :
    (indptrAt sample gone (sample.csr.numRows + 1)).getD q 0 =
      (keptBelow (keeps sample gone) (sample.csr.ptr q)).length := by
  have hq' : q < ((List.range (sample.csr.numRows + 1)).map fun q =>
      (keptBelow (keeps sample gone) (sample.csr.ptr q)).length).length := by
    rw [List.length_map, List.length_range]
    omega
  rw [indptrAt, List.getD_append _ _ _ _ hq', List.getD_eq_getElem _ _ hq', List.getElem_map,
    List.getElem_range]

lemma filteredSample_framed (gone : ℕ → Bool) : (filteredSample sample gone).csr.Framed := by
  refine ⟨?_, ?_, ?_⟩
  · show (indptrAt sample gone _).getD 0 0 = 0
    rw [indptrAt_ptr sample gone (Nat.zero_le _), h.framed.ptr_zero]
    rfl
  · intro r hr
    show (indptrAt sample gone _).getD r 0 ≤ (indptrAt sample gone _).getD (r + 1) 0
    rw [indptrAt_ptr sample gone (Nat.le_of_lt hr), indptrAt_ptr sample gone hr,
      ← Nat.add_sub_cancel' (h.framed.ptr_mono r hr), keptBelow_add, List.length_append]
    exact Nat.le_add_right _ _
  · show (indptrAt sample gone _).getD sample.csr.numRows 0 = (List.map _ _).length
    rw [indptrAt_ptr sample gone le_rfl, h.framed.ptr_last, List.length_map]
    rfl

omit [Inhabited W] in
lemma keeps_eq (gone : ℕ → Bool) (p : ℕ) :
    keeps sample gone p = !gone (sample.csr.data.getD p 0) := by
  rw [keeps, h.induced]
  rfl

/-- A filtered sample has the edges that stay. -/
lemma filteredSample_edges {gone : ℕ → Bool}
    (hweights : ∀ p < (keptPlaces sample gone).length,
      (compactedWeights sample.weights (keptPlaces sample gone))[p]? =
        sample.weights[(keptPlaces sample gone).getD p 0]?) :
    (filteredSample sample gone).edges = sample.edges.filter fun e => !gone e.id := by
  have hedge : ∀ r p, p < (keptPlaces sample gone).length →
      (filteredSample sample gone).edge r p = sample.edge r ((keptPlaces sample gone).getD p 0) := by
    intro r p hp
    have hget : ∀ xs : List ℕ, ((keptPlaces sample gone).map (xs.getD · default)).getD p 0 =
        xs.getD ((keptPlaces sample gone).getD p 0) 0 := by
      intro xs
      rw [List.getD_eq_getElem _ _ (by rwa [List.length_map]), List.getElem_map,
        List.getD_eq_getElem _ _ hp]
      rfl
    rw [edge, edge]
    show SampledEdge.mk r (List.getD (List.map _ _) p 0) (List.getD (List.map _ _) p 0)
      (List.getD (List.map _ _) p 0) _ = _
    rw [hget, hget, hget, h.induced]
    exact congrArg _ (hweights p hp)
  rw [edges, edges, List.filter_flatMap]
  apply List.flatMap_congr
  intro r hr
  replace hr := List.mem_range.1 hr
  have hmono := h.framed.ptr_mono r hr
  have hle : sample.csr.ptr (r + 1) ≤ sample.csr.nnz := by
    rw [← h.framed.ptr_last]
    exact boundary_mono h.framed.ptr_mono hr le_rfl
  have hmap := map_keptBelow (keeps sample gone) (sample.csr.ptr r)
    (sample.csr.ptr (r + 1) - sample.csr.ptr r) (sample.csr.nnz - sample.csr.ptr (r + 1))
  rw [Nat.add_sub_cancel' hmono, Nat.add_sub_cancel' hle] at hmap
  have hplaces : (filteredSample sample gone).csr.places r =
      List.range' (keptBelow (keeps sample gone) (sample.csr.ptr r)).length
        ((keptBelow (keeps sample gone) (sample.csr.ptr (r + 1))).length -
          (keptBelow (keeps sample gone) (sample.csr.ptr r)).length) := by
    show List.range' ((indptrAt sample gone _).getD r 0)
      ((indptrAt sample gone _).getD (r + 1) 0 - (indptrAt sample gone _).getD r 0) = _
    rw [indptrAt_ptr sample gone (Nat.le_of_lt hr), indptrAt_ptr sample gone hr]
  have hbelow : (keptBelow (keeps sample gone) (sample.csr.ptr (r + 1))).length ≤
      (keptPlaces sample gone).length := by
    rw [keptPlaces, ← Nat.add_sub_cancel' hle, keptBelow_add, List.length_append]
    exact Nat.le_add_right _ _
  calc ((filteredSample sample gone).csr.places r).map ((filteredSample sample gone).edge r)
      = ((filteredSample sample gone).csr.places r).map
          (sample.edge r ∘ ((keptPlaces sample gone).getD · 0)) := by
        apply List.map_congr_left
        intro p hp
        rw [hplaces, List.mem_range'_1] at hp
        exact hedge r p (by omega)
    _ = ((sample.csr.places r).filter (keeps sample gone)).map (sample.edge r) := by
        rw [hplaces, ← List.map_map, keptPlaces, hmap]
        rfl
    _ = ((sample.csr.places r).map (sample.edge r)).filter fun e => !gone e.id := by
        rw [List.filter_map]
        congr 1
        apply List.filter_congr
        intro p _
        exact h.keeps_eq gone p

omit [Inhabited W] in
/-- If no edge is to be removed, the places stay as they are. -/
lemma keptPlaces_eq_range {gone : ℕ → Bool} (hall : ∀ id ∈ sample.csr.data, gone id = false) :
    keptPlaces sample gone = List.range sample.csr.nnz := by
  rw [keptPlaces, keptBelow, List.filter_eq_self]
  intro p hp
  have hp' : p < sample.csr.data.length := by
    rw [h.data]
    exact List.mem_range.1 hp
  rw [h.keeps_eq, List.getD_eq_getElem _ _ hp', hall _ (List.getElem_mem hp')]
  rfl

lemma compactedWeights_range : compactedWeights sample.weights (List.range sample.csr.nnz) =
    sample.weights := by
  rw [compactedWeights]
  split_ifs with hnil
  · exact hnil.symm
  · have hw := h.weights.resolve_left hnil
    rw [compacted, List.length_range, ← hw, List.drop_length, List.append_nil, map_getD_range]

/-- **When the call filters the sample**: it refuses an edge type that has rows but no sampled edge, and
the weights do not follow if an edge is removed. -/
lemma filtered_iff :
    (∃ s', excludeFused sort sample excludeEdges = .ok s' ∧ sample.Filtered excludeEdges s') ↔
      excludeEdges = [] ∨ sample.csr.numRows = 0 ∨ sample.csr.nnz ≠ 0 ∧
        (sample.weights = [] ∨ ∀ id ∈ sample.csr.data, id ∉ excludeEdges) := by
  have hfilter : sample.edges.filter (fun e => !excluded sort excludeEdges e.id) =
      sample.edges.filter fun e => e.id ∉ excludeEdges := by
    apply List.filter_congr
    intro e _
    rw [excluded_eq, decide_not]
  by_cases hne : excludeEdges = [] ∨ sample.csr.numRows = 0
  · refine iff_of_true ?_ (hne.imp_right Or.inl)
    refine ⟨sample, ?_, h.toAligned, rfl, ?_, fun _ => rfl⟩
    · rw [excludeFused, if_pos hne]
    · rcases hne with rfl | hzero
      · rw [List.filter_eq_self.2 fun _ _ => decide_eq_true List.not_mem_nil]
      · rw [edges, hzero]
        rfl
  · rw [← or_assoc, or_iff_right hne]
    rcases Nat.eq_zero_or_pos sample.csr.nnz with hzero | hnnz
    · refine iff_of_false ?_ fun hright => hright.1 hzero
      rintro ⟨s', hok, -⟩
      rw [h.excludeFused_empty hne hzero] at hok
      cases hok
    · rw [h.excludeFused_eq hne hnnz]
      have hkept : (keptPlaces sample (excluded sort excludeEdges)).length ≤ sample.csr.nnz :=
        length_keptBelow_le _ _
      constructor
      · rintro ⟨s', hok, hfiltered⟩
        obtain rfl := Except.ok.inj hok
        refine ⟨hnnz.ne', or_iff_not_imp_left.2 fun hnil => ?_⟩
        have hw := h.weights.resolve_left hnil
        have hlen : (filteredSample sample (excluded sort excludeEdges)).weights.length =
            sample.csr.nnz := (length_compactedWeights (hw.symm ▸ hkept)).trans hw
        have hsame : (keptPlaces sample (excluded sort excludeEdges)).length = sample.csr.nnz := by
          rcases hfiltered.aligned.weights with hw' | hw'
          · rw [hw', List.length_nil] at hlen
            omega
          · rw [hlen] at hw'
            exact (hw'.trans (List.length_map _)).symm
        intro id hid hmem
        obtain ⟨p, hp, rfl⟩ := List.mem_iff_getElem.1 hid
        have hall : keptPlaces sample (excluded sort excludeEdges) = List.range sample.csr.nnz := by
          apply List.Sublist.eq_of_length List.filter_sublist
          rw [List.length_range]
          exact hsame
        have hkeep : keeps sample (excluded sort excludeEdges) p = true := by
          have hin : p ∈ keptPlaces sample (excluded sort excludeEdges) := by
            rw [hall, List.mem_range, ← h.data]
            exact hp
          exact (List.mem_filter.1 hin).2
        rw [h.keeps_eq, List.getD_eq_getElem _ _ hp, excluded_eq, decide_eq_true hmem] at hkeep
        cases hkeep
      · rintro ⟨-, hright⟩
        have hplain : sample.weights = [] ∨ keptPlaces sample (excluded sort excludeEdges) =
            List.range sample.csr.nnz :=
          hright.imp_right fun hall => h.keptPlaces_eq_range fun id hid => by
            rw [excluded_eq, decide_eq_false (hall id hid)]
        have hweights : compactedWeights sample.weights
            (keptPlaces sample (excluded sort excludeEdges)) = sample.weights := by
          rcases hplain with hnil | hrange
          · rw [compactedWeights, if_pos hnil, hnil]
          · rw [hrange, h.compactedWeights_range]
        have hcount : ∀ xs : List ℕ, ((keptPlaces sample (excluded sort excludeEdges)).map
            (xs.getD · default)).length =
              (filteredSample sample (excluded sort excludeEdges)).csr.nnz := by
          intro xs
          rw [List.length_map]
          exact (List.length_map _).symm
        refine ⟨_, rfl, ⟨h.filteredSample_framed _, Or.inr ?_, hcount _, hcount _, ?_⟩, rfl, ?_, ?_⟩
        · show (indptrAt sample _ _).length = _
          rw [indptrAt, List.drop_of_length_le, List.append_nil, List.length_map, List.length_range]
          · rfl
          · exact (h.indptr.resolve_left fun hzero => hne (Or.inr hzero)).le
        · show compactedWeights _ _ = [] ∨ (compactedWeights _ _).length = (List.map _ _).length
          rw [hweights, List.length_map]
          rcases hplain with hnil | hrange
          · exact Or.inl hnil
          · rw [hrange, List.length_range]
            exact h.weights
        · rw [← hfilter]
          apply h.filteredSample_edges
          intro p hp
          rw [hweights]
          rcases hplain with hnil | hrange
          · rw [hnil]
            rfl
          · rw [hrange] at hp ⊢
            rw [List.getD_eq_getElem _ _ hp, List.getElem_range]
        · intro hnil
          exact absurd (Or.inl hnil) hne

end FusedSample.Sampled

end Runs

end DglAscend.Graph
