import DglAscend.Graphbolt.Cache.PartitionedPolicies

/-!
# Batches of a partitioned policy

The output tensors of a batch list the cells that the policies found, policy by policy, and then
those that they missed.  `PartitionedCachePolicy.cells` are these cells; the offset tables are the
prefix sums of their numbers.
-/

namespace DglAscend.Graphbolt

namespace BatchCell

/-- The cell with an index into another tensor. -/
def reindex (f : ℕ → ℕ) (c : BatchCell) : BatchCell := { c with index := f c.index }

/-- The cell with a position in the storage of all policies. -/
def shift (off : ℤ) (c : BatchCell) : BatchCell := { c with position := c.position + off }

end BatchCell

namespace Trace

/-- The trace with indices into another tensor. -/
def relabel (f : ℕ → ℕ) (l : Trace) : Trace := l.map fun x => ((x.1.1, f x.1.2), x.2)

variable (f : ℕ → ℕ) (l : Trace)

@[simp] lemma accesses_relabel : (l.relabel f).accesses = l.accesses := by
  simp [accesses, relabel]

@[simp] lemma found_relabel : (l.relabel f).found = l.found.map (BatchCell.reindex f) := by
  simp only [found, relabel, List.filter_map, List.map_map]
  rfl

@[simp] lemma missed_relabel : (l.relabel f).missed = l.missed.map (BatchCell.reindex f) := by
  simp only [missed, relabel, List.filter_map, List.map_map]
  rfl

/-- What `ReplaceImpl` writes for each lookup. -/
def replaced (l : Trace) : List BatchCell :=
  l.map fun x => ⟨x.1.2, x.1.1, (replaceCell x.2).1, (replaceCell x.2).2⟩

@[simp] lemma replaced_relabel : (l.relabel f).replaced = l.replaced.map (BatchCell.reindex f) := by
  simp only [replaced, relabel, List.map_map]
  rfl

lemma replaceResult_eq : l.replaceResult =
    ⟨l.replaced.map BatchCell.position, l.replaced.map BatchCell.pointer⟩ := by
  simp [replaceResult, replaced]

lemma relabel_eq_self {f : ℕ → ℕ} {l : Trace} (h : ∀ x ∈ l, f x.1.2 = x.1.2) :
    l.relabel f = l := by
  unfold relabel
  conv_rhs => rw [← List.map_id l]
  exact List.map_congr_left fun x hx => by rw [h x hx]; rfl

end Trace

lemma CachePolicy.Looked.relabel {Q : Type} [PolicyQueues Q] [LawfulQueues Q]
    {s s' : CachePolicy Q} {keys : List (ℤ × ℕ)} {l : Trace} (h : s.Looked keys l s')
    (f : ℕ → ℕ) : s.Looked (keys.map fun x => (x.1, f x.2)) (l.relabel f) s' where
  keys_eq := by simp [Trace.relabel, ← h.keys_eq]
  run := by simpa using h.run
  inv := h.inv

/-- The cells that a policy found and those that it missed, in the order of the tensors. -/
structure PartCells where
  found : List BatchCell
  missed : List BatchCell

namespace PartitionedCachePolicy

variable {kind : PolicyKind} {s s' : PartitionedCachePolicy kind}

/-- The index into the batch that belongs to the index `j` of policy `p`. -/
def batchIndex (r : PartitionResult) (p j : ℕ) : ℕ :=
  r.indices.getD ((r.offsets.getD p 0).toNat + j) 0

/-- The traces of the policies with indices into the batch. -/
def labelled (r : PartitionResult) (ls : List Trace) : List Trace :=
  ls.mapIdx fun p l => l.relabel (batchIndex r p)

variable (s) in
/-- The cells of each policy. -/
def cells (ls : List Trace) : List PartCells :=
  ls.mapIdx fun p l =>
    ⟨l.found.map (BatchCell.shift (s.positionOffset p)),
      l.missed.reverse.map (BatchCell.shift (s.positionOffset p))⟩

variable (s) in
/-- The cells of a batch of `Replace`, for each policy. -/
def replacedCells (ls : List Trace) : List (List BatchCell) :=
  ls.mapIdx fun p l => l.replaced.map (BatchCell.shift (s.positionOffset p))

variable {groups : List (List ℕ)}

lemma map_batchIndex (keys : List ℤ) {p : ℕ} {g : List ℕ} (hg : groups[p]? = some g) :
    (((keysAt keys g).map Prod.fst).zipIdx).map
      (fun x => (x.1, batchIndex (.ofGroups keys groups) p x.2)) = keysAt keys g := by
  refine List.ext_getElem (by simp [keysAt]) fun j h1 h2 => ?_
  have hj : j < g.length := by simpa [keysAt] using h2
  simp only [keysAt, List.getElem_map, List.getElem_zipIdx, Nat.zero_add, batchIndex]
  rw [indices_ofGroups keys hg hj]

/-- **What the policies did**, for a call whose traces are known. -/
theorem looked_of_onPolicies (hs : s.Inv) {keys : List ℤ} (hgroups : groups.length = s.numParts)
    {β : Type} {bs : List β} (result : Trace → β) (P : Access → Prop)
    {impl : List ℤ → CachePolicy kind.Queues → Outcome CacheError (CachePolicy kind.Queues) β}
    (himpl : ∀ ks t t' b, t.Inv → impl ks t = .ok b t' →
      ∃ l : Trace, t.Looked ks.zipIdx l t' ∧ (∀ x ∈ l, P x.2) ∧ b = result l)
    (h : s.onPolicies (fun p => impl (permutedSlice (.ofGroups keys groups) p)) = .ok bs s') :
    ∃ ls : List Trace, bs = ls.map result ∧
      s.LookedAll keys groups (labelled (.ofGroups keys groups) ls) s' ∧
      ∀ l ∈ ls, (∀ x ∈ l, P x.2) ∧ ∀ x ∈ l, x.1.2 < l.length := by
  obtain ⟨hcap, hbs, hparts, hpoint⟩ := onPolicies_eq_ok.1 h
  have hex (p : Fin bs.length) : ∃ l : Trace, bs[p] = result l ∧
      ((∀ x ∈ l, P x.2) ∧ ∀ x ∈ l, x.1.2 < l.length) ∧
      ∀ t g t', s.policies[p.1]? = some t → groups[p.1]? = some g → s'.policies[p.1]? = some t' →
        t.Looked (keysAt keys g) (l.relabel (batchIndex (.ofGroups keys groups) p)) t' := by
    have hp : p.1 < s.numParts := hbs ▸ p.2
    have hp' : p.1 < s'.numParts := hparts.symm ▸ hp
    have hpg : p.1 < groups.length := hgroups.symm ▸ hp
    have hrun := hpoint p _ _ _ (List.getElem?_eq_getElem hp) (List.getElem?_eq_getElem p.2)
      (List.getElem?_eq_getElem hp')
    obtain ⟨l, hl, hP, hb⟩ := himpl _ _ _ _ (hs.policy p _ (List.getElem?_eq_getElem hp)).1 hrun
    refine ⟨l, hb, ⟨hP, fun x hx => ?_⟩, fun t g t' ht hg' ht' => ?_⟩
    · have hmem : x.1 ∈ l.map Prod.fst := List.mem_map_of_mem hx
      have hlen := congrArg List.length hl.keys_eq
      rw [hl.keys_eq, List.mem_zipIdx_iff_getElem?] at hmem
      rw [List.length_map, List.length_zipIdx] at hlen
      exact hlen ▸ (List.getElem?_eq_some_iff.1 hmem).1
    · obtain rfl := Option.some.inj ((List.getElem?_eq_getElem hp).symm.trans ht)
      obtain rfl := Option.some.inj ((List.getElem?_eq_getElem hp').symm.trans ht')
      have hrel := hl.relabel (batchIndex (.ofGroups keys groups) p)
      rwa [permutedSlice_ofGroups keys hg', map_batchIndex keys hg'] at hrel
  choose f hf hP hlook using hex
  refine ⟨List.ofFn f, ?_, ⟨hcap, hparts, hgroups, ?_, ?_⟩, ?_⟩
  · refine List.ext_getElem (by simp) fun p h1 h2 => ?_
    simpa using hf ⟨p, h1⟩
  · simp [labelled, hbs]
  · intro p t g l t' ht hg hl ht'
    have hp : p < bs.length := by
      rw [hbs]
      exact (List.getElem?_eq_some_iff.1 ht).1
    have hl : l = (f ⟨p, hp⟩).relabel (batchIndex (.ofGroups keys groups) p) := by
      simpa [labelled, List.getElem?_mapIdx, List.getElem?_ofFn, hp] using hl.symm
    rw [hl]
    exact hlook ⟨p, hp⟩ t g t' ht hg ht'
  · intro l hl
    obtain ⟨p, rfl⟩ := List.mem_ofFn.1 hl
    exact hP p

/-! ## The output tensors -/

/-- The cells of a batch: those that were found, policy by policy, and then the others. -/
def allCells (cs : List PartCells) : List BatchCell :=
  cs.flatMap PartCells.found ++ cs.flatMap PartCells.missed

/-- The tensors of `QueryAndReplace`. -/
def queryAndReplaceTensors (cs : List PartCells) : PartitionedQueryAndReplaceResult where
  positions := (allCells cs).map BatchCell.position
  indices := (allCells cs).map BatchCell.index
  pointers := (allCells cs).map BatchCell.pointer
  missingKeys := (cs.flatMap PartCells.missed).map BatchCell.key
  foundOffsets := offsetsFrom 0 (cs.map fun c => c.found.length)
  missingOffsets := offsetsFrom 0 (cs.map fun c => c.missed.length)

/-- The tensors of `Query`. -/
def queryTensors (cs : List PartCells) : PartitionedQueryResult where
  positions := (cs.flatMap PartCells.found).map BatchCell.position
  indices := (allCells cs).map BatchCell.index
  missingKeys := (cs.flatMap PartCells.missed).map BatchCell.key
  foundPointers := (cs.flatMap PartCells.found).map BatchCell.pointer
  foundOffsets := offsetsFrom 0 (cs.map fun c => c.found.length)
  missingOffsets := offsetsFrom 0 (cs.map fun c => c.missed.length)

variable (cs : List PartCells)

lemma missingKeys_queryAndReplaceTensors :
    (queryAndReplaceTensors cs).missingKeys = (cs.flatMap PartCells.missed).map BatchCell.key := rfl

lemma missingKeys_queryTensors :
    (queryTensors cs).missingKeys = (cs.flatMap PartCells.missed).map BatchCell.key := rfl

lemma length_allCells : (allCells cs).length =
    ((cs.map fun c => c.found.length) ++ cs.map fun c => c.missed.length).sum := by
  simp [allCells, List.length_flatMap]

variable {len : ℕ}

section Rows

variable {α : Type} (f : BatchCell → α) (cs : List PartCells)

/-- The offsets of the found and the missed cells of all policies. -/
def resultOffsets : List ℤ := rowOffsets PartCells.found PartCells.missed cs

/-- The values of a tensor for both kinds of cells. -/
def rows : List (List α) := cs.map fun c => c.found.map f ++ c.missed.map f

lemma resultOffsets_map : resultOffsets cs =
    rowOffsets (fun c : PartCells => c.found.map f) (fun c => c.missed.map f) cs := by
  simp [resultOffsets, rowOffsets]

lemma flatMap_found_map :
    cs.flatMap (fun c => c.found.map f) = (cs.flatMap PartCells.found).map f := by
  simp [List.map_flatMap]

lemma flatMap_missed_map :
    cs.flatMap (fun c => c.missed.map f) = (cs.flatMap PartCells.missed).map f := by
  simp [List.map_flatMap]

/-- **A tensor over all cells** is filled from both rows of the policies' results. -/
theorem tensor_rows_eq (hlen : (allCells cs).length = len) :
    ((segments (resultOffsets cs) (rows f cs)).bind fun ws₁ =>
      (segments ((resultOffsets cs).drop cs.length)
        (List.zipWith List.drop (gaps (resultOffsets cs)) (rows f cs))).bind fun ws₂ =>
      tensor len (ws₁ ++ ws₂)) = some ((allCells cs).map f) := by
  rw [resultOffsets_map f, rows, segments_firstRow, Option.bind_some, segments_secondRow,
    Option.bind_some, tensor_rows, flatMap_found_map, flatMap_missed_map, allCells,
    List.map_append]
  rw [flatMap_found_map, flatMap_missed_map, ← List.map_append, ← allCells, List.length_map, hlen]

/-- A tensor over the cells that were found. -/
theorem tensor_found_eq : ((segments (resultOffsets cs) (cs.map fun c => c.found.map f)).bind fun
    ws => tensor (cs.flatMap PartCells.found).length ws) =
      some ((cs.flatMap PartCells.found).map f) := by
  have hlens : (cs.map fun c => c.found.length) =
      (cs.map fun c => c.found.map f).map List.length := by simp
  have htensor := tensor_writesFrom ((cs.flatMap PartCells.found).map f)
  rw [List.length_map] at htensor
  rw [resultOffsets, rowOffsets, hlens, segments_offsetsFrom_length, Option.bind_some,
    ← List.flatMap_def, flatMap_found_map, htensor]

/-- A tensor over the cells that were missed. -/
theorem tensor_missed_eq : ((segments ((resultOffsets cs).drop cs.length)
    (cs.map fun c => c.missed.map f)).bind fun ws => tensor (cs.flatMap PartCells.missed).length
      (ws.map fun w => (w.1 - (cs.flatMap PartCells.found).length, w.2))) =
        some ((cs.flatMap PartCells.missed).map f) := by
  have hlens : (cs.map fun c => c.missed.length) =
      (cs.map fun c => c.missed.map f).map List.length := by simp
  have htensor := tensor_writesFrom ((cs.flatMap PartCells.missed).map f)
  rw [List.length_map] at htensor
  rw [resultOffsets, drop_rowOffsets, hlens, ← List.append_nil (List.map _ _),
    segments_offsetsFrom_length, Option.bind_some, map_sub_writesFrom, sub_self,
    ← List.flatMap_def, flatMap_missed_map, htensor]

lemma take_resultOffsets : (resultOffsets cs).take (cs.length + 1) =
    offsetsFrom 0 (cs.map fun c => c.found.length) :=
  take_rowOffsets _ _ cs

lemma drop_resultOffsets : (resultOffsets cs).drop cs.length =
    offsetsFrom (cs.flatMap PartCells.found).length (cs.map fun c => c.missed.length) :=
  drop_rowOffsets _ _ cs

/-- The scan is exact as long as there are fewer than `2^31` cells. -/
lemma scanInt32_eq_resultOffsets (h : (allCells cs).length < 2 ^ 31) :
    scanInt32 0 ((cs.map fun c => c.found.length) ++ cs.map fun c => c.missed.length) =
      resultOffsets cs := by
  rw [length_allCells] at h
  exact scanInt32_eq le_rfl (by omega)

end Rows

section Slices

variable {cs : List PartCells} {p : ℕ} {c : PartCells} {α : Type} (f : BatchCell → α)

lemma take_allCells : ((allCells cs).map f).take (cs.flatMap PartCells.found).length =
      (cs.flatMap PartCells.found).map f := by
  rw [← List.length_map f, allCells, List.map_append, List.take_left]

lemma drop_allCells : ((allCells cs).map f).drop (cs.flatMap PartCells.found).length =
      (cs.flatMap PartCells.missed).map f := by
  rw [← List.length_map f, allCells, List.map_append, List.drop_left]

lemma nthSlice_found (hc : cs[p]? = some c) (f : BatchCell → α) :
    nthSlice ((cs.flatMap PartCells.found).map f) (offsetsFrom 0 (cs.map fun c => c.found.length))
      p = c.found.map f := by
  have hlens : (cs.map fun c => c.found.length) = (cs.map PartCells.found).map List.length := by
    simp
  rw [nthSlice_map, hlens, List.flatMap_def, nthSlice_flatten]
  rw [List.getElem?_map, hc, Option.map_some]

lemma nthSlice_missed (hc : cs[p]? = some c) (f : BatchCell → α) :
    nthSlice ((cs.flatMap PartCells.missed).map f)
      (offsetsFrom 0 (cs.map fun c => c.missed.length)) p = c.missed.map f := by
  have hlens : (cs.map fun c => c.missed.length) = (cs.map PartCells.missed).map List.length := by
    simp
  rw [nthSlice_map, hlens, List.flatMap_def, nthSlice_flatten]
  rw [List.getElem?_map, hc, Option.map_some]

end Slices

section Assemble

variable (s) (r : PartitionResult) (ls : List Trace)

/-- What a policy's result is, in terms of the cells of the batch. -/
lemma map_cells_labelled {α : Type} (f : List BatchCell → List BatchCell → α) :
    (s.cells (labelled r ls)).map (fun c => f c.found c.missed) = ls.mapIdx fun p l =>
      f (l.found.map (BatchCell.shift (s.positionOffset p) ∘ BatchCell.reindex (batchIndex r p)))
        (l.missed.reverse.map
          (BatchCell.shift (s.positionOffset p) ∘ BatchCell.reindex (batchIndex r p))) := by
  refine List.ext_getElem (by simp [cells, labelled]) fun p h1 h2 => ?_
  simp [cells, labelled]

lemma length_cells_labelled : (s.cells (labelled r ls)).length = ls.length := by
  simp [cells, labelled]

lemma rows_index : rows BatchCell.index (s.cells (labelled r ls)) =
    outputIndices r (ls.map fun l => (l.found ++ l.missed.reverse).map BatchCell.index) := by
  rw [rows, map_cells_labelled s r ls fun x y => x.map BatchCell.index ++ y.map BatchCell.index,
    outputIndices]
  refine List.ext_getElem (by simp) fun p h1 h2 => ?_
  simp [BatchCell.shift, BatchCell.reindex, batchIndex, Function.comp_def]

lemma rows_position : rows BatchCell.position (s.cells (labelled r ls)) =
    s.addPositionOffsets
      (ls.map fun l => (l.found ++ l.missed.reverse).map BatchCell.position) := by
  rw [rows, map_cells_labelled s r ls fun x y => x.map BatchCell.position ++
    y.map BatchCell.position, addPositionOffsets]
  refine List.ext_getElem (by simp) fun p h1 h2 => ?_
  simp [BatchCell.shift, BatchCell.reindex, Function.comp_def]

lemma rows_pointer : rows BatchCell.pointer (s.cells (labelled r ls)) =
    ls.map fun l => (l.found ++ l.missed.reverse).map BatchCell.pointer := by
  rw [rows, map_cells_labelled s r ls fun x y => x.map BatchCell.pointer ++
    y.map BatchCell.pointer]
  refine List.ext_getElem (by simp) fun p h1 h2 => ?_
  simp [BatchCell.shift, BatchCell.reindex, Function.comp_def]

lemma missed_key : (s.cells (labelled r ls)).map (fun c => c.missed.map BatchCell.key) =
    ls.map fun l => l.missed.reverse.map BatchCell.key := by
  rw [map_cells_labelled s r ls fun _ y => y.map BatchCell.key]
  refine List.ext_getElem (by simp) fun p h1 h2 => ?_
  simp [BatchCell.shift, BatchCell.reindex, Function.comp_def]

lemma found_position : (s.cells (labelled r ls)).map (fun c => c.found.map BatchCell.position) =
    s.addPositionOffsets (ls.map fun l => l.found.map BatchCell.position) := by
  rw [map_cells_labelled s r ls fun x _ => x.map BatchCell.position, addPositionOffsets]
  refine List.ext_getElem (by simp) fun p h1 h2 => ?_
  simp [BatchCell.shift, BatchCell.reindex, Function.comp_def]

lemma found_pointer : (s.cells (labelled r ls)).map (fun c => c.found.map BatchCell.pointer) =
    ls.map fun l => l.found.map BatchCell.pointer := by
  rw [map_cells_labelled s r ls fun x _ => x.map BatchCell.pointer]
  refine List.ext_getElem (by simp) fun p h1 h2 => ?_
  simp [BatchCell.shift, BatchCell.reindex, Function.comp_def]

variable {r}

lemma found_length : (s.cells ls).map (fun c => c.found.length) =
    ls.map fun l => l.found.length :=
  List.ext_getElem (by simp [cells]) fun p h1 h2 => by simp [cells]

lemma missed_length : (s.cells ls).map (fun c => c.missed.length) =
    ls.map fun l => l.missed.length :=
  List.ext_getElem (by simp [cells]) fun p h1 h2 => by simp [cells]

lemma length_found_labelled : (labelled r ls).map (fun l => l.found.length) =
    ls.map fun l => l.found.length :=
  List.ext_getElem (by simp [labelled]) fun p h1 h2 => by simp [labelled]

lemma length_missed_labelled : (labelled r ls).map (fun l => l.missed.length) =
    ls.map fun l => l.missed.length :=
  List.ext_getElem (by simp [labelled]) fun p h1 h2 => by simp [labelled]

lemma length_allCells_cells : (allCells (s.cells ls)).length = (ls.map List.length).sum := by
  rw [length_allCells, found_length, missed_length, List.sum_append]
  induction ls with
  | nil => rfl
  | cons l ls ih =>
      have := Trace.length_found_add_length_missed l
      simp only [List.map_cons, List.sum_cons] at ih ⊢
      omega

variable {ls}

/-- The scan of `Query` and of `QueryAndReplace` is exact for less than `2^31` keys. -/
lemma scan_eq (hlen : (allCells (s.cells (labelled r ls))).length = len) (hlt : len < 2 ^ 31) :
    scanInt32 0 ((ls.map fun l => l.found.length) ++ ls.map fun l => l.missed.length) =
      resultOffsets (s.cells (labelled r ls)) := by
  rw [← scanInt32_eq_resultOffsets _ (hlen ▸ hlt), found_length, missed_length,
    length_found_labelled, length_missed_labelled]

variable (hls : ls.length = s.numParts) {len : ℕ}
  (hlen : (allCells (s.cells (labelled r ls))).length = len)

include hls hlen

/-- **The tensors of `Query`**, for less than `2^31` keys. -/
theorem assembleQuery_eq (hlt : len < 2 ^ 31) :
    s.assembleQuery r (ls.map Trace.queryResult) len =
      some (queryTensors (s.cells (labelled r ls))) := by
  have hcs : (s.cells (labelled r ls)).length = s.numParts := by
    rw [length_cells_labelled, hls]
  have hmissed : (len : ℤ) - ((s.cells (labelled r ls)).flatMap PartCells.found).length =
      ((s.cells (labelled r ls)).flatMap PartCells.missed).length := by
    rw [← hlen, allCells, List.length_append]
    push_cast
    ring
  obtain ⟨ws₁, hws₁, hrest⟩ := Option.bind_eq_some_iff.1 (tensor_rows_eq BatchCell.index _ hlen)
  obtain ⟨ws₂, hws₂, hindices⟩ := Option.bind_eq_some_iff.1 hrest
  have hpositions := tensor_found_eq BatchCell.position (s.cells (labelled r ls))
  have hpointers := tensor_found_eq BatchCell.pointer (s.cells (labelled r ls))
  obtain ⟨ws, hws, hkeys⟩ :=
    Option.bind_eq_some_iff.1 (tensor_missed_eq BatchCell.key (s.cells (labelled r ls)))
  have htake := take_resultOffsets (s.cells (labelled r ls))
  have hdrop := drop_resultOffsets (s.cells (labelled r ls))
  rw [hcs] at htake hdrop
  rw [rows_index] at hws₁
  rw [rows_index, hcs, hdrop] at hws₂
  rw [found_position] at hpositions
  rw [found_pointer] at hpointers
  rw [missed_key, hcs, hdrop] at hws
  have hresult : (((ls.map Trace.queryResult).map fun r => r.positions.length) ++
      (ls.map Trace.queryResult).map fun r => r.missingKeys.length) =
        (ls.map fun l => l.found.length) ++ ls.map fun l => l.missed.length := by
    simp [Trace.queryResult, Function.comp_def]
  have hpos : (ls.map Trace.queryResult).map QueryResult.positions =
      ls.map fun l => l.found.map BatchCell.position := by simp [Trace.queryResult]
  have hidx : (ls.map Trace.queryResult).map QueryResult.indices =
      ls.map fun l => (l.found ++ l.missed.reverse).map BatchCell.index := by
    simp [Trace.queryResult]
  have hmiss : (ls.map Trace.queryResult).map QueryResult.missingKeys =
      ls.map fun l => l.missed.reverse.map BatchCell.key := by simp [Trace.queryResult]
  have hptr : (ls.map Trace.queryResult).map QueryResult.foundPtrs =
      ls.map fun l => l.found.map BatchCell.pointer := by simp [Trace.queryResult]
  simp only [assembleQuery, hresult, scan_eq s hlen hlt, hpos, hidx, hmiss, hptr, hdrop, htake,
    headD_offsetsFrom, hmissed, Option.bind_eq_bind]
  rw [hpositions, Option.bind_some, hws₁, Option.bind_some, hws₂, Option.bind_some, hindices,
    Option.bind_some, hws, Option.bind_some, hkeys, Option.bind_some, hpointers, Option.bind_some,
    rebase_offsetsFrom]
  rfl

/-- **The tensors of `QueryAndReplace`**, for less than `2^31` keys. -/
theorem assembleQueryAndReplace_eq
    (hslice : ∀ p l, ls[p]? = some l → (permutedSlice r p).length = l.length)
    (hlt : len < 2 ^ 31) :
    s.assembleQueryAndReplace r (ls.map Trace.queryAndReplaceResult) len =
      some (queryAndReplaceTensors (s.cells (labelled r ls))) := by
  have hcs : (s.cells (labelled r ls)).length = s.numParts := by
    rw [length_cells_labelled, hls]
  have hmissed : (((s.cells (labelled r ls)).map fun c => c.missed.length).sum : ℕ) =
      ((s.cells (labelled r ls)).flatMap PartCells.missed).length := by
    rw [List.length_flatMap]
  obtain ⟨ws₁, hws₁, hrest⟩ := Option.bind_eq_some_iff.1 (tensor_rows_eq BatchCell.index _ hlen)
  obtain ⟨ws₂, hws₂, hindices⟩ := Option.bind_eq_some_iff.1 hrest
  obtain ⟨vs₁, hvs₁, hrest⟩ := Option.bind_eq_some_iff.1 (tensor_rows_eq BatchCell.position _ hlen)
  obtain ⟨vs₂, hvs₂, hpositions⟩ := Option.bind_eq_some_iff.1 hrest
  obtain ⟨us₁, hus₁, hrest⟩ := Option.bind_eq_some_iff.1 (tensor_rows_eq BatchCell.pointer _ hlen)
  obtain ⟨us₂, hus₂, hpointers⟩ := Option.bind_eq_some_iff.1 hrest
  obtain ⟨ws, hws, hkeys⟩ :=
    Option.bind_eq_some_iff.1 (tensor_missed_eq BatchCell.key (s.cells (labelled r ls)))
  have htake := take_resultOffsets (s.cells (labelled r ls))
  have hdrop := drop_resultOffsets (s.cells (labelled r ls))
  rw [hcs] at htake hdrop
  rw [rows_index] at hws₁
  rw [rows_index, hcs, hdrop] at hws₂
  rw [rows_position] at hvs₁
  rw [rows_position, hcs, hdrop] at hvs₂
  rw [rows_pointer] at hus₁
  rw [rows_pointer, hcs, hdrop] at hus₂
  rw [missed_key, hcs, hdrop] at hws
  have hfound : ((ls.map Trace.queryAndReplaceResult).mapIdx fun i r' =>
      (permutedSlice r i).length - r'.missingKeys.length) = ls.map fun l => l.found.length := by
    refine List.ext_getElem (by simp) fun p h1 h2 => ?_
    have hp : p < ls.length := by simpa using h1
    have hsum := Trace.length_found_add_length_missed ls[p]
    have := hslice p _ (List.getElem?_eq_getElem hp)
    simp only [List.getElem_mapIdx, List.getElem_map, Trace.queryAndReplaceResult,
      List.length_map, List.length_reverse]
    omega
  have hcount : ((ls.map Trace.queryAndReplaceResult).map fun r => r.missingKeys.length) =
      ls.map fun l => l.missed.length := by simp [Trace.queryAndReplaceResult, Function.comp_def]
  have hpos : (ls.map Trace.queryAndReplaceResult).map QueryAndReplaceResult.positions =
      ls.map fun l => (l.found ++ l.missed.reverse).map BatchCell.position := by
    simp [Trace.queryAndReplaceResult]
  have hidx : (ls.map Trace.queryAndReplaceResult).map QueryAndReplaceResult.indices =
      ls.map fun l => (l.found ++ l.missed.reverse).map BatchCell.index := by
    simp [Trace.queryAndReplaceResult]
  have hptr : (ls.map Trace.queryAndReplaceResult).map QueryAndReplaceResult.pointers =
      ls.map fun l => (l.found ++ l.missed.reverse).map BatchCell.pointer := by
    simp [Trace.queryAndReplaceResult]
  have hmiss : (ls.map Trace.queryAndReplaceResult).map QueryAndReplaceResult.missingKeys =
      ls.map fun l => l.missed.reverse.map BatchCell.key := by simp [Trace.queryAndReplaceResult]
  simp only [assembleQueryAndReplace, hfound, hcount, scan_eq s hlen hlt, hpos, hidx, hptr, hmiss,
    hdrop, htake, headD_offsetsFrom, getLastD_offsetsFrom, add_sub_cancel_left, hmissed,
    Option.bind_eq_bind]
  rw [hws₁, Option.bind_some, hws₂, Option.bind_some, hindices, Option.bind_some, hvs₁,
    Option.bind_some, hvs₂, Option.bind_some, hpositions, Option.bind_some, hus₁, Option.bind_some,
    hus₂, Option.bind_some, hpointers, Option.bind_some, hws, Option.bind_some, hkeys,
    Option.bind_some, rebase_offsetsFrom]
  rfl

end Assemble

section Replaced

variable (s : PartitionedCachePolicy kind) (r : PartitionResult) (ls : List Trace)

lemma replaced_position : (s.replacedCells (labelled r ls)).map
      (fun cs => cs.map BatchCell.position) =
    s.addPositionOffsets ((ls.map Trace.replaceResult).map ReplaceResult.positions) := by
  refine List.ext_getElem (by simp [addPositionOffsets, replacedCells, labelled]) fun p h1 h2 => ?_
  simp [addPositionOffsets, replacedCells, labelled, Trace.replaceResult_eq, BatchCell.shift,
    BatchCell.reindex, Function.comp_def]

lemma replaced_pointer : (s.replacedCells (labelled r ls)).map
      (fun cs => cs.map BatchCell.pointer) =
    (ls.map Trace.replaceResult).map ReplaceResult.pointers := by
  refine List.ext_getElem (by simp [replacedCells, labelled]) fun p h1 h2 => ?_
  simp [replacedCells, labelled, Trace.replaceResult_eq, BatchCell.shift, BatchCell.reindex,
    Function.comp_def]

lemma replaced_length : (s.replacedCells ls).map List.length = ls.map List.length :=
  List.ext_getElem (by simp [replacedCells]) fun p h1 h2 => by
    simp [replacedCells, Trace.replaced]

/-- **Positions in the order of the keys.**  The positions that the policies returned are written
to the indices of their cells. -/
theorem tensor_positions {cells : List BatchCell} {indices : List ℕ}
    (hindices : cells.map BatchCell.index = indices) (hperm : indices.Perm (List.range len)) :
    ∃ positions, tensor len ((writesFrom 0 (cells.map BatchCell.position)).map fun w =>
        (((indices.getD w.1.toNat 0 : ℕ) : ℤ), w.2)) = some positions ∧
      positions.length = len ∧ ∀ c ∈ cells, positions[c.index]? = some c.position := by
  obtain ⟨positions, hpos, hlen, hget⟩ := tensor_scatter
    (cells.map fun c => (c.index, c.position)) len (by
      rw [List.map_map]
      exact hindices ▸ hperm)
  refine ⟨positions, ?_, hlen, fun c hc => hget _ (List.mem_map_of_mem hc)⟩
  rw [← hpos, List.map_map]
  congr 1
  refine List.ext_getElem (by simp) fun j h1 h2 => ?_
  have hj : j < indices.length := by
    rw [← hindices]
    simpa using h2
  have hcell : j < cells.length := by simpa using h2
  have hidx : indices[j] = cells[j].index := by
    simp only [← hindices, List.getElem_map]
  have hmap : j < (cells.map BatchCell.position).length := by rwa [List.length_map]
  simp only [List.getElem_map, getElem_writesFrom _ _ hmap, zero_add, Int.toNat_natCast,
    List.getD_eq_getElem _ _ hj, hidx, Function.comp_apply]

end Replaced

/-- With `2^31` keys or more, `Query` leaves cells of its tensors unwritten. -/
theorem assembleQuery_eq_none (s : PartitionedCachePolicy kind) (r : PartitionResult)
    (results : List QueryResult) (hlen : 2 ^ 31 ≤ len) : s.assembleQuery r results len = none := by
  by_contra hne
  obtain ⟨out, hout⟩ := Option.ne_none_iff_exists'.1 hne
  simp only [assembleQuery, Option.bind_eq_bind] at hout
  obtain ⟨positions, -, hout⟩ := Option.bind_eq_some_iff.1 hout
  obtain ⟨ws₁, h₁, hout⟩ := Option.bind_eq_some_iff.1 hout
  obtain ⟨ws₂, h₂, hout⟩ := Option.bind_eq_some_iff.1 hout
  obtain ⟨indices, hindices, -⟩ := Option.bind_eq_some_iff.1 hout
  rw [tensor_scanInt32_eq_none h₁ h₂ hlen] at hindices
  simp at hindices

theorem assembleQueryAndReplace_eq_none (s : PartitionedCachePolicy kind) (r : PartitionResult)
    (results : List QueryAndReplaceResult) (hlen : 2 ^ 31 ≤ len) :
    s.assembleQueryAndReplace r results len = none := by
  by_contra hne
  obtain ⟨out, hout⟩ := Option.ne_none_iff_exists'.1 hne
  simp only [assembleQueryAndReplace, Option.bind_eq_bind] at hout
  obtain ⟨ws₁, h₁, hout⟩ := Option.bind_eq_some_iff.1 hout
  obtain ⟨ws₂, h₂, hout⟩ := Option.bind_eq_some_iff.1 hout
  obtain ⟨indices, hindices, -⟩ := Option.bind_eq_some_iff.1 hout
  rw [tensor_scanInt32_eq_none h₁ h₂ hlen] at hindices
  simp at hindices

end PartitionedCachePolicy

end DglAscend.Graphbolt
