import DglAscend.Graphbolt.Cache.PartitionedRun

/-!
# The format of the results

`Partition` groups the keys of a batch; `Query` and `QueryAndReplace` return, policy by policy,
what the policies found and then what they missed; `Replace` returns the positions in the order
of the keys.  The offsets of the results are scanned in an accumulator of type `int`, so the
format is kept exactly if there is one policy or fewer than `2^31` keys.
-/

namespace DglAscend.Graphbolt

open PolicyQueues

namespace PartitionedCachePolicy

variable {kind : PolicyKind} {s s' : PartitionedCachePolicy kind}

/-! ## Partitions -/

/-- The keys of partition `p`, in the order of the batch. -/
def partKeys (assign : PartAssignment) (n : ℕ) (keys : List ℤ) (p : ℕ) : List ℤ :=
  keys.filter fun k => assign.draw n k = p

/-- What `Partition` is documented to return. -/
structure Grouped (assign : PartAssignment) (n : ℕ) (keys : List ℤ) (r : PartitionResult) :
    Prop where
  perm : r.indices.Perm (List.range keys.length)
  keys_eq : r.permutedKeys = r.indices.map fun i => keys.getD i 0
  length_offsets : r.offsets.length = n + 1
  keys_part : ∀ p < n, nthSlice r.permutedKeys r.offsets p = partKeys assign n keys p
  indices_part : ∀ p < n, nthSlice r.indices r.offsets p = partIndices assign n keys p

variable (assign : PartAssignment)

lemma map_partIndices (n : ℕ) (keys : List ℤ) (p : ℕ) :
    ((partIndices assign n keys p).map fun i => keys.getD i 0) = partKeys assign n keys p := by
  have hkeys : ((List.range keys.length).map fun i => keys.getD i 0) = keys := by
    rw [← map_fst_keysAt, keysAt_range, List.zipIdx_map_fst]
  conv_rhs => rw [partKeys, ← hkeys, List.filter_map]
  rfl

variable {n p : ℕ}

lemma partGroups_getElem? (hp : p < n) (keys : List ℤ) :
    (partGroups assign n keys)[p]? = some (partIndices assign n keys p) := by
  rw [partGroups, List.getElem?_map, List.getElem?_range hp, Option.map_some]

lemma permutedSlice_partGroups (hp : p < n) (keys : List ℤ) :
    permutedSlice (.ofGroups keys (partGroups assign n keys)) p = partKeys assign n keys p := by
  rw [permutedSlice_ofGroups keys (partGroups_getElem? assign hp keys), map_fst_keysAt,
    map_partIndices]

/-- **`Partition` groups the keys** of every batch. -/
theorem partition_grouped (hn : 0 < n) (keys : List ℤ) :
    ∃ r, partition assign n keys = some r ∧ Grouped assign n keys r := by
  refine ⟨_, partition_eq_ofGroups assign hn keys, flatten_partGroups_perm assign hn keys, rfl, ?_,
    fun p hp => permutedSlice_partGroups assign hp keys, fun p hp => ?_⟩
  · simp [PartitionResult.ofGroups, length_partGroups]
  · exact nthSlice_flatten (partGroups_getElem? assign hp keys)

/-! ## Positions -/

/-- The position `x` is the slot of the key at the index `i`, behind the shares of the policies
before its own. -/
def Resident (s : PartitionedCachePolicy kind) (ks : List ℤ) (groups : List (List ℕ)) (i : ℕ)
    (x : ℤ) : Prop :=
  ∃ p g t c, groups[p]? = some g ∧ i ∈ g ∧ s.policies[p]? = some t ∧ c ∈ entries t.queues ∧
    c.getKey = ks.getD i 0 ∧ x = c.getPos + s.positionOffset p

/-- The positions of the resident keys of all policies are distinct and lie in the storage. -/
structure PositionsDistinct (s : PartitionedCachePolicy kind) : Prop where
  range : ∀ p t, s.policies[p]? = some t → ∀ c ∈ entries t.queues,
    0 ≤ c.getPos + s.positionOffset p ∧ c.getPos + s.positionOffset p < s.capacity
  distinct : ∀ p t q u, s.policies[p]? = some t → s.policies[q]? = some u →
    ∀ c ∈ entries t.queues, ∀ d ∈ entries u.queues,
      c.getPos + s.positionOffset p = d.getPos + s.positionOffset q →
        p = q ∧ c.getKey = d.getKey

theorem Inv.positionsDistinct (hs : s.Inv) : s.PositionsDistinct where
  range := fun p t ht c hc =>
    hs.position_lt_capacity ht (CachePolicy.mem_resident.2 ⟨c, hc, rfl⟩)
  distinct := fun p t q u ht hu c hc d hd heq => by
    obtain ⟨hpq, hent⟩ := hs.position_inj ht hu (CachePolicy.mem_resident.2 ⟨c, hc, rfl⟩)
      (CachePolicy.mem_resident.2 ⟨d, hd, rfl⟩) heq
    exact ⟨hpq, congrArg SlotEntry.key hent⟩

section Looked

variable {ks : List ℤ} {groups : List (List ℕ)} {ls : List Trace}

/-- A position that a lookup returned and that is not negative is that of its key. -/
lemma LookedAll.resident (hs : s.Inv) (h : s.LookedAll ks groups ls s') {l : Trace}
    (hl : ls[p]? = some l) {x : (ℤ × ℕ) × Access} (hx : x ∈ l) {pos : ℤ}
    (hpos : x.2.slot? = some pos ∨ pos = int64Min) (h0 : 0 ≤ pos + s.positionOffset p) :
    s'.Resident ks groups x.1.2 (pos + s.positionOffset p) := by
  have hp : p < s.numParts := h.length_traces ▸ (List.getElem?_eq_some_iff.1 hl).1
  obtain ⟨g, t', hg, ht', hall⟩ := h.leaves hs hl
  obtain ⟨hi, hkey, hleaves⟩ := hall x hx
  have hslot : x.2.slot? = some pos := by
    refine hpos.resolve_right fun hmin => ?_
    have := positionOffset_lt hs hp
    rw [hmin, int64Min] at h0
    omega
  obtain ⟨e, he, hek, hes⟩ := Directory.Leaves.exists_entry hleaves hslot
  obtain ⟨c, hc, rfl⟩ := CachePolicy.mem_resident.1 he
  have hoff : s'.positionOffset p = s.positionOffset p := by
    unfold positionOffset
    rw [h.capacity_eq, h.numParts_eq]
  exact ⟨p, g, t', c, hg, hi, ht', hc, hek.trans hkey, by rw [hoff, ← hes]; rfl⟩

end Looked

/-! ## The indices -/

/-- The format of the indices: a permutation, whose first `found` elements are those of the found
keys and whose others are those of the missing keys; the offsets delimit what each policy found
and missed, which `foundOf` and `missedOf` list in terms of its own keys. -/
structure IndexFormat (assign : PartAssignment) (n : ℕ) (keys ks : List ℤ) (indices : List ℕ)
    (missingKeys foundOffsets missingOffsets : List ℤ) (found : ℕ)
    (foundOf missedOf : List (List ℕ)) : Prop where
  perm : indices.Perm (List.range keys.length)
  missing_eq : missingKeys = (indices.drop found).map fun i => keys.getD i 0
  length_foundOffsets : foundOffsets.length = n + 1
  length_missingOffsets : missingOffsets.length = n + 1
  found_part : ∀ p js, foundOf[p]? = some js → nthSlice (indices.take found) foundOffsets p =
    js.map fun j => (partIndices assign n ks p).getD j 0
  missed_part : ∀ p js, missedOf[p]? = some js →
    nthSlice (indices.drop found) missingOffsets p =
      js.map fun j => (partIndices assign n ks p).getD j 0

section Format

variable {assign : PartAssignment} {ks : List ℤ} {ls : List Trace}

/-- The cells of a policy whose own trace is `l`. -/
lemma cells_labelled_getElem? (r : PartitionResult) {l : Trace} (hl : ls[p]? = some l) :
    (s.cells (labelled r ls))[p]? = some
      ⟨l.found.map (BatchCell.shift (s.positionOffset p) ∘ BatchCell.reindex (batchIndex r p)),
        l.missed.reverse.map
          (BatchCell.shift (s.positionOffset p) ∘ BatchCell.reindex (batchIndex r p))⟩ := by
  simp [cells, labelled, List.getElem?_mapIdx, hl]

/-- The indices of a policy, in terms of its own keys. -/
lemma batchIndex_eq
    (h : s.LookedAll ks (partGroups assign s.numParts ks)
      (labelled (.ofGroups ks (partGroups assign s.numParts ks)) ls) s')
    (hidx : ∀ l ∈ ls, ∀ x ∈ l, x.1.2 < l.length) {l : Trace} (hl : ls[p]? = some l)
    {x : (ℤ × ℕ) × Access} (hx : x ∈ l) :
    batchIndex (.ofGroups ks (partGroups assign s.numParts ks)) p x.1.2 =
      (partIndices assign s.numParts ks p).getD x.1.2 0 := by
  have hp : p < s.numParts := by
    rw [← h.length_traces, labelled, List.length_mapIdx]
    exact (List.getElem?_eq_some_iff.1 hl).1
  have hg := partGroups_getElem? assign hp ks
  have hl' : (labelled (.ofGroups ks (partGroups assign s.numParts ks)) ls)[p]? =
      some (l.relabel (batchIndex (.ofGroups ks (partGroups assign s.numParts ks)) p)) := by
    rw [labelled, List.getElem?_mapIdx, hl, Option.map_some]
  have hlen := congrArg List.length (h.keys_eq hg hl')
  simp only [Trace.relabel, keysAt, List.length_map] at hlen
  have hlt : x.1.2 < (partIndices assign s.numParts ks p).length :=
    hlen ▸ hidx l (List.mem_of_getElem? hl) x hx
  rw [batchIndex, indices_ofGroups ks hg hlt, List.getD_eq_getElem _ _ hlt]

/-- **The indices are in the documented format.** -/
theorem indexFormat_of_looked (hs : s.Inv) {keys : List ℤ} (hlen : ks.length = keys.length)
    (h : s.LookedAll ks (partGroups assign s.numParts ks)
      (labelled (.ofGroups ks (partGroups assign s.numParts ks)) ls) s')
    (hidx : ∀ l ∈ ls, ∀ x ∈ l, x.1.2 < l.length) {cs : List PartCells}
    (hcs : cs = s.cells (labelled (.ofGroups ks (partGroups assign s.numParts ks)) ls)) :
    IndexFormat assign s.numParts keys ks ((allCells cs).map BatchCell.index)
      ((cs.flatMap PartCells.missed).map fun c => keys.getD c.index 0)
      (offsetsFrom 0 (cs.map fun c => c.found.length))
      (offsetsFrom 0 (cs.map fun c => c.missed.length)) (cs.flatMap PartCells.found).length
      (ls.map fun l => l.found.map BatchCell.index)
      (ls.map fun l => l.missed.reverse.map BatchCell.index) := by
  subst hcs
  have hcells : (s.cells (labelled (.ofGroups ks (partGroups assign s.numParts ks)) ls)).length =
      s.numParts := by
    rw [length_cells_labelled, ← h.length_traces, labelled, List.length_mapIdx]
  refine ⟨?_, ?_, by simp [hcells], by simp [hcells], fun p js hjs => ?_, fun p js hjs => ?_⟩
  · rw [← hlen]
    exact h.indices_perm.trans (flatten_partGroups_perm assign hs.numParts_pos ks)
  · rw [drop_allCells, List.map_map]
    rfl
  · obtain ⟨l, hl, rfl⟩ := Option.map_eq_some_iff.1 (List.getElem?_map .. ▸ hjs)
    rw [take_allCells, nthSlice_found (cells_labelled_getElem? _ hl), List.map_map, List.map_map]
    refine List.map_congr_left fun c hc => ?_
    obtain ⟨x, hx, rfl⟩ := List.mem_map.1 hc
    exact batchIndex_eq h hidx hl (List.mem_of_mem_filter hx)
  · obtain ⟨l, hl, rfl⟩ := Option.map_eq_some_iff.1 (List.getElem?_map .. ▸ hjs)
    rw [drop_allCells, nthSlice_missed (cells_labelled_getElem? _ hl), List.map_map, List.map_map]
    refine List.map_congr_left fun c hc => ?_
    obtain ⟨x, hx, rfl⟩ := List.mem_map.1 (List.mem_reverse.1 hc)
    exact batchIndex_eq h hidx hl (List.mem_of_mem_filter hx)

/-- A cell with a position that is not negative is resident. -/
lemma LookedAll.resident_of_cell {groups : List (List ℕ)} (hs : s.Inv)
    (h : s.LookedAll ks groups ls s') {c : BatchCell} (hc : c ∈ allCells (s.cells ls))
    (h0 : 0 ≤ c.position) : s'.Resident ks groups c.index c.position := by
  have hcell (p : ℕ) (l : Trace) (hl : ls[p]? = some l) (x : (ℤ × ℕ) × Access) (hx : x ∈ l)
      (hcx : c = BatchCell.shift (s.positionOffset p) (cellOf x)) :
      s'.Resident ks groups c.index c.position := by
    obtain ⟨k, a⟩ := x
    subst hcx
    refine h.resident hs hl hx ?_ h0
    cases a with
    | hit a q => exact Or.inl rfl
    | busy => exact Or.inr rfl
    | absent => exact Or.inr rfl
    | admitted a q => exact Or.inl rfl
  simp only [allCells, cells, List.mem_append, List.mem_flatMap, List.mem_mapIdx] at hc
  rcases hc with ⟨_, ⟨p, hp, rfl⟩, hc⟩ | ⟨_, ⟨p, hp, rfl⟩, hc⟩
  · obtain ⟨c₀, hc₀, rfl⟩ := List.mem_map.1 hc
    obtain ⟨x, hx, rfl⟩ := List.mem_map.1 hc₀
    exact hcell p _ (List.getElem?_eq_getElem hp) x (List.mem_of_mem_filter hx) rfl
  · obtain ⟨c₀, hc₀, rfl⟩ := List.mem_map.1 hc
    obtain ⟨x, hx, rfl⟩ := List.mem_map.1 (List.mem_reverse.1 hc₀)
    exact hcell p _ (List.getElem?_eq_getElem hp) x (List.mem_of_mem_filter hx) rfl

lemma LookedAll.resident_of_replaced {groups : List (List ℕ)} (hs : s.Inv)
    (h : s.LookedAll ks groups ls s') {c : BatchCell} (hc : c ∈ (s.replacedCells ls).flatten)
    (h0 : 0 ≤ c.position) : s'.Resident ks groups c.index c.position := by
  obtain ⟨_, hcs, hc⟩ := List.mem_flatten.1 hc
  obtain ⟨p, hp, rfl⟩ := List.mem_mapIdx.1 hcs
  obtain ⟨c₀, hc₀, rfl⟩ := List.mem_map.1 hc
  obtain ⟨x, hx, rfl⟩ := List.mem_map.1 hc₀
  obtain ⟨k, a⟩ := x
  refine h.resident hs (List.getElem?_eq_getElem hp) hx ?_ h0
  cases a with
  | hit a q => exact Or.inr rfl
  | busy => exact Or.inr rfl
  | absent => exact Or.inr rfl
  | admitted a q => exact Or.inl rfl

end Format

/-! ## `Query` -/

/-- The format of the result `r` of `Query`, for the results of the policies. -/
structure QueryFormat (assign : PartAssignment) (s : PartitionedCachePolicy kind)
    (keys ks : List ℤ) (s' : PartitionedCachePolicy kind) (results : List QueryResult)
    (r : PartitionedQueryResult) : Prop where
  calls : s.onPolicies (fun p => CachePolicy.queryImpl (partKeys assign s.numParts ks p)) =
    .ok results s'
  index : IndexFormat assign s.numParts keys ks r.indices r.missingKeys r.foundOffsets
    r.missingOffsets r.positions.length
    (results.map fun q => q.indices.take q.positions.length)
    (results.map fun q => q.indices.drop q.positions.length)
  positions_part : ∀ p q, results[p]? = some q →
    nthSlice r.positions r.foundOffsets p = q.positions.map (· + s.positionOffset p)
  pointers_part : ∀ p q, results[p]? = some q →
    nthSlice r.foundPointers r.foundOffsets p = q.foundPtrs
  resident : ∀ (j : ℕ) i x, r.indices[j]? = some i → r.positions[j]? = some x → 0 ≤ x →
    s'.Resident ks (partGroups assign s.numParts ks) i x
  distinct : s'.PositionsDistinct

section Query

variable {assign : PartAssignment} {keys : KeyTensor} {offset : ℤ} {ks : List ℤ}

/-- The policies are given the keys of their partitions. -/
lemma onPolicies_partKeys {β : Type} (impl : List ℤ → CachePolicy kind.Queues →
      Outcome CacheError (CachePolicy kind.Queues) β) :
    s.onPolicies (fun p => impl (permutedSlice (.ofGroups ks (partGroups assign s.numParts ks)) p)) =
      s.onPolicies fun p => impl (partKeys assign s.numParts ks p) :=
  onPolicies_congr fun p hp => by rw [permutedSlice_partGroups assign hp ks]

/-- **`Query` keeps its format**, for less than `2^31` keys or one policy. -/
theorem query_format (hs : s.Inv) (hadd : addOffset keys.ty keys.keys offset = .ok ks)
    {results : List QueryResult}
    (hrun : s.onPolicies (fun p => CachePolicy.queryImpl (partKeys assign s.numParts ks p)) =
      .ok results s') (hsmall : s.numParts = 1 ∨ ks.length < 2 ^ 31) :
    ∃ r, s.query assign keys offset = .ok r s' ∧
      s.QueryFormat assign keys.keys ks s' results r := by
  have hrun' := hrun
  rw [← onPolicies_partKeys CachePolicy.queryImpl] at hrun'
  obtain ⟨ls₀, ls, rfl, rfl, hidx, hlook, -, heq⟩ := query_of_policies hs hadd hrun' hsmall
  have hformat := indexFormat_of_looked hs (length_addOffset hadd) hlook hidx rfl
  refine ⟨_, heq, hrun, ?_, fun p q hq => ?_, fun p q hq => ?_, fun j i x hi hx h0 => ?_,
    (hlook.inv hs).positionsDistinct⟩
  · have hfound : ((ls₀.map Trace.queryResult).map fun q => q.indices.take q.positions.length) =
        ls₀.map fun l => l.found.map BatchCell.index := by
      simp [Trace.queryResult, Function.comp_def]
    have hmissed : ((ls₀.map Trace.queryResult).map fun q => q.indices.drop q.positions.length) =
        ls₀.map fun l => l.missed.reverse.map BatchCell.index := by
      simp [Trace.queryResult, Function.comp_def]
    rw [hfound, hmissed]
    simpa [queryTensors] using hformat
  · obtain ⟨l, hl, rfl⟩ := Option.map_eq_some_iff.1 (List.getElem?_map .. ▸ hq)
    simp only [queryTensors]
    rw [nthSlice_found (cells_labelled_getElem? _ hl)]
    simp [Trace.queryResult, BatchCell.shift, BatchCell.reindex, Function.comp_def]
  · obtain ⟨l, hl, rfl⟩ := Option.map_eq_some_iff.1 (List.getElem?_map .. ▸ hq)
    simp only [queryTensors]
    rw [nthSlice_found (cells_labelled_getElem? _ hl)]
    simp [Trace.queryResult, BatchCell.shift, BatchCell.reindex, Function.comp_def]
  · simp only [queryTensors, List.getElem?_map, Option.map_eq_some_iff] at hi hx
    obtain ⟨c, hc, rfl⟩ := hx
    have hcall : (allCells (s.cells _))[j]? = some c :=
      List.getElem?_append_left (List.getElem?_eq_some_iff.1 hc).1 ▸ hc
    obtain ⟨c', hc', rfl⟩ := hi
    obtain rfl := Option.some.inj (hc'.symm.trans hcall)
    exact hlook.resident_of_cell hs (List.mem_of_getElem? hcall) h0

end Query

/-! ## `QueryAndReplace` -/

/-- The format of the result `r` of `QueryAndReplace`, for the results of the policies. -/
structure QueryAndReplaceFormat (assign : PartAssignment) (fuel : ℕ)
    (s : PartitionedCachePolicy kind) (keys ks : List ℤ) (s' : PartitionedCachePolicy kind)
    (results : List QueryAndReplaceResult) (r : PartitionedQueryAndReplaceResult) : Prop where
  calls : s.onPolicies (fun p =>
    CachePolicy.queryAndReplaceImpl fuel (partKeys assign s.numParts ks p)) = .ok results s'
  index : IndexFormat assign s.numParts keys ks r.indices r.missingKeys r.foundOffsets
    r.missingOffsets (keys.length - r.missingKeys.length)
    (results.map fun q => q.indices.take q.foundCnt) (results.map fun q => q.indices.drop q.foundCnt)
  positions_found : ∀ p q, results[p]? = some q →
    nthSlice (r.positions.take (keys.length - r.missingKeys.length)) r.foundOffsets p =
      (q.positions.take q.foundCnt).map (· + s.positionOffset p)
  positions_missing : ∀ p q, results[p]? = some q →
    nthSlice (r.positions.drop (keys.length - r.missingKeys.length)) r.missingOffsets p =
      (q.positions.drop q.foundCnt).map (· + s.positionOffset p)
  pointers_found : ∀ p q, results[p]? = some q →
    nthSlice (r.pointers.take (keys.length - r.missingKeys.length)) r.foundOffsets p =
      q.pointers.take q.foundCnt
  pointers_missing : ∀ p q, results[p]? = some q →
    nthSlice (r.pointers.drop (keys.length - r.missingKeys.length)) r.missingOffsets p =
      q.pointers.drop q.foundCnt
  resident : ∀ (j : ℕ) i x, r.indices[j]? = some i → r.positions[j]? = some x → 0 ≤ x →
    s'.Resident ks (partGroups assign s.numParts ks) i x
  distinct : s'.PositionsDistinct

section QueryAndReplace

variable {assign : PartAssignment} {keys : KeyTensor} {offset : ℤ} {ks : List ℤ} {fuel : ℕ}

lemma halves_queryAndReplaceResult (l : Trace) :
    l.queryAndReplaceResult.foundCnt = l.found.length ∧
      l.queryAndReplaceResult.indices.take l.found.length = l.found.map BatchCell.index ∧
      l.queryAndReplaceResult.indices.drop l.found.length =
        l.missed.reverse.map BatchCell.index ∧
      l.queryAndReplaceResult.positions.take l.found.length = l.found.map BatchCell.position ∧
      l.queryAndReplaceResult.positions.drop l.found.length =
        l.missed.reverse.map BatchCell.position ∧
      l.queryAndReplaceResult.pointers.take l.found.length = l.found.map BatchCell.pointer ∧
      l.queryAndReplaceResult.pointers.drop l.found.length =
        l.missed.reverse.map BatchCell.pointer := by
  simp [QueryAndReplaceResult.foundCnt, Trace.queryAndReplaceResult]

/-- **`QueryAndReplace` keeps its format**, for less than `2^31` keys or one policy. -/
theorem queryAndReplace_format (hs : s.Inv)
    (hadd : addOffset keys.ty keys.keys offset = .ok ks) {results : List QueryAndReplaceResult}
    (hrun : s.onPolicies (fun p => CachePolicy.queryAndReplaceImpl fuel
      (partKeys assign s.numParts ks p)) = .ok results s')
    (hsmall : s.numParts = 1 ∨ ks.length < 2 ^ 31) :
    ∃ r, s.queryAndReplace assign fuel keys offset = .ok r s' ∧
      s.QueryAndReplaceFormat assign fuel keys.keys ks s' results r := by
  have hrun' := hrun
  rw [← onPolicies_partKeys (CachePolicy.queryAndReplaceImpl fuel)] at hrun'
  obtain ⟨ls₀, ls, rfl, hls, hidx, hlook, -, heq⟩ :=
    queryAndReplace_of_policies hs hadd hrun' hsmall
  obtain ⟨cs, hcs⟩ : ∃ cs, cs = s.cells ls := ⟨_, rfl⟩
  have hlen := hlook.length_cells_parts hs.numParts_pos
  rw [length_addOffset hadd, ← hcs, allCells, List.length_append] at hlen
  rw [← hcs] at heq
  have hfound : keys.keys.length -
      ((cs.flatMap PartCells.missed).map fun c => keys.keys.getD c.index 0).length =
        (cs.flatMap PartCells.found).length := by
    rw [List.length_map]
    omega
  have hcell (p : ℕ) (l : Trace) (hl : ls₀[p]? = some l) : cs[p]? = some
      ⟨l.found.map (BatchCell.shift (s.positionOffset p) ∘ BatchCell.reindex
          (batchIndex (.ofGroups ks (partGroups assign s.numParts ks)) p)),
        l.missed.reverse.map (BatchCell.shift (s.positionOffset p) ∘ BatchCell.reindex
          (batchIndex (.ofGroups ks (partGroups assign s.numParts ks)) p))⟩ := by
    rw [hcs, hls, cells_labelled_getElem? _ hl]
  refine ⟨_, heq, hrun, ?_, fun p q hq => ?_, fun p q hq => ?_, fun p q hq => ?_,
    fun p q hq => ?_, fun j i x hi hx h0 => ?_, (hlook.inv hs).positionsDistinct⟩
  · have hformat := indexFormat_of_looked hs (length_addOffset hadd) (hls ▸ hlook) hidx
      (hcs.trans (by rw [hls]))
    simp only [hfound, List.map_map, Function.comp_def,
      (halves_queryAndReplaceResult _).1, (halves_queryAndReplaceResult _).2.1,
      (halves_queryAndReplaceResult _).2.2.1]
    exact hformat
  all_goals try
    obtain ⟨l, hl, rfl⟩ := Option.map_eq_some_iff.1 (List.getElem?_map .. ▸ hq)
    obtain ⟨hcnt, -, -, hpf, hpm, hqf, hqm⟩ := halves_queryAndReplaceResult l
    simp only [hfound, hcnt, queryAndReplaceTensors, take_allCells, drop_allCells]
  · rw [nthSlice_found (hcell p l hl), hpf]
    simp [BatchCell.shift, BatchCell.reindex, Function.comp_def]
  · rw [nthSlice_missed (hcell p l hl), hpm]
    simp [BatchCell.shift, BatchCell.reindex, Function.comp_def]
  · rw [nthSlice_found (hcell p l hl), hqf]
    simp [BatchCell.shift, BatchCell.reindex, Function.comp_def]
  · rw [nthSlice_missed (hcell p l hl), hqm]
    simp [BatchCell.shift, BatchCell.reindex, Function.comp_def]
  · simp only [queryAndReplaceTensors, List.getElem?_map, Option.map_eq_some_iff] at hi hx
    obtain ⟨c, hc, rfl⟩ := hx
    obtain ⟨c', hc', rfl⟩ := hi
    obtain rfl := Option.some.inj (hc'.symm.trans hc)
    exact hlook.resident_of_cell hs (hcs ▸ List.mem_of_getElem? hc) h0

end QueryAndReplace

/-! ## `Replace` -/

/-- The format of the result `r` of `Replace`, for the results of the policies. -/
structure ReplaceFormat (fuel : ℕ) (s : PartitionedCachePolicy kind) (ks : List ℤ)
    (groups : List (List ℕ)) (s' : PartitionedCachePolicy kind) (results : List ReplaceResult)
    (r : PartitionedReplaceResult) : Prop where
  calls : s.onPolicies (fun p => CachePolicy.replaceImpl fuel
    (permutedSlice (.ofGroups ks groups) p)) = .ok results s'
  length_positions : r.positions.length = ks.length
  positions_part : ∀ (p : ℕ) q g (j : ℕ) i, results[p]? = some q → groups[p]? = some g →
    g[j]? = some i → ∃ x, q.positions[j]? = some x ∧
      r.positions[i]? = some (x + s.positionOffset p)
  pointers_part : ∀ p q, results[p]? = some q → nthSlice r.pointers r.offsets p = q.pointers
  resident : ∀ (i : ℕ) x, r.positions[i]? = some x → 0 ≤ x → s'.Resident ks groups i x
  distinct : s'.PositionsDistinct

section Replace

variable {assign : PartAssignment} {keys : KeyTensor} {offset : ℤ} {ks : List ℤ} {fuel : ℕ}
  {groups : List (List ℕ)} {offsets : Option (List ℤ)}

/-- **`Replace` keeps its format.** -/
theorem replace_format (hs : s.Inv) (hadd : addOffset keys.ty keys.keys offset = .ok ks)
    (hgroups : ReplaceGroups assign s.numParts ks groups offsets) {results : List ReplaceResult}
    (hrun : s.onPolicies (fun p => CachePolicy.replaceImpl fuel
      (permutedSlice (.ofGroups ks groups) p)) = .ok results s') :
    ∃ r, s.replace assign fuel keys offsets offset = .ok r s' ∧
      s.ReplaceFormat fuel ks groups s' results r := by
  obtain ⟨ls₀, ls, positions, rfl, hls, -, hlook, -, heq, hlen, hget⟩ :=
    replace_of_policies hs hadd hgroups hrun
  have hcell (p : ℕ) (l : Trace) (hl : ls₀[p]? = some l) : (s.replacedCells ls)[p]? = some
      (l.replaced.map (BatchCell.shift (s.positionOffset p) ∘
        BatchCell.reindex (batchIndex (.ofGroups ks groups) p))) := by
    simp [hls, replacedCells, labelled, List.getElem?_mapIdx, hl]
  refine ⟨_, heq, hrun, hlen, fun p q g j i hq hg hi => ?_, fun p q hq => ?_, fun i x hx h0 => ?_,
    (hlook.inv hs).positionsDistinct⟩
  · obtain ⟨l, hl, rfl⟩ := Option.map_eq_some_iff.1 (List.getElem?_map .. ▸ hq)
    have hpart : ((s.replacedCells ls).map fun cs => cs.map BatchCell.index)[p]? = some g := by
      rw [replacedCells_index hlook, hg]
    rw [List.getElem?_map, hcell p l hl, Option.map_some, Option.some.injEq] at hpart
    rw [← hpart, List.getElem?_map, Option.map_eq_some_iff] at hi
    obtain ⟨c, hc, rfl⟩ := hi
    have hmem : c ∈ (s.replacedCells ls).flatten :=
      List.mem_flatten.2 ⟨_, List.mem_of_getElem? (hcell p l hl), List.mem_of_getElem? hc⟩
    rw [List.getElem?_map, Option.map_eq_some_iff] at hc
    obtain ⟨c₀, hc₀, rfl⟩ := hc
    refine ⟨c₀.position, ?_, hget _ hmem⟩
    rw [Trace.replaceResult_eq, List.getElem?_map, hc₀, Option.map_some]
  · obtain ⟨l, hl, rfl⟩ := Option.map_eq_some_iff.1 (List.getElem?_map .. ▸ hq)
    have hlens : groups.map List.length = (s.replacedCells ls).map List.length := by
      rw [replaced_length, hlook.map_length]
    simp only
    rw [hlens, nthSlice_map, nthSlice_flatten (hcell p l hl), List.map_map, Trace.replaceResult_eq]
    rfl
  · have hi : i ∈ (s.replacedCells ls).flatten.map BatchCell.index := by
      rw [flatten_replacedCells_index hlook, (hgroups.perm hs.numParts_pos).mem_iff,
        List.mem_range, ← hlen]
      exact (List.getElem?_eq_some_iff.1 hx).1
    obtain ⟨c, hc, rfl⟩ := List.mem_map.1 hi
    obtain rfl := Option.some.inj ((hget c hc).symm.trans hx)
    exact hlook.resident_of_replaced hs hc h0

end Replace

/-! ## When the format is kept -/

/-- The results of the policies for `Query`. -/
def QueryRuns (assign : PartAssignment) (s : PartitionedCachePolicy kind) (ks : List ℤ)
    (results : List QueryResult) (s' : PartitionedCachePolicy kind) : Prop :=
  s.onPolicies (fun p => CachePolicy.queryImpl (partKeys assign s.numParts ks p)) = .ok results s'

/-- The results of the policies for `QueryAndReplace`. -/
def QueryAndReplaceRuns (assign : PartAssignment) (fuel : ℕ) (s : PartitionedCachePolicy kind)
    (ks : List ℤ) (results : List QueryAndReplaceResult) (s' : PartitionedCachePolicy kind) : Prop :=
  s.onPolicies (fun p =>
    CachePolicy.queryAndReplaceImpl fuel (partKeys assign s.numParts ks p)) = .ok results s'

/-- Some batch call on the policies returns, so that its results have to be put together. -/
def ResultsDue (assign : PartAssignment) (s : PartitionedCachePolicy kind) (keys : KeyTensor)
    (offset : ℤ) : Prop :=
  ∃ ks, addOffset keys.ty keys.keys offset = .ok ks ∧
    ((∃ results s', QueryRuns assign s ks results s') ∨
      ∃ fuel results s', QueryAndReplaceRuns assign fuel s ks results s')

/-- `Partition` groups the keys; whenever the policies return from a batch, so do `Query`,
`QueryAndReplace` and `Replace`, with results in their format. -/
structure FormatHonoured (assign : PartAssignment) (s : PartitionedCachePolicy kind)
    (keys : KeyTensor) (offset : ℤ) : Prop where
  partition : ∃ r, Graphbolt.partition assign s.numParts keys.keys = some r ∧
    Grouped assign s.numParts keys.keys r
  query : ∀ ks results s', addOffset keys.ty keys.keys offset = .ok ks →
    QueryRuns assign s ks results s' → ∃ r, s.query assign keys offset = .ok r s' ∧
      s.QueryFormat assign keys.keys ks s' results r
  queryAndReplace : ∀ fuel ks results s', addOffset keys.ty keys.keys offset = .ok ks →
    QueryAndReplaceRuns assign fuel s ks results s' →
      ∃ r, s.queryAndReplace assign fuel keys offset = .ok r s' ∧
        s.QueryAndReplaceFormat assign fuel keys.keys ks s' results r
  replace : ∀ fuel ks offsets groups results s', addOffset keys.ty keys.keys offset = .ok ks →
    ReplaceGroups assign s.numParts ks groups offsets →
    s.onPolicies (fun p => CachePolicy.replaceImpl fuel
      (permutedSlice (.ofGroups ks groups) p)) = .ok results s' →
      ∃ r, s.replace assign fuel keys offsets offset = .ok r s' ∧
        s.ReplaceFormat fuel ks groups s' results r

/-- The batch that asks `2^31` times for key 0. -/
def repeatedZero : KeyTensor where
  ty := .int64
  keys := List.replicate (2 ^ 31) 0
  inRange := fun k hk => by rw [List.eq_of_mem_replicate hk]; decide

/-- Empty policies return from `Query`. -/
lemma exists_queryRuns (ks : List ℤ)
    (h : ∀ (p : ℕ) t, s.policies[p]? = some t → ∀ k, t.keyToCacheKey k = none) :
    ∃ results s', QueryRuns assign s ks results s' := by
  have hcall (p : ℕ) (t : CachePolicy kind.Queues) (ht : s.policies[p]? = some t) :
      ∃ b t', CachePolicy.queryImpl (partKeys assign s.numParts ks (0 + p)) t = .ok b t' := by
    obtain ⟨r, hr⟩ := CachePolicy.queryImpl_of_absent fun k
      (_ : k ∈ partKeys assign s.numParts ks (0 + p)) => h p t ht k
    exact ⟨r, t, hr⟩
  obtain ⟨results, policies, hrun⟩ := @exists_forEachPolicy _ _
    (fun p => CachePolicy.queryImpl (partKeys assign s.numParts ks p)) s.policies 0 hcall
  exact ⟨results, _, Outcome.map_eq_ok.2 ⟨results, policies, hrun, rfl, rfl⟩⟩

end PartitionedCachePolicy

end DglAscend.Graphbolt
