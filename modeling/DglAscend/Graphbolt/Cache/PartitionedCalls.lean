import DglAscend.Graphbolt.Cache.PartitionedBatches

/-!
# Calls on a partitioned policy

What `Query`, `QueryAndReplace` and `Replace` return, and when: the tensors of the traces of the
policies.
-/

namespace DglAscend.Graphbolt

/-! ## The key offset -/

variable {keys ks : List ℤ} {offset : ℤ}

lemma addOffset_eq_ok {ty : IndexType} (h : addOffset ty keys offset = .ok ks) :
    ∃ f : ℤ → ℤ, ks = keys.map f ∧ ∀ is : List ℤ, (∀ k ∈ is, ty.InRange k) →
      addOffset ty (is.map f) (-offset) = .ok is := by
  unfold addOffset at h
  split at h
  · rename_i h0
    subst h0
    obtain rfl := Except.ok.inj h
    exact ⟨id, (List.map_id _).symm, fun is _ => by simp [addOffset]⟩
  · rename_i h0
    have h0' : ¬-offset = 0 := by omega
    cases ty with
    | int32 =>
        simp only at h
        split at h
        · obtain rfl := Except.ok.inj h
          have hback (is : List ℤ) : (is.map (· + offset)).map (· + -offset) = is := by
            rw [List.map_map]
            conv_rhs => rw [← List.map_id is]
            exact List.map_congr_left fun k _ => by simp
          refine ⟨_, rfl, fun is his => ?_⟩
          rw [addOffset, if_neg h0', if_pos, hback]
          intro k hk
          obtain ⟨k₀, hk₀, rfl⟩ := List.mem_map.1 hk
          rw [add_neg_cancel_right]
          exact his k₀ hk₀
        · simp at h
    | int64 =>
        obtain rfl := Except.ok.inj h
        refine ⟨_, rfl, fun is his => ?_⟩
        rw [addOffset, if_neg h0']
        simp only [List.map_map]
        congr 1
        conv_rhs => rw [← List.map_id is]
        refine List.map_congr_left fun k hk => ?_
        obtain ⟨h1, h2⟩ := his k hk
        rw [Function.comp_apply, Int.bmod_add_bmod, add_neg_cancel_right, id_eq]
        exact Int.bmod_eq_of_le (by norm_num at h1 ⊢; omega) (by norm_num at h2 ⊢; omega)

lemma length_addOffset {ty : IndexType} (h : addOffset ty keys offset = .ok ks) :
    ks.length = keys.length := by
  obtain ⟨f, rfl, -⟩ := addOffset_eq_ok h
  exact List.length_map f

lemma addOffset_neg {keys : KeyTensor} (h : addOffset keys.ty keys.keys offset = .ok ks)
    {is : List ℕ} (his : ∀ i ∈ is, i < keys.keys.length) :
    addOffset keys.ty (is.map fun i => ks.getD i 0) (-offset) =
      .ok (is.map fun i => keys.keys.getD i 0) := by
  obtain ⟨f, rfl, hback⟩ := addOffset_eq_ok h
  have hmap : (is.map fun i => (keys.keys.map f).getD i 0) =
      (is.map fun i => keys.keys.getD i 0).map f := by
    rw [List.map_map]
    refine List.map_congr_left fun i hi => ?_
    have hlt := his i hi
    rw [Function.comp_apply, List.getD_eq_getElem _ _ hlt, List.getD_eq_getElem _ _ (by simpa),
      List.getElem_map]
  rw [hmap, hback]
  intro k hk
  obtain ⟨i, hi, rfl⟩ := List.mem_map.1 hk
  rw [List.getD_eq_getElem _ _ (his i hi)]
  exact keys.inRange _ (List.getElem_mem _)

namespace PartitionedCachePolicy

variable {kind : PolicyKind} {s s' : PartitionedCachePolicy kind} {α β : Type}

@[simp] lemma check_ok (a : α) : s.check (.ok a) = .ok a s := rfl

@[simp] lemma defined_some (a : α) : s.defined (some a) = .ok a s := rfl

lemma check_bind_eq_ok {x : Except CacheError α}
    {f : α → PartitionedCachePolicy kind → Outcome CacheError (PartitionedCachePolicy kind) β}
    {b : β} : (s.check x).bind f = .ok b s' ↔ ∃ a, x = .ok a ∧ f a s = .ok b s' := by
  cases x <;> simp [check]

lemma defined_bind_eq_ok {x : Option α}
    {f : α → PartitionedCachePolicy kind → Outcome CacheError (PartitionedCachePolicy kind) β}
    {b : β} : (s.defined x).bind f = .ok b s' ↔ ∃ a, x = some a ∧ f a s = .ok b s' := by
  cases x <;> simp [defined]

/-! ## The groups of a batch -/

lemma partition_eq_ofGroups (assign : PartAssignment) {n : ℕ} (hn : 0 < n) (keys : List ℤ) :
    partition assign n keys = some (.ofGroups keys (partGroups assign n keys)) := by
  rw [partition_eq assign keys hn, groupedKeys_eq]

lemma length_partGroups (assign : PartAssignment) (n : ℕ) (keys : List ℤ) :
    (partGroups assign n keys).length = n := by
  simp [partGroups]

/-- Every index of the batch is in one group. -/
lemma flatten_partGroups_perm (assign : PartAssignment) {n : ℕ} (hn : 0 < n) (keys : List ℤ) :
    (partGroups assign n keys).flatten.Perm (List.range keys.length) := by
  have hperm := bucketOrder_perm (N := keys.length) fun i _ => partOf_lt assign keys hn i
  rwa [bucketOrder, List.flatMap_def] at hperm

lemma partGroups_one (assign : PartAssignment) (keys : List ℤ) :
    partGroups assign 1 keys = [List.range keys.length] := by
  have hall : partIndices assign 1 keys 0 = List.range keys.length := by
    rw [partIndices, bucket]
    refine List.filter_eq_self.2 fun i _ => ?_
    have := partOf_lt assign keys Nat.one_pos i
    simp only [decide_eq_true_eq]
    omega
  rw [partGroups, List.range_one, List.map_singleton, hall]

lemma permutedSlice_one (keys : List ℤ) :
    permutedSlice (.ofGroups keys [List.range keys.length]) 0 = keys := by
  rw [permutedSlice_ofGroups keys (g := List.range keys.length) rfl, keysAt_range,
    List.zipIdx_map_fst]

/-- With one policy the indices stay as they are. -/
lemma labelled_one {l : Trace} (h : ∀ x ∈ l, x.1.2 < keys.length) :
    labelled (.ofGroups keys [List.range keys.length]) [l] = [l] := by
  have hrel : l.relabel (batchIndex (.ofGroups keys [List.range keys.length]) 0) = l := by
    refine Trace.relabel_eq_self fun x hx => ?_
    rw [batchIndex, indices_ofGroups keys rfl (by simpa using h x hx), List.getElem_range]
  simp [labelled, hrel]

lemma positionOffset_zero (s : PartitionedCachePolicy kind) : s.positionOffset 0 = 0 := by
  simp [positionOffset]

lemma cells_singleton (l : Trace) : s.cells [l] = [⟨l.found, l.missed.reverse⟩] := by
  have hshift : BatchCell.shift 0 = id := by
    funext c
    simp [BatchCell.shift]
  simp [cells, positionOffset_zero, hshift]

section Looked

variable {keys : List ℤ} {groups : List (List ℕ)} {ls : List Trace}

section

variable (h : s.LookedAll keys groups ls s')
include h

/-- The storage of all policies is laid out as before. -/
lemma LookedAll.cells_eq (ls' : List Trace) : s'.cells ls' = s.cells ls' := by
  unfold cells positionOffset
  rw [h.capacity_eq, h.numParts_eq]

/-- The trace of a policy looks up the keys of its group. -/
lemma LookedAll.keys_eq {p : ℕ} {g : List ℕ} {l : Trace} (hg : groups[p]? = some g)
    (hl : ls[p]? = some l) : l.map Prod.fst = keysAt keys g := by
  have hp : p < s.numParts := h.length_traces ▸ (List.getElem?_eq_some_iff.1 hl).1
  have hp' : p < s'.numParts := h.numParts_eq.symm ▸ hp
  exact (h.looked p _ _ _ _ (List.getElem?_eq_getElem hp) hg hl
    (List.getElem?_eq_getElem hp')).keys_eq

lemma LookedAll.map_length : ls.map List.length = groups.map List.length := by
  refine List.ext_getElem (by simp [h.length_traces, h.length_groups]) fun p h1 h2 => ?_
  have hlen := congrArg List.length (h.keys_eq (p := p) (List.getElem?_eq_getElem (by simpa using h2))
    (List.getElem?_eq_getElem (by simpa using h1)))
  simpa [keysAt] using hlen

lemma LookedAll.length_cells : (allCells (s.cells ls)).length = groups.flatten.length := by
  rw [length_allCells_cells, h.map_length, List.length_flatten]

lemma LookedAll.cell_key {c : BatchCell} (hc : c ∈ allCells (s.cells ls)) :
    c.index ∈ groups.flatten ∧ c.key = keys.getD c.index 0 := by
  have hex : ∃ l ∈ ls, ∃ x ∈ l, c.index = x.1.2 ∧ c.key = x.1.1 := by
    simp only [allCells, cells, List.mem_append, List.mem_flatMap, List.mem_mapIdx] at hc
    rcases hc with ⟨_, ⟨p, hp, rfl⟩, hc⟩ | ⟨_, ⟨p, hp, rfl⟩, hc⟩
    · obtain ⟨c₀, hc₀, rfl⟩ := List.mem_map.1 hc
      obtain ⟨x, hx, rfl⟩ := List.mem_map.1 hc₀
      exact ⟨_, List.getElem_mem hp, x, List.mem_of_mem_filter hx, rfl, rfl⟩
    · obtain ⟨c₀, hc₀, rfl⟩ := List.mem_map.1 hc
      obtain ⟨x, hx, rfl⟩ := List.mem_map.1 (List.mem_reverse.1 hc₀)
      exact ⟨_, List.getElem_mem hp, x, List.mem_of_mem_filter hx, rfl, rfl⟩
  obtain ⟨l, hl, x, hx, hindex, hkey⟩ := hex
  obtain ⟨p, hp, rfl⟩ := List.mem_iff_getElem.1 hl
  have hpg : p < groups.length := by
    rw [h.length_groups, ← h.length_traces]
    exact hp
  have hmem : x.1 ∈ ls[p].map Prod.fst := List.mem_map_of_mem hx
  rw [h.keys_eq (List.getElem?_eq_getElem hpg) (List.getElem?_eq_getElem hp)] at hmem
  obtain ⟨i, hi, hxi⟩ := List.mem_map.1 hmem
  rw [hindex, hkey, ← hxi]
  exact ⟨List.mem_flatten.2 ⟨_, List.getElem_mem hpg, hi⟩, rfl⟩

end

/-- Taking the offset off the missing keys gives back the keys at their indices. -/
lemma LookedAll.addOffset_missing {assign : PartAssignment} {keys : KeyTensor}
    (h : s.LookedAll ks (partGroups assign s.numParts ks) ls s') (hn : 0 < s.numParts)
    (hadd : addOffset keys.ty keys.keys offset = .ok ks) :
    addOffset keys.ty (((s.cells ls).flatMap PartCells.missed).map BatchCell.key) (-offset) =
      .ok (((s.cells ls).flatMap PartCells.missed).map fun c => keys.keys.getD c.index 0) := by
  have hcell (c : BatchCell) (hc : c ∈ (s.cells ls).flatMap PartCells.missed) :=
    h.cell_key (List.mem_append_right _ hc)
  have hkeys : ((s.cells ls).flatMap PartCells.missed).map BatchCell.key =
      (((s.cells ls).flatMap PartCells.missed).map BatchCell.index).map fun i => ks.getD i 0 := by
    rw [List.map_map]
    exact List.map_congr_left fun c hc => (hcell c hc).2
  rw [hkeys, addOffset_neg hadd, List.map_map]
  · rfl
  · intro i hi
    obtain ⟨c, hc, rfl⟩ := List.mem_map.1 hi
    have hmem := (flatten_partGroups_perm assign hn ks).subset (hcell c hc).1
    rw [List.mem_range, length_addOffset hadd] at hmem
    exact hmem

lemma LookedAll.length_cells_parts {assign : PartAssignment}
    (h : s.LookedAll ks (partGroups assign s.numParts ks) ls s') (hn : 0 < s.numParts) :
    (allCells (s.cells ls)).length = ks.length := by
  rw [h.length_cells, (flatten_partGroups_perm assign hn ks).length_eq, List.length_range]

end Looked

variable {ls : List Trace}

/-- With one policy, there is one trace, which has the indices of the batch. -/
lemma exists_singleton (P : Access → Prop) (hn : s.numParts = 1)
    (h : s.LookedAll keys [List.range keys.length]
      (labelled (.ofGroups keys [List.range keys.length]) ls) s')
    (hP : ∀ l ∈ ls, (∀ x ∈ l, P x.2) ∧ ∀ x ∈ l, x.1.2 < l.length) :
    ∃ l, ls = [l] ∧ labelled (.ofGroups keys [List.range keys.length]) [l] = [l] := by
  have hlen := h.length_traces
  rw [labelled, List.length_mapIdx, hn] at hlen
  obtain ⟨l, rfl⟩ := List.length_eq_one_iff.1 hlen
  have hlenl : l.length = keys.length := by simpa [labelled, Trace.relabel] using h.map_length
  exact ⟨l, rfl, labelled_one fun x hx => hlenl ▸ (hP l List.mem_cons_self).2 x hx⟩

lemma forall_labelled (P : Access → Prop) {r : PartitionResult}
    (h : ∀ l ∈ ls, (∀ x ∈ l, P x.2) ∧ ∀ x ∈ l, x.1.2 < l.length) :
    ∀ l ∈ labelled r ls, ∀ x ∈ l, P x.2 := by
  intro l hl x hx
  obtain ⟨p, hp, rfl⟩ := List.mem_mapIdx.1 hl
  obtain ⟨y, hy, rfl⟩ := List.mem_map.1 hx
  exact (h _ (List.getElem_mem hp)).1 y hy

/-! ## `Query` -/

section Calls

variable {assign : PartAssignment} {keys : KeyTensor} {offset : ℤ} {ks : List ℤ}

/-- With one policy, it is given the whole batch. -/
lemma onPolicies_one (assign : PartAssignment) (hn : s.numParts = 1) (ks : List ℤ)
    (impl : List ℤ → CachePolicy kind.Queues → Outcome CacheError (CachePolicy kind.Queues) β) :
    s.onPolicies (fun _ => impl ks) =
      s.onPolicies fun p => impl (permutedSlice (.ofGroups ks (partGroups assign s.numParts ks)) p) := by
  refine onPolicies_congr fun p hp => ?_
  obtain rfl : p = 0 := by omega
  rw [hn, partGroups_one, permutedSlice_one]

/-- **What `Query` returns** after its policies have: the cells of their traces. -/
theorem query_of_policies (hs : s.Inv) (hadd : addOffset keys.ty keys.keys offset = .ok ks)
    {results : List QueryResult}
    (hrun : s.onPolicies (fun p => CachePolicy.queryImpl
      (permutedSlice (.ofGroups ks (partGroups assign s.numParts ks)) p)) = .ok results s')
    (hsmall : s.numParts = 1 ∨ ks.length < 2 ^ 31) :
    ∃ ls₀ ls, results = ls₀.map Trace.queryResult ∧
      ls = labelled (.ofGroups ks (partGroups assign s.numParts ks)) ls₀ ∧
      (∀ l ∈ ls₀, ∀ x ∈ l, x.1.2 < l.length) ∧
      s.LookedAll ks (partGroups assign s.numParts ks) ls s' ∧
      (∀ l ∈ ls, ∀ x ∈ l, x.2.reserved = 0) ∧ s.query assign keys offset = .ok
        { queryTensors (s.cells ls) with
          missingKeys :=
            ((s.cells ls).flatMap PartCells.missed).map fun c => keys.keys.getD c.index 0 } s' := by
  obtain ⟨ls, rfl, hlook, hP⟩ := looked_of_onPolicies hs (length_partGroups _ _ _)
    Trace.queryResult (fun a => a.reserved = 0)
    (fun _ _ _ _ ht hr => CachePolicy.queryImpl_ok ht hr) hrun
  refine ⟨ls, _, rfl, rfl, fun l hl => (hP l hl).2, hlook, forall_labelled (fun a => a.reserved = 0) hP, ?_⟩
  have hmiss := hlook.addOffset_missing hs.numParts_pos hadd
  rw [query, hadd, check_ok, Outcome.bind_ok]
  by_cases hn : s.numParts = 1
  · rw [if_pos hn, onPolicies_one assign hn, hrun, Outcome.bind_ok]
    rw [show partGroups assign s.numParts ks = [List.range ks.length] by
      rw [hn, partGroups_one]] at hlook hmiss ⊢
    obtain ⟨l, rfl, hlab⟩ := exists_singleton (fun a => a.reserved = 0) hn hlook hP
    rw [hlab, cells_singleton] at hmiss ⊢
    simp only [List.flatMap_cons, List.flatMap_nil, List.append_nil] at hmiss
    simp only [List.map_cons, List.map_nil, List.head?_cons, defined_some, Outcome.bind_ok]
    rw [show l.queryResult.missingKeys = l.missed.reverse.map BatchCell.key from rfl, hmiss,
      check_ok, Outcome.bind_ok]
    simp [queryTensors, allCells, Trace.queryResult, offsetsFrom]
  · have hlen := hlook.length_cells_parts hs.numParts_pos
    rw [← hlook.cells_eq] at hlen
    have hparts := hlook.length_traces
    rw [← hlook.numParts_eq, labelled, List.length_mapIdx] at hparts
    rw [if_neg hn, partition_eq_ofGroups assign hs.numParts_pos, defined_some, Outcome.bind_ok, hrun,
      Outcome.bind_ok, assembleQuery_eq _ hparts hlen (hsmall.resolve_left hn), hlook.cells_eq,
      defined_some, Outcome.bind_ok, missingKeys_queryTensors, hmiss, check_ok, Outcome.bind_ok]

/-- `Query` returns only if its policies do, and not for `2^31` keys that several policies
share. -/
theorem policies_of_query (hs : s.Inv) {r : PartitionedQueryResult}
    (h : s.query assign keys offset = .ok r s') :
    ∃ ks results, addOffset keys.ty keys.keys offset = .ok ks ∧
      s.onPolicies (fun p => CachePolicy.queryImpl
        (permutedSlice (.ofGroups ks (partGroups assign s.numParts ks)) p)) = .ok results s' ∧
      (s.numParts = 1 ∨ ks.length < 2 ^ 31) := by
  obtain ⟨ks, hadd, h⟩ := check_bind_eq_ok.1 h
  split at h
  · rename_i hn
    obtain ⟨results, t, hrun, h⟩ := Outcome.bind_eq_ok.1 h
    obtain ⟨r₀, -, h⟩ := defined_bind_eq_ok.1 h
    obtain ⟨ms, -, h⟩ := check_bind_eq_ok.1 h
    obtain ⟨-, rfl⟩ := by simpa using h
    exact ⟨ks, results, hadd, by rwa [onPolicies_one assign hn] at hrun, Or.inl hn⟩
  · obtain ⟨p, hpart, h⟩ := defined_bind_eq_ok.1 h
    rw [partition_eq_ofGroups assign hs.numParts_pos] at hpart
    obtain rfl := Option.some.inj hpart
    obtain ⟨results, t, hrun, h⟩ := Outcome.bind_eq_ok.1 h
    obtain ⟨r₀, hdef, h⟩ := defined_bind_eq_ok.1 h
    obtain ⟨ms, -, h⟩ := check_bind_eq_ok.1 h
    obtain ⟨-, rfl⟩ := by simpa using h
    refine ⟨ks, results, hadd, hrun, Or.inr ?_⟩
    by_contra hge
    rw [assembleQuery_eq_none _ _ _ (by omega)] at hdef
    simp at hdef

/-! ## `QueryAndReplace` -/

variable {fuel : ℕ}

/-- **What `QueryAndReplace` returns** after its policies have: the cells of their traces. -/
theorem queryAndReplace_of_policies (hs : s.Inv)
    (hadd : addOffset keys.ty keys.keys offset = .ok ks) {results : List QueryAndReplaceResult}
    (hrun : s.onPolicies (fun p => CachePolicy.queryAndReplaceImpl fuel
      (permutedSlice (.ofGroups ks (partGroups assign s.numParts ks)) p)) = .ok results s')
    (hsmall : s.numParts = 1 ∨ ks.length < 2 ^ 31) :
    ∃ ls₀ ls, results = ls₀.map Trace.queryAndReplaceResult ∧
      ls = labelled (.ofGroups ks (partGroups assign s.numParts ks)) ls₀ ∧
      (∀ l ∈ ls₀, ∀ x ∈ l, x.1.2 < l.length) ∧
      s.LookedAll ks (partGroups assign s.numParts ks) ls s' ∧
      (∀ l ∈ ls, ∀ x ∈ l, x.2 ≠ .absent) ∧ s.queryAndReplace assign fuel keys offset = .ok
        { queryAndReplaceTensors (s.cells ls) with
          missingKeys :=
            ((s.cells ls).flatMap PartCells.missed).map fun c => keys.keys.getD c.index 0 } s' := by
  obtain ⟨ls, rfl, hlook, hP⟩ := looked_of_onPolicies hs (length_partGroups _ _ _)
    Trace.queryAndReplaceResult (fun a => a ≠ .absent)
    (fun _ _ _ _ ht hr => CachePolicy.queryAndReplaceImpl_ok ht hr) hrun
  refine ⟨ls, _, rfl, rfl, fun l hl => (hP l hl).2, hlook, forall_labelled (fun a => a ≠ .absent) hP, ?_⟩
  have hmiss := hlook.addOffset_missing hs.numParts_pos hadd
  have hlen := hlook.length_cells_parts hs.numParts_pos
  rw [queryAndReplace, hadd, check_ok, Outcome.bind_ok]
  by_cases hn : s.numParts = 1
  · rw [if_pos hn, onPolicies_one assign hn, hrun, Outcome.bind_ok]
    rw [show partGroups assign s.numParts ks = [List.range ks.length] by
      rw [hn, partGroups_one]] at hlook hmiss hlen ⊢
    obtain ⟨l, rfl, hlab⟩ := exists_singleton (fun a => a ≠ .absent) hn hlook hP
    rw [hlab, cells_singleton] at hmiss hlen ⊢
    have hfound : ks.length - l.queryAndReplaceResult.missingKeys.length = l.found.length := by
      simp only [allCells, List.flatMap_cons, List.flatMap_nil, List.append_nil,
        List.length_append, List.length_reverse] at hlen
      simp only [Trace.queryAndReplaceResult, List.length_map, List.length_reverse]
      omega
    simp only [List.flatMap_cons, List.flatMap_nil, List.append_nil] at hmiss
    simp only [List.map_cons, List.map_nil, List.head?_cons, defined_some, Outcome.bind_ok, hfound]
    rw [show l.queryAndReplaceResult.missingKeys = l.missed.reverse.map BatchCell.key from rfl,
      hmiss, check_ok, Outcome.bind_ok]
    simp [queryAndReplaceTensors, allCells, Trace.queryAndReplaceResult, offsetsFrom]
  · rw [← hlook.cells_eq] at hlen
    have hparts := hlook.length_traces
    rw [← hlook.numParts_eq, labelled, List.length_mapIdx] at hparts
    have hslice (p : ℕ) (l : Trace) (hl : ls[p]? = some l) :
        (permutedSlice (.ofGroups ks (partGroups assign s.numParts ks)) p).length = l.length := by
      have hp : p < (partGroups assign s.numParts ks).length := by
        rw [hlook.length_groups, ← hlook.numParts_eq, ← hparts]
        exact (List.getElem?_eq_some_iff.1 hl).1
      have hg := List.getElem?_eq_getElem hp
      have hl' : (labelled (.ofGroups ks (partGroups assign s.numParts ks)) ls)[p]? =
          some (l.relabel (batchIndex (.ofGroups ks (partGroups assign s.numParts ks)) p)) := by
        rw [labelled, List.getElem?_mapIdx, hl, Option.map_some]
      rw [permutedSlice_ofGroups ks hg, ← hlook.keys_eq hg hl']
      simp [Trace.relabel]
    rw [if_neg hn, partition_eq_ofGroups assign hs.numParts_pos, defined_some, Outcome.bind_ok, hrun,
      Outcome.bind_ok, assembleQueryAndReplace_eq _ hparts hlen hslice (hsmall.resolve_left hn),
      hlook.cells_eq, defined_some, Outcome.bind_ok, missingKeys_queryAndReplaceTensors, hmiss,
      check_ok, Outcome.bind_ok]

variable {r : PartitionedQueryAndReplaceResult}

theorem policies_of_queryAndReplace (hs : s.Inv)
    (h : s.queryAndReplace assign fuel keys offset = .ok r s') :
    ∃ ks results, addOffset keys.ty keys.keys offset = .ok ks ∧
      s.onPolicies (fun p => CachePolicy.queryAndReplaceImpl fuel
        (permutedSlice (.ofGroups ks (partGroups assign s.numParts ks)) p)) = .ok results s' ∧
      (s.numParts = 1 ∨ ks.length < 2 ^ 31) := by
  obtain ⟨ks, hadd, h⟩ := check_bind_eq_ok.1 h
  split at h
  · rename_i hn
    obtain ⟨results, t, hrun, h⟩ := Outcome.bind_eq_ok.1 h
    obtain ⟨r₀, -, h⟩ := defined_bind_eq_ok.1 h
    obtain ⟨ms, -, h⟩ := check_bind_eq_ok.1 h
    obtain ⟨-, rfl⟩ := by simpa using h
    exact ⟨ks, results, hadd, by rwa [onPolicies_one assign hn] at hrun, Or.inl hn⟩
  · obtain ⟨p, hpart, h⟩ := defined_bind_eq_ok.1 h
    rw [partition_eq_ofGroups assign hs.numParts_pos] at hpart
    obtain rfl := Option.some.inj hpart
    obtain ⟨results, t, hrun, h⟩ := Outcome.bind_eq_ok.1 h
    obtain ⟨r₀, hdef, h⟩ := defined_bind_eq_ok.1 h
    obtain ⟨ms, -, h⟩ := check_bind_eq_ok.1 h
    obtain ⟨-, rfl⟩ := by simpa using h
    refine ⟨ks, results, hadd, hrun, Or.inr ?_⟩
    by_contra hge
    rw [assembleQueryAndReplace_eq_none _ _ _ (by omega)] at hdef
    simp at hdef

/-- **What `QueryAndReplace` returns.** -/
theorem queryAndReplace_ok (hs : s.Inv) (h : s.queryAndReplace assign fuel keys offset = .ok r s') :
    ∃ ks ls, addOffset keys.ty keys.keys offset = .ok ks ∧
      s.LookedAll ks (partGroups assign s.numParts ks) ls s' ∧
      (∀ l ∈ ls, ∀ x ∈ l, x.2 ≠ .absent) ∧
      r = { queryAndReplaceTensors (s.cells ls) with
        missingKeys :=
          ((s.cells ls).flatMap PartCells.missed).map fun c => keys.keys.getD c.index 0 } := by
  obtain ⟨ks, results, hadd, hrun, hsmall⟩ := policies_of_queryAndReplace hs h
  obtain ⟨ls₀, ls, -, -, -, hlook, habs, heq⟩ := queryAndReplace_of_policies hs hadd hrun hsmall
  obtain ⟨rfl, -⟩ := Outcome.ok.inj (h.symm.trans heq)
  exact ⟨ks, ls, hadd, hlook, habs, rfl⟩

/-! ## `Replace` -/

/-- The groups of indices that `Replace` works on: those of `Partition`, or, if the caller gives
offsets, the segments that these delimit. -/
def ReplaceGroups (assign : PartAssignment) (n : ℕ) (ks : List ℤ) (groups : List (List ℕ)) :
    Option (List ℤ) → Prop
  | none => groups = partGroups assign n ks
  | some offsets => groups.length = n ∧ groups.flatten = List.range ks.length ∧
      offsets = offsetsFrom 0 (groups.map List.length)

variable {groups : List (List ℕ)} {offsets : Option (List ℤ)}

lemma ReplaceGroups.length_eq (h : ReplaceGroups assign s.numParts ks groups offsets) :
    groups.length = s.numParts := by
  cases offsets with
  | none => obtain rfl := h; exact length_partGroups _ _ _
  | some offsets => exact h.1

lemma ReplaceGroups.perm (hn : 0 < s.numParts)
    (h : ReplaceGroups assign s.numParts ks groups offsets) :
    groups.flatten.Perm (List.range ks.length) := by
  cases offsets with
  | none => obtain rfl := h; exact flatten_partGroups_perm assign hn ks
  | some offsets => exact List.Perm.of_eq h.2.1

/-- The tensors that `Replace` takes the keys of the policies from. -/
lemma ReplaceGroups.parts_eq (hn : 0 < s.numParts)
    (h : ReplaceGroups assign s.numParts ks groups offsets) :
    replaceParts assign s.numParts ks offsets = some (.ofGroups ks groups) := by
  cases offsets with
  | none => obtain rfl := h; exact partition_eq_ofGroups assign hn ks
  | some offsets =>
      obtain ⟨-, hflat, rfl⟩ := h
      have hkeys : ((List.range ks.length).map fun i => ks.getD i 0) = ks := by
        rw [← map_fst_keysAt, keysAt_range, List.zipIdx_map_fst]
      rw [replaceParts, PartitionResult.ofGroups, hflat, hkeys]

lemma ReplaceGroups.one (hn : s.numParts = 1)
    (h : ReplaceGroups assign s.numParts ks groups offsets) :
    groups = [List.range ks.length] := by
  cases offsets with
  | none => rw [ReplaceGroups] at h; rw [h, hn, partGroups_one]
  | some offsets =>
      obtain ⟨hlen, hflat, -⟩ := h
      rw [hn] at hlen
      obtain ⟨g, rfl⟩ := List.length_eq_one_iff.1 hlen
      simpa using hflat

/-- The cells of each policy have the indices of its group. -/
lemma replacedCells_index (h : s.LookedAll ks groups ls s') :
    (s.replacedCells ls).map (fun cs => cs.map BatchCell.index) = groups := by
  refine List.ext_getElem (by simp [replacedCells, h.length_traces, h.length_groups]) fun p h1 h2 => ?_
  have hp : p < ls.length := by simpa [replacedCells] using h1
  have hkeys := h.keys_eq (List.getElem?_eq_getElem h2) (List.getElem?_eq_getElem hp)
  have hidx := congrArg (List.map Prod.snd) hkeys
  simp only [keysAt, List.map_map] at hidx
  simpa [replacedCells, Trace.replaced, BatchCell.shift, Function.comp_def] using hidx

lemma flatten_replacedCells_index (h : s.LookedAll ks groups ls s') :
    (s.replacedCells ls).flatten.map BatchCell.index = groups.flatten := by
  rw [List.map_flatten, replacedCells_index h]

/-- **What `Replace` returns** after its policies have: the positions in the order of the keys,
the pointers policy by policy. -/
theorem replace_of_policies (hs : s.Inv) (hadd : addOffset keys.ty keys.keys offset = .ok ks)
    (hgroups : ReplaceGroups assign s.numParts ks groups offsets) {results : List ReplaceResult}
    (hrun : s.onPolicies (fun p => CachePolicy.replaceImpl fuel
      (permutedSlice (.ofGroups ks groups) p)) = .ok results s') :
    ∃ ls₀ ls positions, results = ls₀.map Trace.replaceResult ∧
      ls = labelled (.ofGroups ks groups) ls₀ ∧ (∀ l ∈ ls₀, ∀ x ∈ l, x.1.2 < l.length) ∧
      s.LookedAll ks groups ls s' ∧
      (∀ l ∈ ls, ∀ x ∈ l, x.2 ≠ .absent) ∧
      s.replace assign fuel keys offsets offset = .ok
        ⟨positions, (s.replacedCells ls).flatten.map BatchCell.pointer,
          offsetsFrom 0 (groups.map List.length)⟩ s' ∧
      positions.length = ks.length ∧
      ∀ c ∈ (s.replacedCells ls).flatten, positions[c.index]? = some c.position := by
  obtain ⟨ls, rfl, hlook, hP⟩ := looked_of_onPolicies hs hgroups.length_eq Trace.replaceResult
    (fun a => a ≠ .absent) (fun _ _ _ _ ht hr => by
      obtain ⟨l, hl, habs, hres, -⟩ := CachePolicy.replaceImpl_ok ht hr
      exact ⟨l, hl, habs, hres⟩) hrun
  have hperm := hgroups.perm hs.numParts_pos
  have hindex := flatten_replacedCells_index hlook
  have hlens : groups.map List.length =
      (s.replacedCells (labelled (.ofGroups ks groups) ls)).map List.length := by
    rw [replaced_length, hlook.map_length]
  have hlen : ((s.replacedCells (labelled (.ofGroups ks groups) ls)).flatten).length = ks.length := by
    rw [← List.length_map BatchCell.index, hindex, hperm.length_eq, List.length_range]
  have habs := forall_labelled (r := .ofGroups ks groups) (fun a => a ≠ .absent) hP
  rw [replace, hadd, check_ok, Outcome.bind_ok]
  by_cases hn : s.numParts = 1
  · obtain rfl := hgroups.one hn
    obtain ⟨l, rfl, hlab⟩ := exists_singleton (fun a => a ≠ .absent) hn hlook hP
    have hcells : (s.replacedCells [l]).flatten = l.replaced := by
      have hshift : BatchCell.shift 0 = id := by
        funext c
        simp [BatchCell.shift]
      simp [replacedCells, positionOffset_zero, hshift]
    have hgroup : partGroups assign s.numParts ks = [List.range ks.length] := by
      rw [hn, partGroups_one]
    rw [hlab] at hlook hindex hlen habs
    rw [hcells] at hindex hlen
    rw [List.flatten_singleton] at hindex
    refine ⟨[l], [l], l.replaced.map BatchCell.position, rfl, hlab.symm,
      fun l hl => (hP l hl).2, hlook, habs, ?_, by simpa using hlen, ?_⟩
    · have hoffsets : offsets.getD [0, (l.replaceResult.pointers.length : ℤ)] =
          offsetsFrom 0 ([List.range ks.length].map List.length) := by
        cases offsets with
        | none => simp [Trace.replaceResult_eq, hlen, offsetsFrom]
        | some offsets => exact hgroups.2.2
      rw [if_pos hn, onPolicies_one assign hn, hgroup, hrun, Outcome.bind_ok]
      simp only [List.map_cons, List.map_nil, List.head?_cons, defined_some, Outcome.bind_ok]
      rw [hoffsets, hcells, Trace.replaceResult_eq]
      rfl
    · intro c hc
      rw [hcells] at hc
      obtain ⟨j, hj, rfl⟩ := List.mem_iff_getElem.1 hc
      have hidx : (l.replaced.map BatchCell.index)[j]? = (List.range ks.length)[j]? := by
        rw [hindex]
      rw [List.getElem?_map, List.getElem?_eq_getElem hj, List.getElem?_range (hlen ▸ hj),
        Option.map_some, Option.some.injEq] at hidx
      rw [hidx, List.getElem?_map, List.getElem?_eq_getElem hj, Option.map_some]
  · obtain ⟨positions, hpositions, hposlen, hget⟩ := tensor_positions hindex hperm
    refine ⟨ls, _, positions, rfl, rfl, fun l hl => (hP l hl).2, hlook, habs, ?_, hposlen, hget⟩
    have hoff : s'.addPositionOffsets ((ls.map Trace.replaceResult).map ReplaceResult.positions) =
        s.addPositionOffsets ((ls.map Trace.replaceResult).map ReplaceResult.positions) := by
      unfold addPositionOffsets positionOffset
      rw [hlook.capacity_eq, hlook.numParts_eq]
    have hps : ((s.replacedCells (labelled (.ofGroups ks groups) ls)).map
        fun cs => cs.map BatchCell.position).map List.length =
          (s.replacedCells (labelled (.ofGroups ks groups) ls)).map List.length := by simp
    have has : ((s.replacedCells (labelled (.ofGroups ks groups) ls)).map
        fun cs => cs.map BatchCell.pointer).map List.length =
          (s.replacedCells (labelled (.ofGroups ks groups) ls)).map List.length := by simp
    have hpointers := tensor_writesFrom
      ((s.replacedCells (labelled (.ofGroups ks groups) ls)).flatten.map BatchCell.pointer)
    rw [List.length_map, hlen] at hpointers
    rw [if_neg hn, hgroups.parts_eq hs.numParts_pos, defined_some, Outcome.bind_ok, hrun,
      Outcome.bind_ok]
    simp only [hoff, ← replaced_position s (.ofGroups ks groups),
      ← replaced_pointer s (.ofGroups ks groups)]
    rw [show (PartitionResult.ofGroups ks groups).offsets = offsetsFrom 0 (groups.map List.length)
      from rfl, hlens, ← hps, flatMap_zip_offsetsFrom, hps, ← has, flatMap_zip_offsetsFrom, has,
      ← List.map_flatten, ← List.map_flatten]
    rw [show (PartitionResult.ofGroups ks groups).indices = groups.flatten from rfl, hpositions,
      defined_some, Outcome.bind_ok, hpointers, defined_some, Outcome.bind_ok]

/-- `Replace` returns only if its policies do. -/
theorem policies_of_replace (hs : s.Inv) {r : PartitionedReplaceResult}
    (hadd : addOffset keys.ty keys.keys offset = .ok ks)
    (hgroups : ReplaceGroups assign s.numParts ks groups offsets)
    (h : s.replace assign fuel keys offsets offset = .ok r s') :
    ∃ results, s.onPolicies (fun p => CachePolicy.replaceImpl fuel
      (permutedSlice (.ofGroups ks groups) p)) = .ok results s' := by
  obtain ⟨ks', hadd', h⟩ := check_bind_eq_ok.1 h
  obtain rfl := Except.ok.inj (hadd'.symm.trans hadd)
  split at h
  · rename_i hn
    obtain ⟨results, t, hrun, h⟩ := Outcome.bind_eq_ok.1 h
    obtain ⟨r₀, -, h⟩ := defined_bind_eq_ok.1 h
    obtain ⟨-, rfl⟩ := by simpa using h
    rw [onPolicies_one assign hn, hn, partGroups_one, ← hgroups.one hn] at hrun
    exact ⟨results, hrun⟩
  · obtain ⟨p, hpart, h⟩ := defined_bind_eq_ok.1 h
    rw [hgroups.parts_eq hs.numParts_pos] at hpart
    obtain rfl := Option.some.inj hpart
    obtain ⟨results, t, hrun, h⟩ := Outcome.bind_eq_ok.1 h
    obtain ⟨positions, -, h⟩ := defined_bind_eq_ok.1 h
    obtain ⟨pointers, -, h⟩ := defined_bind_eq_ok.1 h
    obtain ⟨-, rfl⟩ := by simpa using h
    exact ⟨results, hrun⟩

/-- **What `Replace` returns.** -/
theorem replace_ok (hs : s.Inv) {r : PartitionedReplaceResult}
    (hadd : addOffset keys.ty keys.keys offset = .ok ks)
    (hgroups : ReplaceGroups assign s.numParts ks groups offsets)
    (h : s.replace assign fuel keys offsets offset = .ok r s') :
    ∃ ls, s.LookedAll ks groups ls s' ∧ (∀ l ∈ ls, ∀ x ∈ l, x.2 ≠ .absent) ∧
      r.positions.length = ks.length ∧
      (∀ c ∈ (s.replacedCells ls).flatten, r.positions[c.index]? = some c.position) ∧
      r.pointers = (s.replacedCells ls).flatten.map BatchCell.pointer ∧
      r.offsets = offsetsFrom 0 (groups.map List.length) := by
  obtain ⟨results, hrun⟩ := policies_of_replace hs hadd hgroups h
  obtain ⟨ls₀, ls, positions, -, -, -, hlook, habs, heq, hlen, hget⟩ :=
    replace_of_policies hs hadd hgroups hrun
  obtain ⟨rfl, -⟩ := Outcome.ok.inj (h.symm.trans heq)
  exact ⟨ls, hlook, habs, hlen, hget, rfl, rfl⟩

end Calls

end PartitionedCachePolicy

end DglAscend.Graphbolt
