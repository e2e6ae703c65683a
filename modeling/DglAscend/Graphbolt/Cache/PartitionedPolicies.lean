import DglAscend.Graphbolt.Cache.Partition
import DglAscend.Graphbolt.Cache.PolicyRun
import Mathlib.Data.List.GetD

/-!
# The policies of a partitioned policy

A call on a partitioned policy runs a call on each of its policies, with the keys of one group
of indices each.  `LookedAll` says what all of them did, one trace for each policy, labelled with
the indices into the whole batch.
-/

namespace DglAscend.Graphbolt

/-! ## Groups of indices -/

/-- The keys at the indices `is`, with these indices. -/
def keysAt (keys : List ℤ) (is : List ℕ) : List (ℤ × ℕ) := is.map fun i => (keys.getD i 0, i)

variable (keys : List ℤ)

@[simp] lemma map_fst_keysAt (is : List ℕ) :
    (keysAt keys is).map Prod.fst = is.map fun i => keys.getD i 0 := by
  simp [keysAt]

lemma keysAt_range : keysAt keys (List.range keys.length) = keys.zipIdx := by
  refine List.ext_getElem? fun i => ?_
  rw [keysAt, List.getElem?_map, List.getElem?_zipIdx]
  by_cases hi : i < keys.length
  · rw [List.getElem?_range hi, List.getElem?_eq_getElem hi, Option.map_some, Option.map_some,
      List.getD_eq_getElem _ _ hi, Nat.zero_add]
  · rw [List.getElem?_eq_none (by simpa using hi), List.getElem?_eq_none (by omega)]
    rfl

/-- The tensors of keys that are grouped as in `groups`. -/
def PartitionResult.ofGroups (keys : List ℤ) (groups : List (List ℕ)) : PartitionResult where
  offsets := offsetsFrom 0 (groups.map List.length)
  indices := groups.flatten
  permutedKeys := groups.flatten.map fun i => keys.getD i 0

/-- The groups that `Partition` makes. -/
def partGroups (assign : PartAssignment) (n : ℕ) (keys : List ℤ) : List (List ℕ) :=
  (List.range n).map (partIndices assign n keys)

lemma bucketStart_offsets (part : ℕ → ℕ) (N n : ℕ) :
    (List.range (n + 1)).map (fun p => (bucketStart part N p : ℤ)) =
      offsetsFrom 0 ((List.range n).map fun p => (bucket part N p).length) := by
  refine List.ext_getElem (by simp) fun p h1 h2 => ?_
  have hp : p < n + 1 := by simpa using h1
  have hget := getD_offsetsFrom 0 ((List.range n).map fun p => (bucket part N p).length)
    (p := p) (by simp; omega)
  rw [List.getD_eq_getElem _ _ h2] at hget
  rw [hget, List.getElem_map, List.getElem_range, zero_add, ← List.map_take, List.take_range,
    min_eq_left (by omega)]
  simp only [length_bucket, bucketStart]

lemma groupedKeys_eq (assign : PartAssignment) (n : ℕ) (keys : List ℤ) :
    groupedKeys assign n keys = .ofGroups keys (partGroups assign n keys) := by
  rw [groupedKeys, PartitionResult.ofGroups, bucketStart_offsets, partGroups, List.map_map,
    bucketOrder, List.flatMap]
  rfl

namespace PartitionedCachePolicy

variable {kind : PolicyKind} {s s' : PartitionedCachePolicy kind} {groups : List (List ℕ)}

/-- Each policy is given the keys of its group. -/
lemma permutedSlice_ofGroups {p : ℕ} {g : List ℕ} (hg : groups[p]? = some g) :
    permutedSlice (.ofGroups keys groups) p = (keysAt keys g).map Prod.fst := by
  rw [permutedSlice, PartitionResult.ofGroups, nthSlice_map, nthSlice_flatten hg, map_fst_keysAt]

/-- The index `j` of a policy is the index `g[j]` of the batch. -/
lemma indices_ofGroups {p j : ℕ} {g : List ℕ} (hg : groups[p]? = some g) (hj : j < g.length) :
    (PartitionResult.ofGroups keys groups).indices.getD
      (((PartitionResult.ofGroups keys groups).offsets.getD p 0).toNat + j) 0 = g[j] := by
  have hget : (nthSlice groups.flatten (offsetsFrom 0 (groups.map List.length)) p)[j]? =
      some g[j] := by
    rw [nthSlice_flatten hg, List.getElem?_eq_getElem hj]
  rw [PartitionResult.ofGroups, List.getD_eq_getElem?_getD, getElem?_of_nthSlice hget,
    Option.getD_some]

/-! ## Running a call on every policy -/

section ForEach

variable {σ β : Type} {call : ℕ → σ → Outcome CacheError σ β} {ss ss' : List σ}

/-- A call on every policy returns exactly when each of them does. -/
lemma forEachPolicy_eq_ok {i : ℕ} {bs : List β} :
    forEachPolicy call i ss = .ok bs ss' ↔ bs.length = ss.length ∧ ss'.length = ss.length ∧
      ∀ p t b t', ss[p]? = some t → bs[p]? = some b → ss'[p]? = some t' →
        call (i + p) t = .ok b t' := by
  induction ss generalizing i bs ss' with
  | nil =>
      rw [forEachPolicy]
      constructor
      · intro h
        obtain ⟨rfl, rfl⟩ := by simpa using h
        simp
      · rintro ⟨hbs, hss', -⟩
        obtain rfl := List.eq_nil_of_length_eq_zero hbs
        obtain rfl := List.eq_nil_of_length_eq_zero hss'
        rfl
  | cons t ss ih =>
      constructor
      · intro h
        cases hcall : call i t with
        | ok b t' =>
            rw [forEachPolicy, hcall] at h
            obtain ⟨bs₁, ss₁, hrest, rfl, rfl⟩ := Outcome.map_eq_ok.1 h
            obtain ⟨hbs, hss', hpoint⟩ := ih.1 hrest
            refine ⟨by simp [hbs], by simp [hss'], fun p t₁ b₁ t₁' h1 h2 h3 => ?_⟩
            cases p with
            | zero => simp_all
            | succ p =>
                have := hpoint p t₁ b₁ t₁' (by simpa using h1) (by simpa using h2) (by simpa using h3)
                rwa [show i + (p + 1) = i + 1 + p by omega]
        | error e t' => simp [forEachPolicy, hcall] at h
        | timeout => simp [forEachPolicy, hcall] at h
      · rintro ⟨hbs, hss', hpoint⟩
        match bs, ss', hbs, hss' with
        | b :: bs, t' :: ss', hbs, hss' =>
            have hcall := hpoint 0 t b t' rfl rfl rfl
            have hrest := ih.2 ⟨by simpa using hbs, by simpa using hss',
              fun p t₁ b₁ t₁' h1 h2 h3 => by
                have := hpoint (p + 1) t₁ b₁ t₁' (by simpa) (by simpa) (by simpa)
                rwa [show i + (p + 1) = i + 1 + p by omega] at this⟩
            rw [Nat.add_zero] at hcall
            rw [forEachPolicy, hcall, hrest]
            rfl

lemma forEachPolicy_congr {call' : ℕ → σ → Outcome CacheError σ β} {i : ℕ}
    (h : ∀ p < ss.length, call (i + p) = call' (i + p)) :
    forEachPolicy call i ss = forEachPolicy call' i ss := by
  induction ss generalizing i with
  | nil => rfl
  | cons t ss ih =>
      have h0 := h 0 (Nat.succ_pos _)
      rw [Nat.add_zero] at h0
      have ih := ih (i := i + 1) fun p hp => by
        have := h (p + 1) (Nat.succ_lt_succ hp)
        rwa [show i + (p + 1) = i + 1 + p by omega] at this
      rw [forEachPolicy, forEachPolicy, h0, ih]

/-- If every policy returns, so does the call on all of them. -/
lemma exists_forEachPolicy {i : ℕ}
    (h : ∀ p t, ss[p]? = some t → ∃ b t', call (i + p) t = .ok b t') :
    ∃ bs ss', forEachPolicy call i ss = .ok bs ss' := by
  induction ss generalizing i with
  | nil => exact ⟨[], [], rfl⟩
  | cons t ss ih =>
      obtain ⟨b, t', hcall⟩ := h 0 t rfl
      obtain ⟨bs, ss', hrest⟩ := ih (i := i + 1) fun p t₁ ht₁ => by
        have := h (p + 1) t₁ (by simpa)
        rwa [show i + (p + 1) = i + 1 + p by omega] at this
      rw [Nat.add_zero] at hcall
      exact ⟨b :: bs, t' :: ss', by rw [forEachPolicy, hcall, hrest]; rfl⟩

end ForEach

lemma onPolicies_eq_ok {β : Type} {call : ℕ → CachePolicy kind.Queues →
    Outcome CacheError (CachePolicy kind.Queues) β} {bs : List β} :
    s.onPolicies call = .ok bs s' ↔ s'.capacity = s.capacity ∧ bs.length = s.numParts ∧
      s'.numParts = s.numParts ∧
      ∀ p t b t', s.policies[p]? = some t → bs[p]? = some b → s'.policies[p]? = some t' →
        call p t = .ok b t' := by
  have hstate (ss' : List (CachePolicy kind.Queues)) :
      ({ s with policies := ss' } : PartitionedCachePolicy kind) = s' ↔
        s'.capacity = s.capacity ∧ s'.policies = ss' := by
    cases s
    cases s'
    simp [eq_comm]
  rw [onPolicies, Outcome.map_eq_ok]
  constructor
  · rintro ⟨bs', ss', hrun, rfl, hs'⟩
    obtain ⟨hcap, rfl⟩ := (hstate ss').1 hs'
    obtain ⟨hbs, hss', hpoint⟩ := forEachPolicy_eq_ok.1 hrun
    exact ⟨hcap, hbs, hss', by simpa using hpoint⟩
  · rintro ⟨hcap, hbs, hss', hpoint⟩
    exact ⟨bs, s'.policies, forEachPolicy_eq_ok.2 ⟨hbs, hss', by simpa using hpoint⟩, rfl,
      (hstate _).2 ⟨hcap, rfl⟩⟩

lemma onPolicies_congr {β : Type} {call call' : ℕ → CachePolicy kind.Queues →
    Outcome CacheError (CachePolicy kind.Queues) β} (h : ∀ p < s.numParts, call p = call' p) :
    s.onPolicies call = s.onPolicies call' := by
  rw [onPolicies, onPolicies, forEachPolicy_congr]
  intro p hp
  rw [Nat.zero_add]
  exact h p hp

/-! ## The invariant -/

/-- Every policy satisfies its invariant and has the capacity of its share. -/
structure Inv (s : PartitionedCachePolicy kind) : Prop where
  numParts_pos : 0 < s.numParts
  policy : ∀ p t, s.policies[p]? = some t →
    t.Inv ∧ t.capacity = partCapacity s.capacity s.numParts p

/-- `ls` are the traces of lookups of the keys at the indices `groups` that lead from `s` to
`s'`, one for each policy. -/
structure LookedAll (s : PartitionedCachePolicy kind) (keys : List ℤ) (groups : List (List ℕ))
    (ls : List Trace) (s' : PartitionedCachePolicy kind) : Prop where
  capacity_eq : s'.capacity = s.capacity
  numParts_eq : s'.numParts = s.numParts
  length_groups : groups.length = s.numParts
  length_traces : ls.length = s.numParts
  looked : ∀ (p : ℕ) t g l t', s.policies[p]? = some t → groups[p]? = some g → ls[p]? = some l →
    s'.policies[p]? = some t' → t.Looked (keysAt keys g) l t'

/-- What a policy of the state after the lookups comes from. -/
lemma LookedAll.exists_before {keys : List ℤ} {ls : List Trace} (h : s.LookedAll keys groups ls s')
    {p : ℕ} {t' : CachePolicy kind.Queues} (ht' : s'.policies[p]? = some t') :
    ∃ t g l, s.policies[p]? = some t ∧ groups[p]? = some g ∧ ls[p]? = some l ∧
      t.Looked (keysAt keys g) l t' := by
  have hp : p < s.numParts := h.numParts_eq ▸ (List.getElem?_eq_some_iff.1 ht').1
  have hg : p < groups.length := by rw [h.length_groups]; exact hp
  have hl : p < ls.length := by rw [h.length_traces]; exact hp
  exact ⟨_, _, _, List.getElem?_eq_getElem hp, List.getElem?_eq_getElem hg,
    List.getElem?_eq_getElem hl, h.looked p _ _ _ _ (List.getElem?_eq_getElem hp)
      (List.getElem?_eq_getElem hg) (List.getElem?_eq_getElem hl) ht'⟩

/-- **Step lemma**: lookups keep the invariant. -/
theorem LookedAll.inv {keys : List ℤ} {ls : List Trace} (h : s.LookedAll keys groups ls s')
    (hs : s.Inv) : s'.Inv where
  numParts_pos := by
    rw [h.numParts_eq]
    exact hs.numParts_pos
  policy := by
    intro p t' ht'
    obtain ⟨t, g, l, ht, -, -, hlook⟩ := h.exists_before ht'
    refine ⟨hlook.inv, ?_⟩
    rw [hlook.capacity_eq, (hs.policy p t ht).2, h.capacity_eq, h.numParts_eq]

end PartitionedCachePolicy

end DglAscend.Graphbolt
