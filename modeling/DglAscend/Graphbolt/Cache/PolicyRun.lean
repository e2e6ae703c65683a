import DglAscend.Graphbolt.Cache.Batches

/-!
# Runs of a policy

`CachePolicy.Step` is one returning call on a policy, `PolicyKind.Reachable` what sequences of
such calls reach from the constructor.  Every reachable policy satisfies `RepInv`, the
invariant of its representation.
-/

namespace DglAscend.Graphbolt

open PolicyQueues

namespace CachePolicy

variable {e : SlotEntry ℤ}

section Completions

variable {Q : Type} [PolicyQueues Q] [LawfulQueues Q] {write : Bool}

omit [LawfulQueues Q] in
/-- `EndUse` through a pointer is an addition to the count of its entry. -/
lemma endUse_some {a : ℕ} {s s' : CachePolicy Q} (h : endUse write (some a) s = .ok () s') :
    s' = { s with
      queues := modify a (CacheKey.addReference (if write then 1 else -1)) s.queues } := by
  simp only [endUse] at h
  split at h
  · simp at h
  · simpa using h.symm

omit [LawfulQueues Q] in
lemma endUse_none {s s' : CachePolicy Q} (h : endUse write none s = .ok () s') :
    s' = s ∧ write = true := by
  cases write
  · simp [endUse] at h
  · exact ⟨by simpa [endUse] using h.symm, rfl⟩

lemma Inv.endUse {s s' : CachePolicy Q} (hs : s.Inv) {p : Option ℕ}
    (h : endUse write p s = .ok () s') : s'.Inv := by
  cases p with
  | none => rwa [(endUse_none h).1]
  | some a =>
      rw [endUse_some h]
      exact hs.addReference a _

lemma Inv.completed {s s' : CachePolicy Q} (hs : s.Inv) {ps : List (Option ℕ)}
    (h : readingWritingCompletedImpl write ps s = .ok () s') : s'.Inv := by
  refine Outcome.loop_invariant (P := fun _ _ t => t.Inv) h hs ?_
  exact fun _ _ _ _ _ _ _ _ ht hrun => ht.endUse hrun

lemma completed_stays {s s' : CachePolicy Q} {ps : List (Option ℕ)}
    (h : readingWritingCompletedImpl write ps s = .ok () s') (he : e ∈ s.directory.resident) :
    ∃ e' ∈ s'.directory.resident, e'.addr = e.addr ∧ e'.key = e.key ∧ e'.slot = e.slot := by
  refine Outcome.loop_invariant (P := fun _ _ t => ∃ e' ∈ t.directory.resident,
    e'.addr = e.addr ∧ e'.key = e.key ∧ e'.slot = e.slot) h ⟨e, he, rfl, rfl, rfl⟩ ?_
  rintro _ p _ _ t _ t' _ ⟨e', he', ha, hk, hs⟩ hrun
  cases p with
  | none => exact ⟨e', by rwa [(endUse_none hrun).1], ha, hk, hs⟩
  | some b =>
      rw [endUse_some hrun, directory_addReference]
      exact ⟨_, Directory.mem_repin.2 ⟨e', he', rfl⟩, by simpa, by simpa, by simpa⟩

/-- An entry that is in use stays during a batch that returns. -/
lemma Looked.stays {s s' : CachePolicy Q} (hs : s.Inv) {keys : List (ℤ × ℕ)} {l : Trace}
    (h : s.Looked keys l s') (he : e ∈ s.directory.resident) (hp : e.pins ≠ 0) :
    ∃ e' ∈ s'.directory.resident, e'.addr = e.addr ∧ e'.key = e.key ∧ e'.slot = e.slot := by
  obtain ⟨e', he', ha, hk, hslot, -⟩ := h.run.stays hs.wellFormed (by simp [int8Max]) he hp
  exact ⟨e', he', ha, hk, hslot⟩

end Completions

/-- A call on a policy that returns. -/
inductive Step {Q : Type} [PolicyQueues Q] (s : CachePolicy Q) : CachePolicy Q → Prop where
  | query {keys : List ℤ} {r : QueryResult} {s' : CachePolicy Q}
      (h : queryImpl keys s = .ok r s') : Step s s'
  | queryAndReplace {fuel : ℕ} {keys : List ℤ} {r : QueryAndReplaceResult} {s' : CachePolicy Q}
      (h : queryAndReplaceImpl fuel keys s = .ok r s') : Step s s'
  | replace {fuel : ℕ} {keys : List ℤ} {r : ReplaceResult} {s' : CachePolicy Q}
      (h : replaceImpl fuel keys s = .ok r s') : Step s s'
  | readingCompleted {pointers : List (Option ℕ)} {s' : CachePolicy Q}
      (h : readingCompleted pointers s = .ok () s') : Step s s'
  | writingCompleted {pointers : List (Option ℕ)} {s' : CachePolicy Q}
      (h : writingCompleted pointers s = .ok () s') : Step s s'

section Step

variable {Q : Type} [PolicyQueues Q] [LawfulQueues Q]

/-- **Step lemma**: a returning call keeps the invariant. -/
theorem Step.inv {s s' : CachePolicy Q} (h : s.Step s') (hs : s.Inv) : s'.Inv := by
  cases h with
  | query h => obtain ⟨l, hl, -⟩ := queryImpl_ok hs h; exact hl.inv
  | queryAndReplace h => obtain ⟨l, hl, -⟩ := queryAndReplaceImpl_ok hs h; exact hl.inv
  | replace h => obtain ⟨l, hl, -⟩ := replaceImpl_ok hs h; exact hl.inv
  | readingCompleted h => exact hs.completed h
  | writingCompleted h => exact hs.completed h

/-- A returning call removes no entry that was in use when it began. -/
theorem Step.stays {s s' : CachePolicy Q} (h : s.Step s') (hs : s.Inv)
    (he : e ∈ s.directory.resident) (hp : e.pins ≠ 0) :
    ∃ e' ∈ s'.directory.resident, e'.addr = e.addr ∧ e'.key = e.key ∧ e'.slot = e.slot := by
  cases h with
  | query h => obtain ⟨l, hl, -⟩ := queryImpl_ok hs h; exact hl.stays hs he hp
  | queryAndReplace h =>
      obtain ⟨l, hl, -⟩ := queryAndReplaceImpl_ok hs h
      exact hl.stays hs he hp
  | replace h => obtain ⟨l, hl, -⟩ := replaceImpl_ok hs h; exact hl.stays hs he hp
  | readingCompleted h => exact completed_stays h he
  | writingCompleted h => exact completed_stays h he

end Step

end CachePolicy

/-! ## Reachable policies -/

/-- The policies that returning calls reach from the constructor. -/
inductive PolicyKind.Reachable (kind : PolicyKind) (capacity : ℕ) :
    CachePolicy kind.Queues → Prop where
  | create {s : CachePolicy kind.Queues} (h : kind.create capacity = .ok s) :
      Reachable kind capacity s
  | step {s s' : CachePolicy kind.Queues} (h : Reachable kind capacity s) (hstep : s.Step s') :
      Reachable kind capacity s'

namespace PolicyKind

variable {kind : PolicyKind} {capacity : ℕ} {s : CachePolicy kind.Queues}

lemma create_eq_ok (h : kind.create capacity = .ok s) :
    kind.Accepts capacity ∧ s = CachePolicy.create capacity (kind.queues capacity) := by
  unfold create at h
  cases hc : kind.checkCapacity capacity with
  | ok u => exact ⟨hc, by rw [hc] at h; cases h; rfl⟩
  | error e => rw [hc] at h; cases h

lemma inv_create (h : kind.create capacity = .ok s) : s.Inv := by
  obtain ⟨hacc, rfl⟩ := create_eq_ok h
  have hres : (CachePolicy.create capacity (kind.queues capacity)).directory.resident = 0 := by
    simp [CachePolicy.create, CachePolicy.directory]
  refine ⟨⟨by simp [hres], by simp [hres], fun k a => ?_, fun k => ?_, by rw [hres]; rfl,
    Nat.zero_le _, by simp [hres]⟩, valid_queues hacc⟩
  · rw [hres]
    simp [CachePolicy.create]
  · simp [CachePolicy.create]

/-- **Run lemma**: every reachable policy satisfies the invariant. -/
theorem Reachable.inv (h : kind.Reachable capacity s) : s.Inv := by
  induction h with
  | create h => exact inv_create h
  | step _ hstep ih => exact hstep.inv ih

end PolicyKind

/-! ## Running calls

A list of calls, to reach a given state by evaluation. -/

inductive Call where
  | query (keys : List ℤ)
  | queryAndReplace (keys : List ℤ)
  | replace (keys : List ℤ)
  | readingCompleted (pointers : List (Option ℕ))
  | writingCompleted (pointers : List (Option ℕ))

variable {capacity fuel : ℕ} {kind : PolicyKind} {s s' : CachePolicy kind.Queues}

namespace Call

variable {Q : Type} [PolicyQueues Q]

/-- The state after a call that returns. -/
def run (fuel : ℕ) (s : CachePolicy Q) : Call → Option (CachePolicy Q)
  | query keys => (s.queryImpl keys).state?
  | queryAndReplace keys => (s.queryAndReplaceImpl fuel keys).state?
  | replace keys => (s.replaceImpl fuel keys).state?
  | readingCompleted pointers => (s.readingCompleted pointers).state?
  | writingCompleted pointers => (s.writingCompleted pointers).state?

lemma step_of_run {s s' : CachePolicy Q} {call : Call} (h : call.run fuel s = some s') :
    s.Step s' := by
  cases call with
  | query keys => obtain ⟨r, hr⟩ := Outcome.state?_eq_some.1 h; exact .query hr
  | queryAndReplace keys => obtain ⟨r, hr⟩ := Outcome.state?_eq_some.1 h; exact .queryAndReplace hr
  | replace keys => obtain ⟨r, hr⟩ := Outcome.state?_eq_some.1 h; exact .replace hr
  | readingCompleted ps => obtain ⟨r, hr⟩ := Outcome.state?_eq_some.1 h; exact .readingCompleted hr
  | writingCompleted ps => obtain ⟨r, hr⟩ := Outcome.state?_eq_some.1 h; exact .writingCompleted hr

/-- The state that `calls` reach from `s`. -/
def runAll (fuel : ℕ) (calls : List Call) (s : CachePolicy Q) : Option (CachePolicy Q) :=
  calls.foldlM (run fuel) s

lemma steps_of_runAll {fuel : ℕ} {calls : List Call} {s s' : CachePolicy Q}
    (h : runAll fuel calls s = some s') : Relation.ReflTransGen CachePolicy.Step s s' := by
  induction calls generalizing s with
  | nil =>
      obtain rfl : s = s' := by simpa [runAll] using h
      exact .refl
  | cons call calls ih =>
      simp only [runAll, List.foldlM_cons, Option.bind_eq_bind, Option.bind_eq_some_iff] at h
      obtain ⟨t, ht, hrest⟩ := h
      exact .head (step_of_run ht) (ih hrest)

/-- What a list of calls reaches from the constructor. -/
lemma reachable_of_runAll {calls : List Call} (hs : kind.Reachable capacity s)
    (h : runAll fuel calls s = some s') : kind.Reachable capacity s' := by
  have hrun := steps_of_runAll h
  clear h
  induction hrun with
  | refl => exact hs
  | tail _ hstep ih => exact .step ih hstep

end Call

/-! ## The invariant of the representation -/

/-- The recorded size of the small queue of an S3-FIFO policy is its length. -/
def PolicyKind.SmallQueueSizeEq : (kind : PolicyKind) → kind.Queues → Prop
  | .s3Fifo, q => S3FifoQueues.smallQueueSize q = (S3FifoQueues.smallQueue q).length
  | _, _ => True

/-- The invariant of the representation of a policy, in terms of its map and its lists. -/
structure RepInv {kind : PolicyKind} (s : CachePolicy kind.Queues) : Prop where
  /-- the map sends the resident keys, and no other, to the nodes that hold them -/
  map_iff : ∀ key a, s.keyToCacheKey key = some (some a) ↔
    ∃ c ∈ entries s.queues, c.addr = a ∧ c.getKey = key
  map_ne_sentinel : ∀ key, s.keyToCacheKey key ≠ some none
  addr_nodup : ((entries s.queues).map CacheKey.addr).Nodup
  key_nodup : ((entries s.queues).map CacheKey.getKey).Nodup
  /-- the positions are those below `cache_usage_`, each once -/
  pos_nodup : ((entries s.queues).map CacheKey.getPos).Nodup
  pos_iff : ∀ p, (∃ c ∈ entries s.queues, c.getPos = p) ↔ 0 ≤ p ∧ p < s.cacheUsage
  usage_le : s.cacheUsage ≤ s.capacity
  length_eq : (entries s.queues).length = s.cacheUsage
  small_eq : kind.SmallQueueSizeEq s.queues

lemma smallQueueSizeEq_of_valid {q : kind.Queues} (h : LawfulQueues.Valid capacity q) :
    kind.SmallQueueSizeEq q := by
  cases kind with
  | s3Fifo => exact S3FifoQueues.Valid.size_eq h
  | sieve => trivial
  | lru => trivial
  | clock => trivial

lemma CachePolicy.Inv.key_nodup {Q : Type} [PolicyQueues Q] [LawfulQueues Q] {s : CachePolicy Q}
    (h : s.Inv) : ((entries s.queues).map CacheKey.getKey).Nodup := by
  have hnodup := (Multiset.Nodup.of_map _ h.wellFormed.addr_nodup).map_on
    fun e he e' he' => h.wellFormed.eq_of_key he he'
  simpa [directory, Function.comp_def] using hnodup

/-- Nor do they while the node of an absent key waits for its slot. -/
lemma CachePolicy.Inv.key_nodup_pushed {Q : Type} [PolicyQueues Q] [LawfulQueues Q]
    {s : CachePolicy Q} (h : s.Inv) {key : ℤ} (hkey : 0 ≤ key ∧ key < 2 ^ 48)
    (hk : s.keyToCacheKey key = none) :
    ((entries (pushed key s).queues).map CacheKey.getKey).Nodup := by
  have hkeys (t : CachePolicy Q) : t.directory.resident.map SlotEntry.key =
      ((entries t.queues).map CacheKey.getKey : List ℤ) := by
    simp [directory, Function.comp_def]
  rw [← Multiset.coe_nodup, ← hkeys, resident_pushed hkey, Multiset.map_cons,
    Multiset.nodup_cons, hkeys s, Multiset.coe_nodup]
  refine ⟨fun hmem => ?_, h.key_nodup⟩
  obtain ⟨c, hc, hck⟩ := List.mem_map.1 (Multiset.mem_coe.1 hmem)
  exact h.wellFormed.key_ne_of_absent hk (mem_resident.2 ⟨c, hc, rfl⟩) hck

theorem CachePolicy.repInv_of_inv (h : s.Inv) : RepInv s where
  map_iff := by
    intro key a
    rw [← directory_index, h.wellFormed.index_iff]
    simp [directory]
  map_ne_sentinel := h.wellFormed.index_ne_sentinel
  addr_nodup := by
    have := h.wellFormed.addr_nodup
    simpa [directory, Function.comp_def] using this
  key_nodup := h.key_nodup
  pos_nodup := by
    have hslots := h.wellFormed.slots_nodup
    simp only [directory, Multiset.map_coe, List.map_map, Multiset.coe_nodup] at hslots
    exact hslots
  pos_iff := by
    intro p
    have hslots := congrArg (fun m => p ∈ m) h.wellFormed.slots_eq
    simp only [directory, Multiset.map_coe, List.map_map, Multiset.mem_coe, List.mem_map,
      Function.comp_apply, CacheKey.entry_slot, Multiset.mem_map, Multiset.mem_range,
      eq_iff_iff] at hslots
    rw [show (∃ c ∈ entries s.queues, c.getPos = p) ↔ _ from hslots]
    constructor
    · rintro ⟨i, hi, rfl⟩
      omega
    · rintro ⟨h0, hlt⟩
      exact ⟨p.toNat, by omega, by omega⟩
  usage_le := h.wellFormed.used_le
  length_eq := by
    have := h.wellFormed.card_resident
    simpa [directory] using this
  small_eq := smallQueueSizeEq_of_valid h.valid

/-- An eviction keeps every node that is in use, in whatever state it runs. -/
theorem CachePolicy.evict_keeps {Q : Type} [PolicyQueues Q] [LawfulQueues Q] {s s' : CachePolicy Q}
    {pos : ℤ} (h : evict fuel s = .ok pos s') {c : CacheKey} (hc : c ∈ entries s.queues)
    (huse : c.inUse = true) : ∃ c' ∈ entries s'.queues, c'.entry = c.entry := by
  unfold evict at h
  split at h
  · obtain ⟨-, rfl⟩ := by simpa using h
    exact ⟨c, hc, rfl⟩
  · obtain ⟨v, t, hv, hs'⟩ := Outcome.bind_eq_ok.1 h
    obtain ⟨v', q, hvictim, rfl, rfl⟩ := Outcome.map_eq_ok.1 hv
    obtain ⟨-, rfl⟩ := by simpa using hs'
    obtain ⟨hidle, hperm⟩ := LawfulQueues.victim_ok hvictim
    have hmem := hperm.subset (List.mem_map_of_mem (f := CacheKey.entry) hc)
    rcases List.mem_cons.1 hmem with heq | hmem
    · have hcount : c.referenceCount = v'.referenceCount := congrArg SlotEntry.pins heq
      exact absurd (hcount.trans hidle) (CacheKey.inUse_eq_true.1 huse)
    · exact List.mem_map.1 hmem

namespace PolicyKind

/-- **The representation invariant** holds in every state that returning calls reach; a further
call removes no entry that is being read or written, and neither does any single eviction. -/
theorem repInv_of_reachable {kind : PolicyKind} {capacity : ℕ} {s : CachePolicy kind.Queues}
    (h : kind.Reachable capacity s) :
    RepInv s ∧
      (∀ s', s.Step s' → ∀ c ∈ entries s.queues, c.inUse = true →
        ∃ c' ∈ entries s'.queues,
          c'.addr = c.addr ∧ c'.getKey = c.getKey ∧ c'.getPos = c.getPos) ∧
      ∀ (t t' : CachePolicy kind.Queues) (fuel : ℕ) (pos : ℤ), t.evict fuel = .ok pos t' →
        ∀ c ∈ entries t.queues, c.inUse = true → ∃ c' ∈ entries t'.queues, c'.entry = c.entry := by
  refine ⟨CachePolicy.repInv_of_inv h.inv, fun s' hstep c hc huse => ?_, fun t t' fuel pos hrun c hc huse => ?_⟩
  · obtain ⟨e, he, ha, hk, hs⟩ := hstep.stays h.inv (CachePolicy.mem_resident.2 ⟨c, hc, rfl⟩)
      (CacheKey.inUse_eq_true.1 huse)
    obtain ⟨c', hc', rfl⟩ := CachePolicy.mem_resident.1 he
    exact ⟨c', hc', ha, hk, hs⟩
  · exact CachePolicy.evict_keeps hrun hc huse

/-- An LRU policy whose two slots are being written. -/
theorem repInv_of_reachable_lru :
    ∃ s : CachePolicy lru.Queues, s.cacheUsage = 2 ∧ s.keyToCacheKey 5 = some (some 1) ∧ RepInv s :=
  ⟨_, rfl, rfl, (repInv_of_reachable (.step (@Reachable.create lru 2 _ rfl)
    (@CachePolicy.Step.queryAndReplace _ _ _ 1 [3, 5] _ _ rfl))).1⟩

end PolicyKind

end DglAscend.Graphbolt
