import DglAscend.Graphbolt.Cache.PolicyRun

/-!
# When an insertion ends

An insertion into a full cache runs the eviction loop of the policy until it comes to an idle
node.  SIEVE, LRU and CLOCK come to every node; S3-FIFO leaves the front of its small queue out.
The check that is to report a batch that is too large stands behind the loop, which never ends
for such a batch.
-/

namespace DglAscend.Graphbolt

open PolicyQueues

/-! ## S3-FIFO -/

variable {q q' : S3FifoQueues}

namespace S3FifoQueues

/-- The part of the small queue that `EvictSmallQueue` comes to. -/
def visited (q : S3FifoQueues) : List CacheKey := q.smallQueue.drop q.smallQueueSizeTarget

/-- `EvictSmallQueue` either gives a node that it visits, or moves all of these to the front of
the main queue. -/
lemma evictSmallLoop_visits {n : ℕ} {r : Option CacheKey} (h : evictSmallLoop n q = .ok r q') :
    (∀ v ∈ r, v ∈ q.smallQueue.drop (q.smallQueue.length - n)) ∧
      (r = none → q'.mainQueue =
        (q.smallQueue.drop (q.smallQueue.length - n)).map CacheKey.resetFreq ++ q.mainQueue) := by
  induction n generalizing q with
  | zero =>
      obtain ⟨rfl, rfl⟩ : none = r ∧ q = q' := by simpa [evictSmallLoop] using h
      simp
  | succ n ih =>
      rcases List.eq_nil_or_concat' q.smallQueue with hnil | ⟨rest, c, hc⟩
      · simp [evictSmallLoop, hnil] at h
      have hdrop : q.smallQueue.drop (q.smallQueue.length - (n + 1)) =
          rest.drop (rest.length - n) ++ [c] := by
        rw [hc, List.length_append, List.length_singleton, Nat.add_sub_add_right,
          List.drop_append_of_le_length (Nat.sub_le _ _)]
      simp only [evictSmallLoop, hc, popBack?_concat] at h
      rw [hdrop]
      split at h
      · obtain ⟨hsome, hnone⟩ := ih h
        refine ⟨fun v hv => List.mem_append_left _ (hsome v hv), fun hr => ?_⟩
        rw [hnone hr]
        simp
      · obtain ⟨rfl, -⟩ := by simpa using h
        simp

lemma Valid.visited_eq {capacity : ℕ} (h : q.Valid capacity) :
    q.smallQueue.drop (q.smallQueue.length - (q.smallQueueSize - q.smallQueueSizeTarget)) =
      q.visited := by
  rw [h.size_eq, visited]
  by_cases hle : q.smallQueueSizeTarget ≤ q.smallQueue.length
  · rw [Nat.sub_sub_self hle]
  · rw [List.drop_of_length_le (by omega), List.drop_of_length_le (by omega)]

/-- **The loop of `Evict` ends exactly if it comes to an idle node**: one in the main queue or
in the part of the small queue above its target. -/
theorem exists_victim_ok_iff {capacity : ℕ} (h : q.Valid capacity) :
    (∃ n v q', q.victim n = .ok v q') ↔
      ∃ c ∈ q.visited ++ q.mainQueue, c.referenceCount = 0 := by
  constructor
  · rintro ⟨n, v, q', hrun⟩
    rcases victim_cases hrun with hsmall | ⟨q₁, hsmall, hmain⟩
    · have hvisit := (evictSmallLoop_visits hsmall).1 v rfl
      rw [h.visited_eq] at hvisit
      exact ⟨v, List.mem_append_left _ hvisit, (evictSmallLoop_ok hsmall).1 v rfl⟩
    · have hmain₁ := (evictSmallLoop_visits hsmall).2 rfl
      rw [h.visited_eq] at hmain₁
      obtain ⟨v', r, hrot, rfl, -⟩ := Outcome.map_eq_ok.1 hmain
      obtain ⟨hidle, hperm⟩ := rotateUntil_ok hrot
      have hcount := (hperm CacheKey.referenceCount fun _ => rfl).symm.subset List.mem_cons_self
      rw [hmain₁, List.map_append, List.map_map] at hcount
      rw [referenceCount_eq_zero_of_idle (Bool.eq_false_iff.1 hidle)] at hcount
      have hcount' : 0 ∈ (q.visited ++ q.mainQueue).map CacheKey.referenceCount := by
        rw [List.map_append]
        exact hcount
      exact List.mem_map.1 hcount'
  · rintro ⟨c, hc, hidle⟩
    have hle : q.smallQueueSize - q.smallQueueSizeTarget ≤ q.smallQueue.length := by
      rw [h.size_eq]; exact Nat.sub_le _ _
    obtain ⟨r, q₁, hsmall, -⟩ := exists_evictSmallLoop_ok hle
    cases r with
    | some v => exact ⟨0, v, q₁, by rw [victim, evictSmallQueue, hsmall]; rfl⟩
    | none =>
        have hmain := (evictSmallLoop_visits hsmall).2 rfl
        rw [h.visited_eq] at hmain
        obtain ⟨c', hc', hidle'⟩ : ∃ c' ∈ q₁.mainQueue, c'.referenceCount = 0 := by
          rw [hmain]
          rcases List.mem_append.1 hc with hc | hc
          · exact ⟨c.resetFreq, List.mem_append_left _ (List.mem_map_of_mem hc), hidle⟩
          · exact ⟨c, List.mem_append_right _ hc, hidle⟩
        -- Every turn of an idle node lowers its frequency.
        obtain ⟨n, v, r, hrot⟩ : ∃ n v r, rotateUntil CacheError.danglingPointer
            (fun c : CacheKey => c.freq > 0 || c.inUse) CacheKey.decrement n q₁.mainQueue =
              .ok v r := by
          refine exists_rotateUntil_ok (fun c : CacheKey => c.referenceCount = 0) CacheKey.freq
            (fun y hy hbusy => ⟨hy, ?_⟩) hc' hidle'
          have hfreq : 0 < y.freq := by
            simpa [CacheKey.inUse_eq_false.2 (show y.referenceCount = 0 from hy)] using hbusy
          exact Nat.sub_lt hfreq one_pos
        exact ⟨n, v, { q₁ with mainQueue := r }, by
          rw [victim, evictSmallQueue, hsmall, Outcome.bind_ok, evictMainQueue, hrot]; rfl⟩

end S3FifoQueues

/-! ## The other policies -/

section Rotations

variable {n : ℕ} {c : CacheKey}

lemma exists_rotateUntil_resetFreq {q : List CacheKey} (hc : c ∈ q) (hidle : c.referenceCount = 0) :
    ∃ n v r, rotateUntil CacheError.danglingPointer
      (fun c : CacheKey => c.freq ≠ 0 || c.inUse) CacheKey.resetFreq n q = .ok v r := by
  refine exists_rotateUntil_ok (fun c : CacheKey => c.referenceCount = 0) CacheKey.freq
    (fun y hy hbusy => ⟨hy, ?_⟩) hc hidle
  have hfreq : ¬y.freq = 0 := by
    simpa [CacheKey.inUse_eq_false.2 (show y.referenceCount = 0 from hy)] using hbusy
  exact Nat.pos_of_ne_zero hfreq

lemma SieveQueues.exists_victim_ok {q : SieveQueues} (hpos : 0 < q.hand)
    (hle : q.hand ≤ q.queue.length) (hc : c ∈ q.queue) (hidle : c.referenceCount = 0) :
    ∃ n v q', q.victim n = .ok v q' := by
  obtain ⟨n, v, r, hrot⟩ :=
    exists_rotateUntil_resetFreq (q.fromHand_perm.symm.subset hc) hidle
  rw [← SieveQueues.victim_eq_rotateUntil n hpos hle] at hrot
  obtain ⟨v', q', hrun, -⟩ := Outcome.map_eq_ok.1 hrot
  exact ⟨n, v', q', hrun⟩

lemma LruQueues.exists_victim_ok {q : LruQueues} (hc : c ∈ q.queue)
    (hidle : c.referenceCount = 0) : ∃ n v q', q.victim n = .ok v q' := by
  obtain ⟨n, v, r, hrot⟩ : ∃ n v r,
      rotateUntil CacheError.danglingPointer CacheKey.inUse id n q.queue = .ok v r :=
    exists_rotateUntil_ok (fun c : CacheKey => c.referenceCount = 0) (fun _ => 0)
      (fun y hy hbusy => absurd (CacheKey.inUse_eq_true.1 hbusy) (by simpa using hy)) hc hidle
  exact ⟨n, v, ⟨r⟩, by rw [LruQueues.victim, hrot]; rfl⟩

lemma ClockQueues.exists_victim_ok {q : ClockQueues} (hc : c ∈ q.queue)
    (hidle : c.referenceCount = 0) : ∃ n v q', q.victim n = .ok v q' := by
  obtain ⟨n, v, r, hrot⟩ := exists_rotateUntil_resetFreq hc hidle
  exact ⟨n, v, ⟨r⟩, by rw [ClockQueues.victim, hrot]; rfl⟩

end Rotations

/-! ## Insertions into a full cache -/

/-- Whether the eviction loop of an insertion of `key` comes to an idle node.  For S3-FIFO, a key
that is not a ghost enters the small queue first and pushes one more node over its target. -/
def PolicyKind.comesToIdle (key : ℤ) : (kind : PolicyKind) → kind.Queues → Bool
  | .s3Fifo, q =>
    let q : S3FifoQueues := q
    let kept := if key ∈ q.ghostSet then q.smallQueueSizeTarget else q.smallQueueSizeTarget - 1
    (q.smallQueue.drop kept ++ q.mainQueue).any fun c => c.referenceCount = 0
  | _, q => (entries q).any fun c => c.referenceCount = 0

/-- The new node of an S3-FIFO policy is being written; it changes nothing but the place at which
the small queue is cut. -/
lemma S3FifoQueues.idle_pushed_iff {key : ℤ} {addr : ℕ} (htarget : 0 < q.smallQueueSizeTarget) :
    (∃ c ∈ (pushFront (eraseGhost key q).1 (CacheKey.ofKey addr key)
        (eraseGhost key q).2).visited ++
      (pushFront (eraseGhost key q).1 (CacheKey.ofKey addr key) (eraseGhost key q).2).mainQueue,
      c.referenceCount = 0) ↔ PolicyKind.comesToIdle key .s3Fifo q = true := by
  have hnew : (CacheKey.ofKey addr key).referenceCount ≠ 0 := by simp [CacheKey.ofKey]
  simp only [PolicyKind.comesToIdle, List.any_eq_true, decide_eq_true_eq]
  by_cases hghost : key ∈ q.ghostSet
  · simp [eraseGhost, pushFront, visited, hghost, hnew, or_and_right, exists_or]
  · obtain ⟨n, hn⟩ := Nat.exists_eq_add_one.2 htarget
    simp [eraseGhost, pushFront, visited, hghost, hn]

namespace CachePolicy

/-- The insertion of an absent key ends, and evicts an idle node whose slot passes to the key. -/
def InsertEvictsIdle {Q : Type} [PolicyQueues Q] (key : ℤ) (s : CachePolicy Q) : Prop :=
  ∃ fuel c s', ((emplace key s).bind fun _ t => insert fuel key t) = .ok c s' ∧
    ∃ v ∈ entries s.queues, v.referenceCount = 0 ∧ c.getPos = v.getPos ∧
      ∀ c' ∈ entries s'.queues, c'.addr ≠ v.addr

section Insert

variable {Q : Type} [PolicyQueues Q] [LawfulQueues Q] {s : CachePolicy Q} {key : ℤ}

/-- An insertion into a full cache ends exactly if the eviction loop does. -/
lemma insertEvictsIdle_iff (hs : s.Inv) (hu : s.capacity ≤ s.cacheUsage)
    (hk : s.keyToCacheKey key = none) (hkey : 0 ≤ key ∧ key < 2 ^ 48) :
    s.InsertEvictsIdle key ↔ ∃ n v q', victim n (pushed key s).queues = .ok v q' := by
  have hann : emplace key s = .ok none (announce key s) := by simp [emplace, hk, announce]
  have hu' : ¬(pushed key s).cacheUsage < (pushed key s).capacity := not_lt.2 hu
  constructor
  · rintro ⟨fuel, c, s', hrun, -⟩
    rw [hann, Outcome.bind_ok, insert_eq_bind_evict hkey, evict, if_neg hu'] at hrun
    obtain ⟨pos, t, hevict, -⟩ := Outcome.bind_eq_ok.1 hrun
    obtain ⟨v, t', hvictim, -⟩ := Outcome.bind_eq_ok.1 hevict
    obtain ⟨v, q', hv, -⟩ := Outcome.map_eq_ok.1 hvictim
    exact ⟨fuel, v, q', hv⟩
  · rintro ⟨fuel, v, q', hv⟩
    obtain ⟨hmem, hidle, s', hrun, -, hd⟩ := insert_of_victim hs hkey hk hu hv
    obtain ⟨c, hc, hentry⟩ := mem_resident.1 hmem
    refine ⟨fuel, _, s', by rw [hann, Outcome.bind_ok, hrun], c, hc, ?_, ?_, ?_⟩
    · exact (congrArg SlotEntry.pins hentry).trans hidle
    · exact (congrArg SlotEntry.slot hentry).symm
    · intro c' hc' haddr
      have hmem' : c'.entry ∈ s'.directory.resident := mem_resident.2 ⟨c', hc', rfl⟩
      have haddr' : c'.entry.addr = v.entry.addr :=
        haddr.trans (congrArg SlotEntry.addr hentry)
      rw [hd] at hmem'
      simp only [Directory.replace] at hmem'
      rcases Multiset.mem_cons.1 hmem' with heq | hrest
      · have := hs.wellFormed.addr_lt _ hmem
        rw [← haddr', heq] at this
        exact lt_irrefl _ this
      · have hnodup : s.directory.resident.Nodup :=
          Multiset.Nodup.of_map _ hs.wellFormed.addr_nodup
        obtain ⟨hne, hold⟩ := hnodup.mem_erase_iff.1 hrest
        exact hne (hs.wellFormed.eq_of_addr hold hmem haddr')

/-- The loop of `Evict` settles on a node that was idle before the insertion. -/
lemma exists_idle_of_victim (hs : s.Inv) (hu : s.capacity ≤ s.cacheUsage)
    (hk : s.keyToCacheKey key = none) (hkey : 0 ≤ key ∧ key < 2 ^ 48) {n : ℕ} {v : CacheKey}
    {q : Q} (hv : victim n (pushed key s).queues = .ok v q) :
    ∃ c ∈ entries s.queues, c.referenceCount = 0 := by
  obtain ⟨hmem, hidle, -⟩ := insert_of_victim hs hkey hk hu hv
  obtain ⟨c, hc, hentry⟩ := mem_resident.1 hmem
  exact ⟨c, hc, (congrArg SlotEntry.pins hentry).trans hidle⟩

end Insert

/-- **The eviction loop of an insertion ends exactly if it comes to an idle node.** -/
theorem exists_victim_pushed_iff {kind : PolicyKind} {s : CachePolicy kind.Queues} (hs : s.Inv)
    {key : ℤ} (hu : s.capacity ≤ s.cacheUsage) (hk : s.keyToCacheKey key = none)
    (hkey : 0 ≤ key ∧ key < 2 ^ 48) :
    (∃ n v q', victim n (pushed key s).queues = .ok v q') ↔
      kind.comesToIdle key s.queues = true := by
  -- For a policy whose loop ends whenever some node is idle:
  have hany (hends : ∀ c ∈ entries (pushed key s).queues, c.referenceCount = 0 →
      ∃ n v q', victim n (pushed key s).queues = .ok v q') :
      (∃ n v q', victim n (pushed key s).queues = .ok v q') ↔
        (entries s.queues).any (fun c => c.referenceCount = 0) = true := by
    rw [List.any_eq_true]
    simp only [decide_eq_true_eq]
    refine ⟨fun ⟨n, v, q', hv⟩ => exists_idle_of_victim hs hu hk hkey hv, fun ⟨c, hc, hidle⟩ => ?_⟩
    have hmem : c.entry ∈ (pushed key s).directory.resident := by
      rw [resident_pushed hkey]
      exact Multiset.mem_cons_of_mem (mem_resident.2 ⟨c, hc, rfl⟩)
    obtain ⟨c', hc', hentry⟩ := mem_resident.1 hmem
    exact hends c' hc' ((congrArg SlotEntry.pins hentry).trans hidle)
  have hvalid := LawfulQueues.valid_pushFront (LawfulQueues.valid_eraseGhost hs.valid key)
    (eraseGhost key s.queues).1 (CacheKey.ofKey s.nextAddr key)
  cases kind with
  | s3Fifo => exact (S3FifoQueues.exists_victim_ok_iff hvalid).trans (S3FifoQueues.idle_pushed_iff
      (S3FifoQueues.Valid.target_pos hs.valid))
  | sieve =>
      refine hany fun c hc hidle => SieveQueues.exists_victim_ok ?_ hvalid hc hidle
      exact Nat.succ_pos _
  | lru => exact hany fun c hc hidle => LruQueues.exists_victim_ok hc hidle
  | clock => exact hany fun c hc hidle => ClockQueues.exists_victim_ok hc hidle

/-! ## Batches that do not fit -/

section Batches

variable {Q : Type} [PolicyQueues Q]

/-- The slots that are unused, or whose entry is idle. -/
def idleSlots (s : CachePolicy Q) : ℕ :=
  s.capacity - s.cacheUsage + (entries s.queues).countP fun c => c.referenceCount = 0

/-- The distinct keys of a batch that are absent. -/
def absentKeys (keys : List ℤ) (s : CachePolicy Q) : List ℤ :=
  (keys.filter fun key => s.keyToCacheKey key = none).dedup

variable [LawfulQueues Q] {s s' : CachePolicy Q} {keys : List ℤ}

lemma idleSlots_add_busyCount (hs : s.Inv) :
    s.idleSlots + s.directory.busyCount = s.capacity := by
  have hbusy : s.directory.busyCount =
      (entries s.queues).countP fun c => ¬c.referenceCount = 0 := by
    simp only [Directory.busyCount, directory, Multiset.coe_countP, List.countP_map]
    rfl
  have hcard : (entries s.queues).length = s.cacheUsage := by
    simpa [directory] using hs.wellFormed.card_resident
  have hsplit := List.length_eq_countP_add_countP (fun c : CacheKey => decide (c.referenceCount = 0))
    (l := entries s.queues)
  have hle := hs.wellFormed.used_le
  simp only [directory_used, directory_capacity, decide_eq_true_eq] at hle hsplit
  rw [idleSlots, hbusy]
  omega

/-- A batch that finds or admits all of its keys has room for the absent ones. -/
lemma Looked.length_absentKeys_le (hs : s.Inv) {l : Trace} (h : s.Looked keys.zipIdx l s')
    (habs : ∀ x ∈ l, x.2 ≠ .absent) : (absentKeys keys s).length ≤ s.idleSlots := by
  have hroom := h.run.length_absent_le hs.wellFormed (by simp [int8Max])
    (Trace.ne_absent_accesses habs) (List.nodup_dedup (keys.filter fun key =>
      s.keyToCacheKey key = none)) fun k hk => by
    obtain ⟨hmem, hnone⟩ := List.mem_filter.1 (List.mem_dedup.1 hk)
    have hzip : k ∈ (l.map Prod.fst).map Prod.fst := by
      rw [h.keys_eq, List.zipIdx_map_fst]
      exact hmem
    rw [List.map_map] at hzip
    obtain ⟨x, hx, rfl⟩ := List.mem_map.1 hzip
    exact ⟨by simpa using hnone, x.2, List.mem_map.2 ⟨x, hx, rfl⟩⟩
  have := idleSlots_add_busyCount hs
  simp only [directory_capacity] at hroom
  rw [absentKeys]
  omega

/-- The check for a batch that does not fit never fails. -/
lemma queryAndReplaceImpl_ne_cantInsertAll (hs : s.Inv) (fuel : ℕ) (keys : List ℤ) :
    queryAndReplaceImpl fuel keys s ≠ .error .cantInsertAll s' := fun h => by
  obtain ⟨done, x, rest, l, t, -, -, hfail⟩ := queryAndReplaceImpl_error hs h
  cases hfail

lemma replaceImpl_ne_cantInsertAll (hs : s.Inv) (fuel : ℕ) (keys : List ℤ) :
    replaceImpl fuel keys s ≠ .error .cantInsertAll s' := fun h => by
  obtain ⟨done, x, rest, l, t, -, -, hfail⟩ := replaceImpl_error hs h
  cases hfail

/-- A batch with more absent keys than idle slots does not return. -/
lemma queryAndReplaceImpl_ne_ok (hs : s.Inv) (hfull : s.idleSlots < (absentKeys keys s).length)
    (fuel : ℕ) (r : QueryAndReplaceResult) : queryAndReplaceImpl fuel keys s ≠ .ok r s' := by
  intro h
  obtain ⟨l, hl, habs, -⟩ := queryAndReplaceImpl_ok hs h
  exact absurd (hl.length_absentKeys_le hs habs) (not_le.2 hfull)

lemma replaceImpl_ne_ok (hs : s.Inv) (hfull : s.idleSlots < (absentKeys keys s).length)
    (fuel : ℕ) (r : ReplaceResult) : replaceImpl fuel keys s ≠ .ok r s' := by
  intro h
  obtain ⟨l, hl, habs, -⟩ := replaceImpl_ok hs h
  exact absurd (hl.length_absentKeys_le hs habs) (not_le.2 hfull)

end Batches

end CachePolicy

namespace PolicyKind

open CachePolicy

/-- **When an insertion ends.**  In a reachable full state, the insertion of an absent key ends,
and evicts an idle node, if and only if the eviction loop comes to one.  A batch with more
distinct absent keys than idle slots neither reports that it does not fit nor returns. -/
theorem insertion_ends_iff {kind : PolicyKind} {capacity : ℕ} {s : CachePolicy kind.Queues}
    (h : kind.Reachable capacity s) :
    (∀ key, s.capacity ≤ s.cacheUsage → s.keyToCacheKey key = none → 0 ≤ key ∧ key < 2 ^ 48 →
      (s.InsertEvictsIdle key ↔ kind.comesToIdle key s.queues = true)) ∧
    ∀ keys, s.idleSlots < (absentKeys keys s).length → ∀ fuel s',
      (queryAndReplaceImpl fuel keys s ≠ .error .cantInsertAll s' ∧
        ∀ r, queryAndReplaceImpl fuel keys s ≠ .ok r s') ∧
      replaceImpl fuel keys s ≠ .error .cantInsertAll s' ∧
        ∀ r, replaceImpl fuel keys s ≠ .ok r s' := by
  have hs := h.inv
  refine ⟨fun key hu hk hkey => ?_, fun keys hfull fuel s' => ?_⟩
  · exact (insertEvictsIdle_iff hs hu hk hkey).trans (exists_victim_pushed_iff hs hu hk hkey)
  · exact ⟨⟨queryAndReplaceImpl_ne_cantInsertAll hs fuel keys, queryAndReplaceImpl_ne_ok hs hfull fuel⟩,
      replaceImpl_ne_cantInsertAll hs fuel keys, replaceImpl_ne_ok hs hfull fuel⟩

/-- A CLOCK policy of one idle entry makes room for another key, but not for two. -/
theorem insertion_ends_iff_clock : ∃ s : CachePolicy clock.Queues, s.keyToCacheKey 5 = some (some 0) ∧
    s.InsertEvictsIdle 6 ∧ ∀ fuel r s', queryAndReplaceImpl fuel [6, 7] s ≠ .ok r s' := by
  have h := insertion_ends_iff (.step (.step (@Reachable.create clock 1 _ rfl)
    (@Step.queryAndReplace _ _ _ 1 [5] _ _ rfl)) (@Step.writingCompleted _ _ _ [some 0] _ rfl))
  exact ⟨_, rfl, (h.1 6 le_rfl rfl (by decide)).2 rfl,
    fun fuel r s' => (h.2 [6, 7] (by decide) fuel s').1.2 r⟩

/-- The insertion of key 0 into an S3-FIFO policy hangs, although key 11 is idle: key 0 is a
ghost, and the small queue keeps its only node. -/
theorem not_insertEvictsIdle_s3Fifo :
    ∃ s : CachePolicy s3Fifo.Queues, s3Fifo.Reachable 10 s ∧ s.capacity ≤ s.cacheUsage ∧
      s.keyToCacheKey 0 = none ∧ (∃ c ∈ entries s.queues, c.referenceCount = 0) ∧
      ¬s.InsertEvictsIdle 0 := by
  let calls : List Call :=
    [.queryAndReplace [0, 1, 2, 3, 4, 5, 6, 7, 8, 9], .writingCompleted [some 0],
      .queryAndReplace [10], .writingCompleted [some 10],
      .queryAndReplace [11], .writingCompleted [some 11]]
  have hcheck : (Call.runAll 1 calls (CachePolicy.create 10 (s3Fifo.queues 10))).any (fun s =>
      decide (s.capacity ≤ s.cacheUsage) && decide (s.keyToCacheKey 0 = none) &&
        (entries s.queues).any (fun c => c.referenceCount = 0) &&
        !s3Fifo.comesToIdle 0 s.queues) = true := by decide +kernel
  obtain ⟨s, hrun, hs⟩ := (Option.any_eq_true _ _).1 hcheck
  simp only [Bool.and_eq_true, decide_eq_true_eq, List.any_eq_true, Bool.not_eq_true'] at hs
  obtain ⟨⟨⟨hu, hk⟩, hidle⟩, hcomes⟩ := hs
  have h := Call.reachable_of_runAll (@Reachable.create s3Fifo 10 _ rfl) hrun
  refine ⟨s, h, hu, hk, hidle, fun hends => ?_⟩
  have hidle := (exists_victim_pushed_iff h.inv hu hk (by decide)).1
    ((insertEvictsIdle_iff h.inv hu hk (by decide)).1 hends)
  rw [hcomes] at hidle
  exact Bool.false_ne_true hidle

end PolicyKind

end DglAscend.Graphbolt
