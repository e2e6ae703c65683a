import DglAscend.Graphbolt.Cache.S3FifoHistory

/-!
# Which keys are ghosts

A key is in `ghost_set_` only if it left the cache from the small queue when it was last evicted,
and not too long ago.  The converse holds unless an older entry for the key was still in the
ghost queue at that time and has been popped since.  An absent key that is inserted goes to the
main queue exactly if it is in `ghost_set_`.
-/

namespace DglAscend.Graphbolt

open PolicyQueues CacheEvent

/-- `events` is the record of a run of returning calls from the constructor to `s`. -/
def Recorded (capacity : ℕ) (s : CachePolicy S3FifoQueues) (events : List CacheEvent) : Prop :=
  ∃ t, RecordedQueues.Reached capacity t ∧ t.mapQueues RecordedQueues.forget = s ∧
    t.queues.events = events

/-- Every reachable state has a record. -/
theorem exists_recorded {capacity : ℕ} {s : CachePolicy PolicyKind.s3Fifo.Queues}
    (h : PolicyKind.s3Fifo.Reachable capacity s) : ∃ events, Recorded capacity s events := by
  suffices hrun : ∃ t, RecordedQueues.Reached capacity t ∧
      t.mapQueues RecordedQueues.forget = s by
    obtain ⟨t, ht, hs⟩ := hrun
    exact ⟨_, t, ht, hs, rfl⟩
  induction h with
  | create h =>
      obtain ⟨haccepts, rfl⟩ := PolicyKind.create_eq_ok h
      exact ⟨_, ⟨haccepts, .refl⟩, rfl⟩
  | step _ hstep ih =>
      obtain ⟨t, ht, rfl⟩ := ih
      obtain ⟨t', hstep', rfl⟩ := CachePolicy.Step.of_mapQueues (F := RecordedQueues.forget) hstep
      exact ⟨t', ⟨ht.1, ht.2.tail hstep'⟩, rfl⟩

namespace CachePolicy

/-- `key` is not in the cache, its last event is its eviction from the small queue, and this is
one of the last `Capacity()` evictions from the small queue. -/
def RecentlyEvicted (s : CachePolicy S3FifoQueues) (events : List CacheEvent) (key : ℤ) : Prop :=
  (¬∃ c ∈ entries s.queues, c.getKey = key) ∧ latest key events = some (.evictedSmall key) ∧
    key ∈ (smallEvictions events).take s.queues.ghostQueue.elementCapacity

/-- An older entry for `key` was in the ghost queue when `key` was last evicted, and has been
popped since. -/
def GhostDisplaced (s : CachePolicy S3FifoQueues) (events : List CacheEvent) (key : ℤ) : Prop :=
  Displaced s.queues.ghostQueue.elementCapacity (smallEvictions events) key

/-- The exact contents of the ghost set. -/
theorem mem_ghostSet_iff {capacity : ℕ} {s : CachePolicy S3FifoQueues} {events : List CacheEvent}
    (h : Recorded capacity s events) (key : ℤ) :
    key ∈ s.queues.ghostSet ↔ s.RecentlyEvicted events key ∧ ¬s.GhostDisplaced events key := by
  obtain ⟨t, ht, rfl, rfl⟩ := h
  have hexplains := ht.explains.2
  rw [show key ∈ (t.mapQueues RecordedQueues.forget).queues.ghostSet ↔ _ from
    hexplains.mem_iff key]
  constructor
  · rintro ⟨hlast, hmem, hnot⟩
    refine ⟨⟨fun hres => ?_, hlast, hmem⟩, hnot⟩
    have hins := (hexplains.resident_iff key).1 hres
    rw [hlast] at hins
    cases hins
  · rintro ⟨⟨-, hlast, hmem⟩, hnot⟩
    exact ⟨hlast, hmem, hnot⟩

/-- An inserted key goes to the main queue exactly if it was a ghost, and else to the small
queue. -/
lemma inMain_insert_iff {s s' : CachePolicy S3FifoQueues} (hs : s.Inv) {fuel : ℕ} {key : ℤ}
    {c : CacheKey} (hk : s.keyToCacheKey key = none)
    (hrun : insert fuel key (announce key s) = .ok c s') :
    (s'.queues.InMain key ↔ key ∈ s.queues.ghostSet) ∧
      (s'.queues.InSmall key ↔ key ∉ s.queues.ghostSet) := by
  obtain ⟨hkey, hinv, hleaves⟩ : (0 ≤ key ∧ key < 2 ^ 48) ∧ s'.Inv ∧
      ∃ e ∈ s'.directory.resident, e.key = key := by
    rcases insert_refines hs hk fuel with ⟨-, t, hrun', -⟩ | ⟨hkey, c', t, hrun', ht, hacc⟩ |
      ⟨-, -, -, hrun'⟩
    all_goals cases hrun'.symm.trans hrun
    obtain ⟨e, he, hek, -⟩ := hacc.leaves.exists_entry rfl
    exact ⟨hkey, ht, e, he, hek⟩
  have hsmall := S3FifoQueues.inSmall_insert_iff hs hk hkey hrun
  refine ⟨?_, hsmall⟩
  rw [← not_iff_not, ← hsmall]
  -- The key is in one of the two queues, and in one only.
  obtain ⟨e, he, hek⟩ := hleaves
  obtain ⟨c', hc', rfl⟩ := mem_resident.1 he
  have hnodup := hinv.key_nodup
  rw [S3FifoQueues.entries_eq, List.map_append, List.nodup_append] at hnodup
  constructor
  · intro hmain
    exact ⟨c', (List.mem_append.1 hc').resolve_right fun hin => hmain ⟨c', hin, hek⟩, hek⟩
  · rintro ⟨c₁, hc₁, hk₁⟩ ⟨c₂, hc₂, hk₂⟩
    exact hnodup.2.2 _ (List.mem_map_of_mem hc₁) _ (List.mem_map_of_mem hc₂) (hk₁.trans hk₂.symm)

/-- Key 0 is a ghost, is inserted again into the main queue and leaves the cache from there: its
eviction from the small queue is recent, but it is no ghost any more. -/
theorem not_ghost_of_evictedMain :
    ¬∀ (s : CachePolicy S3FifoQueues) (events : List CacheEvent), Recorded 10 s events →
      ∀ key, key ∈ s.queues.ghostSet ↔ (¬∃ c ∈ entries s.queues, c.getKey = key) ∧
        key ∈ (smallEvictions events).take s.queues.ghostQueue.elementCapacity := by
  intro hall
  let calls : List Call :=
    [.queryAndReplace [0, 1, 2, 3, 4, 5, 6, 7, 8, 9],
      .writingCompleted [some 0, some 1, some 2, some 3, some 4, some 5, some 6, some 7, some 8,
        some 9],
      .queryAndReplace [10], .writingCompleted [some 10],
      .queryAndReplace [0], .writingCompleted [some 11],
      .query [2, 3, 4, 5, 6, 7, 8, 9, 10],
      .readingCompleted [some 2, some 3, some 4, some 5, some 6, some 7, some 8, some 9, some 10],
      .queryAndReplace [11]]
  have hcheck : (Call.runAll 2 calls
      (CachePolicy.create 10 (RecordedQueues.create 10))).any (fun t =>
        decide (0 ∉ t.queues.queues.ghostSet) &&
          (entries t.queues).all (fun c => c.getKey ≠ 0) &&
          decide (0 ∈ (smallEvictions t.queues.events).take
            t.queues.queues.ghostQueue.elementCapacity)) = true := by decide +kernel
  obtain ⟨t, hrun, ht⟩ := (Option.any_eq_true _ _).1 hcheck
  simp only [Bool.and_eq_true, decide_eq_true_eq, List.all_eq_true] at ht
  obtain ⟨⟨hnot, hgone⟩, hrecent⟩ := ht
  have hreached : RecordedQueues.Reached 10 t := ⟨rfl, Call.steps_of_runAll hrun⟩
  refine hnot ((hall _ _ ⟨t, hreached, rfl, rfl⟩ 0).2 ⟨?_, hrecent⟩)
  rintro ⟨c, hc, hkey⟩
  exact hgone c hc hkey

/-- **What `ghost_set_` holds**, in every state that returning calls reach and for every record
of how it was reached, and what this means for the next insertion. -/
theorem ghosts_are_recently_evicted {capacity : ℕ} {s : CachePolicy S3FifoQueues}
    (h : PolicyKind.Reachable .s3Fifo capacity s) :
    (∃ events, Recorded capacity s events) ∧ ∀ events, Recorded capacity s events →
      (∀ key ∈ s.queues.ghostSet, s.RecentlyEvicted events key) ∧
      (∀ key, s.RecentlyEvicted events key → ¬s.GhostDisplaced events key →
        key ∈ s.queues.ghostSet) ∧
      ∀ key fuel c s', s.keyToCacheKey key = none →
        insert fuel key (announce key s) = .ok c s' →
        (s'.queues.InMain key ∨ s'.queues.InSmall key) ∧
        (s'.queues.InMain key → s.RecentlyEvicted events key) ∧
        (s.RecentlyEvicted events key → ¬s.GhostDisplaced events key →
          s'.queues.InMain key ∧ ¬s'.queues.InSmall key) := by
  refine ⟨exists_recorded h, fun events hrec => ?_⟩
  have hmem := mem_ghostSet_iff hrec
  refine ⟨fun key hkey => ((hmem key).1 hkey).1, fun key hev hnot => (hmem key).2 ⟨hev, hnot⟩, ?_⟩
  intro key fuel c s' hk hrun
  obtain ⟨hmain, hsmall⟩ := inMain_insert_iff h.inv hk hrun
  refine ⟨?_, fun hin => ((hmem key).1 (hmain.1 hin)).1, fun hev hnot => ?_⟩
  · rw [hmain, hsmall]
    exact em _
  · have hghost := (hmem key).2 ⟨hev, hnot⟩
    exact ⟨hmain.2 hghost, fun hin => hsmall.1 hin hghost⟩

/-- Key 0 has left the small queue for key 10 and is a ghost. -/
theorem ghosts_are_recently_evicted_ten :
    ∃ s : CachePolicy S3FifoQueues, 0 ∈ s.queues.ghostSet ∧
      ∃ events, Recorded 10 s events ∧ s.RecentlyEvicted events 0 := by
  let calls : List Call :=
    [.queryAndReplace [0, 1, 2, 3, 4, 5, 6, 7, 8, 9], .writingCompleted [some 0],
      .queryAndReplace [10]]
  have hcheck : (Call.runAll 1 calls
      (CachePolicy.create 10 (PolicyKind.s3Fifo.queues 10))).any (fun s =>
        decide (0 ∈ S3FifoQueues.ghostSet s.queues)) = true := by decide +kernel
  obtain ⟨s, hrun, hs⟩ := (Option.any_eq_true _ _).1 hcheck
  have hghost : 0 ∈ S3FifoQueues.ghostSet s.queues := of_decide_eq_true hs
  obtain ⟨⟨events, hrec⟩, hspec⟩ := ghosts_are_recently_evicted
    (Call.reachable_of_runAll (@PolicyKind.Reachable.create .s3Fifo 10 _ rfl) hrun)
  exact ⟨s, hghost, events, hrec, (hspec events hrec).1 0 hghost⟩

end CachePolicy

end DglAscend.Graphbolt
