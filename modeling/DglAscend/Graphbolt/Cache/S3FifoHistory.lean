import DglAscend.Graphbolt.Cache.GhostQueue
import DglAscend.Graphbolt.Cache.PolicySimulation

/-!
# What S3-FIFO remembers of its evictions

`RecordedQueues` are the queues of an S3-FIFO policy together with the events of its keys: their
insertions, and their evictions from the small and from the main queue.  The record changes
nothing about the run of the policy, and says what the ghost set of a reachable policy is.
-/

namespace DglAscend.Graphbolt

open PolicyQueues

/-- What happens to a key. -/
inductive CacheEvent where
  | inserted (key : ℤ)
  | evictedSmall (key : ℤ)
  | evictedMain (key : ℤ)
deriving DecidableEq, Repr

namespace CacheEvent

def key : CacheEvent → ℤ
  | inserted key => key
  | evictedSmall key => key
  | evictedMain key => key

/-- The latest event of a key; the latest of all comes first. -/
def latest (key : ℤ) (events : List CacheEvent) : Option CacheEvent :=
  events.find? fun e => e.key = key

/-- The key of an eviction from the small queue. -/
def smallKey? : CacheEvent → Option ℤ
  | evictedSmall key => some key
  | _ => none

/-- The evictions from the small queue, the latest one first. -/
def smallEvictions (events : List CacheEvent) : List ℤ := events.filterMap smallKey?

variable (key : ℤ) (events : List CacheEvent)

@[simp] lemma smallEvictions_inserted :
    smallEvictions (inserted key :: events) = smallEvictions events := rfl

@[simp] lemma smallEvictions_evictedSmall :
    smallEvictions (evictedSmall key :: events) = key :: smallEvictions events := rfl

@[simp] lemma smallEvictions_evictedMain :
    smallEvictions (evictedMain key :: events) = smallEvictions events := rfl

lemma latest_inserted_self : latest key (inserted key :: events) = some (inserted key) :=
  List.find?_cons_of_pos (by simp [CacheEvent.key])

lemma latest_evictedSmall_self :
    latest key (evictedSmall key :: events) = some (evictedSmall key) :=
  List.find?_cons_of_pos (by simp [CacheEvent.key])

lemma latest_evictedMain_self : latest key (evictedMain key :: events) = some (evictedMain key) :=
  List.find?_cons_of_pos (by simp [CacheEvent.key])

lemma latest_cons_ne {e : CacheEvent} {key : ℤ} (h : e.key ≠ key) (events : List CacheEvent) :
    latest key (e :: events) = latest key events :=
  List.find?_cons_of_neg (by simpa using h)

end CacheEvent

open CacheEvent

/-- The queues of an S3-FIFO policy and the events of its keys, the latest one first. -/
structure RecordedQueues where
  queues : S3FifoQueues
  events : List CacheEvent

variable {r r' : RecordedQueues} {capacity fuel : ℕ} {v : CacheKey}

namespace RecordedQueues

def onQueues {α : Type} (r : RecordedQueues) (x : Outcome CacheError S3FifoQueues α) :
    Outcome CacheError RecordedQueues α :=
  x.map (fun a _ => a) fun q => { r with queues := q }

def record (e : CacheEvent) (r : RecordedQueues) : RecordedQueues :=
  { r with events := e :: r.events }

/-- `S3FifoQueues.victim`, with a record of the queue that the victim leaves. -/
def victim (fuel : ℕ) (r : RecordedQueues) : Outcome CacheError RecordedQueues CacheKey :=
  (r.onQueues r.queues.evictSmallQueue).bind fun evicted r =>
    match evicted with
    | some c => .ok c (r.record (.evictedSmall c.getKey))
    | none =>
      (r.onQueues (r.queues.evictMainQueue fuel)).bind fun c r =>
        .ok c (r.record (.evictedMain c.getKey))

instance : PolicyQueues RecordedQueues where
  entries r := entries r.queues
  modify a f r := { r with queues := modify a f r.queues }
  touch a r := { r with queues := touch a r.queues }
  eraseGhost key r := ((eraseGhost key r.queues).1, { r with queues := (eraseGhost key r.queues).2 })
  pushFront g c r :=
    { queues := pushFront g c r.queues, events := .inserted c.getKey :: r.events }
  victim fuel r := r.victim fuel

/-- To forget the record. -/
def forget : QueuesHom RecordedQueues S3FifoQueues where
  toFun := queues
  entries_toFun _ := rfl
  modify_toFun _ _ _ := rfl
  touch_toFun _ _ := rfl
  eraseGhost_toFun _ _ := rfl
  pushFront_toFun _ _ _ := rfl
  victim_toFun fuel r := by
    show r.queues.victim fuel = (r.victim fuel).map (fun v _ => v) queues
    simp only [S3FifoQueues.victim, victim, onQueues]
    cases r.queues.evictSmallQueue with
    | ok c q =>
        cases c with
        | some c => rfl
        | none =>
            simp only [Outcome.map_ok, Outcome.bind_ok]
            cases q.evictMainQueue fuel <;> rfl
    | error e q => rfl
    | timeout => rfl

@[simp] lemma entries_eq (r : RecordedQueues) : entries r = entries r.queues := rfl

/-- A victim has left one of the two queues, and the record says which. -/
lemma victim_cases (h : r.victim fuel = .ok v r') :
    (r.queues.evictSmallQueue = .ok (some v) r'.queues ∧
        r'.events = .evictedSmall v.getKey :: r.events) ∨
      ∃ q, r.queues.evictSmallQueue = .ok none q ∧ q.evictMainQueue fuel = .ok v r'.queues ∧
        r'.events = .evictedMain v.getKey :: r.events := by
  obtain ⟨c, r₁, hsmall, hrest⟩ := Outcome.bind_eq_ok.1 h
  obtain ⟨c', q, hsmall', rfl, rfl⟩ := Outcome.map_eq_ok.1 hsmall
  cases c' with
  | some c =>
      cases hrest
      exact Or.inl ⟨hsmall', rfl⟩
  | none =>
      obtain ⟨c, r₂, hmain, hend⟩ := Outcome.bind_eq_ok.1 hrest
      obtain ⟨c', q', hmain', rfl, rfl⟩ := Outcome.map_eq_ok.1 hmain
      cases hend
      exact Or.inr ⟨q, hsmall', hmain', rfl⟩

lemma victim_queues (h : r.victim fuel = .ok v r') : r.queues.victim fuel = .ok v r'.queues := by
  have hhom := forget.victim_toFun fuel r
  rw [show PolicyQueues.victim fuel r = r.victim fuel from rfl, h] at hhom
  exact hhom

instance : LawfulQueues RecordedQueues where
  Valid capacity r := r.queues.Valid capacity
  entries_modify a f r := LawfulQueues.entries_modify a f r.queues
  entries_touch a r := LawfulQueues.entries_touch a r.queues
  entries_eraseGhost key r := LawfulQueues.entries_eraseGhost key r.queues
  entries_pushFront g c r := LawfulQueues.entries_pushFront g c r.queues
  victim_ok h := S3FifoQueues.victim_ok (victim_queues h)
  valid_modify h a f := LawfulQueues.valid_modify (Q := S3FifoQueues) h a f
  valid_touch h a := LawfulQueues.valid_touch (Q := S3FifoQueues) h a
  valid_eraseGhost h key := LawfulQueues.valid_eraseGhost (Q := S3FifoQueues) h key
  valid_pushFront h g c := LawfulQueues.valid_pushFront (Q := S3FifoQueues) h g c
  valid_victim h hv := S3FifoQueues.victim_valid h (victim_queues hv)
  victim_ne_error {capacity r} h hlen fuel g c e r' hrun := by
    have hhom := forget.victim_toFun fuel (pushFront g c r)
    rw [show PolicyQueues.victim fuel (pushFront g c r) = _ from hrun] at hhom
    exact LawfulQueues.victim_ne_error (Q := S3FifoQueues) h hlen fuel g c e r'.queues hhom

end RecordedQueues

/-! ## What an eviction does to the ghosts and to the small queue -/

namespace S3FifoQueues

/-- `EvictSmallQueue` pushes the key that it evicts, and takes nodes from the back only. -/
lemma evictSmallLoop_frame {n : ℕ} {q q' : S3FifoQueues} {r : Option CacheKey}
    (h : evictSmallLoop n q = .ok r q') :
    (∃ q₁ : S3FifoQueues, q₁.ghostQueue = q.ghostQueue ∧ q₁.ghostSet = q.ghostSet ∧
        q' = r.elim q₁ fun c => q₁.pushGhost c.getKey) ∧
      q'.smallQueue <+: q.smallQueue ∧ q.smallQueue.length ≤ q'.smallQueue.length + n := by
  induction n generalizing q with
  | zero =>
      obtain ⟨rfl, rfl⟩ : none = r ∧ q = q' := by simpa [evictSmallLoop] using h
      exact ⟨⟨q, rfl, rfl, rfl⟩, List.prefix_rfl, le_rfl⟩
  | succ n ih =>
      rcases List.eq_nil_or_concat' q.smallQueue with hnil | ⟨rest, c, hc⟩
      · simp [evictSmallLoop, hnil] at h
      simp only [evictSmallLoop, hc, popBack?_concat] at h
      have hprefix : rest <+: q.smallQueue := hc ▸ List.prefix_append rest [c]
      have hlen : q.smallQueue.length = rest.length + 1 := by simp [hc]
      split at h
      · obtain ⟨⟨q₁, hqueue, hset, hq'⟩, hsub, hle⟩ := ih h
        exact ⟨⟨q₁, hqueue, hset, hq'⟩, hsub.trans hprefix, by simp only at hle; omega⟩
      · cases h
        refine ⟨⟨{ q with smallQueueSize := q.smallQueueSize - 1, smallQueue := rest }, rfl, rfl,
          rfl⟩, ?_, ?_⟩
        · rw [pushGhost_smallQueue]
          exact hprefix
        · rw [pushGhost_smallQueue]
          simp only
          omega

/-- The front of the small queue outlives an eviction. -/
lemma victim_smallQueue {q q' : S3FifoQueues} (hq : q.Valid capacity)
    (h : q.victim fuel = .ok v q') :
    q'.smallQueue <+: q.smallQueue ∧ (q.smallQueue ≠ [] → q'.smallQueue ≠ []) := by
  have hkeep {r : Option CacheKey} {q₁ : S3FifoQueues} (hrun : q.evictSmallQueue = .ok r q₁) :
      q₁.smallQueue <+: q.smallQueue ∧ (q.smallQueue ≠ [] → q₁.smallQueue ≠ []) := by
    obtain ⟨-, hsub, hle⟩ := evictSmallLoop_frame hrun
    refine ⟨hsub, fun hne hnil => ?_⟩
    have hpos := List.length_pos_iff.2 hne
    have htarget := hq.target_pos
    rw [hnil, List.length_nil, hq.size_eq] at hle
    omega
  rcases victim_cases h with hsmall | ⟨q₁, hsmall, hmain⟩
  · exact hkeep hsmall
  · obtain ⟨v', r, -, -, rfl⟩ := Outcome.map_eq_ok.1 hmain
    have hkept := hkeep hsmall
    exact hkept

end S3FifoQueues

variable {f : CacheKey → CacheKey} {c : CacheKey}

namespace RecordedQueues

/-- The room of the ghost queue. -/
def ghostCapacity (r : RecordedQueues) : ℕ := r.queues.ghostQueue.elementCapacity

/-- A node holds `key`. -/
def Resident (key : ℤ) (r : RecordedQueues) : Prop := ∃ c ∈ entries r, c.getKey = key

/-- **The record explains the queues**: the ghost queue holds the last keys that were evicted
from the small queue, the ghost set those of them that were not inserted since and of which no
older entry has been popped since, and the nodes hold the keys whose last event is their
insertion. -/
structure Explains (r : RecordedQueues) : Prop where
  ring : r.queues.GhostRing (smallEvictions r.events)
  mem_iff : ∀ key, key ∈ r.queues.ghostSet ↔ latest key r.events = some (.evictedSmall key) ∧
    Remembered r.ghostCapacity (smallEvictions r.events) key
  resident_iff : ∀ key, r.Resident key ↔ latest key r.events = some (.inserted key)

/-- The keys that nodes hold are those of their entries. -/
lemma resident_iff_mem {key : ℤ} :
    r.Resident key ↔ key ∈ ((entries r).map CacheKey.entry).map SlotEntry.key := by
  simp only [Resident, List.map_map, List.mem_map, Function.comp_apply, CacheKey.entry_key]

lemma resident_congr (h : ((entries r).map CacheKey.entry).Perm ((entries r').map CacheKey.entry))
    (key : ℤ) : r.Resident key ↔ r'.Resident key := by
  rw [resident_iff_mem, resident_iff_mem, (h.map SlotEntry.key).mem_iff]

lemma resident_cons
    (h : ((entries r').map CacheKey.entry).Perm (c.entry :: (entries r).map CacheKey.entry))
    (key : ℤ) : r'.Resident key ↔ key = c.getKey ∨ r.Resident key := by
  rw [resident_iff_mem, resident_iff_mem, (h.map SlotEntry.key).mem_iff, List.map_cons,
    List.mem_cons, CacheKey.entry_key]

namespace Explains

variable {r r' : RecordedQueues}

/-- A change of the nodes that keeps their entries. -/
lemma of_entries (h : r.Explains) (hevents : r'.events = r.events)
    (hqueue : r'.queues.ghostQueue = r.queues.ghostQueue)
    (hset : r'.queues.ghostSet = r.queues.ghostSet) (hres : ∀ key, r'.Resident key ↔ r.Resident key) :
    r'.Explains := by
  have hcap : r'.ghostCapacity = r.ghostCapacity := congrArg CircularQueue.elementCapacity hqueue
  refine ⟨⟨?_, ?_⟩, fun key => ?_, fun key => ?_⟩
  · rw [hqueue]
    exact h.ring.capacity_pos
  · rw [hqueue, hevents]
    exact h.ring.represents
  · rw [hset, hevents, hcap]
    exact h.mem_iff key
  · rw [hres, hevents]
    exact h.resident_iff key

/-- The insertion of a node, up to the eviction that it makes necessary. -/
lemma pushFront (h : r.Explains) {key : ℤ} (hkey : c.getKey = key) :
    (PolicyQueues.pushFront (eraseGhost key r).1 c (eraseGhost key r).2).Explains := by
  obtain rfl := hkey
  set r' := PolicyQueues.pushFront (eraseGhost c.getKey r).1 c (eraseGhost c.getKey r).2 with hr'
  have hevents : r'.events = .inserted c.getKey :: r.events := rfl
  have hqueue : r'.queues.ghostQueue = r.queues.ghostQueue := by
    show (PolicyQueues.pushFront (eraseGhost c.getKey r.queues).1 c
      (eraseGhost c.getKey r.queues).2).ghostQueue = _
    cases (eraseGhost c.getKey r.queues).1 <;> rfl
  have hset : r'.queues.ghostSet = r.queues.ghostSet.erase c.getKey := by
    show (PolicyQueues.pushFront (eraseGhost c.getKey r.queues).1 c
      (eraseGhost c.getKey r.queues).2).ghostSet = _
    cases (eraseGhost c.getKey r.queues).1 <;> rfl
  have hcap : r'.ghostCapacity = r.ghostCapacity := congrArg CircularQueue.elementCapacity hqueue
  have hres (key : ℤ) : r'.Resident key ↔ key = c.getKey ∨ r.Resident key :=
    resident_cons (LawfulQueues.entries_pushFront _ c (eraseGhost c.getKey r).2) key
  refine ⟨⟨?_, ?_⟩, fun key => ?_, fun key => ?_⟩
  · rw [hqueue]
    exact h.ring.capacity_pos
  · rw [hqueue, hevents, smallEvictions_inserted]
    exact h.ring.represents
  · rw [hset, hevents, hcap, smallEvictions_inserted, Finset.mem_erase]
    by_cases hkey : key = c.getKey
    · rw [hkey, latest_inserted_self]
      simp
    · rw [latest_cons_ne (show (inserted c.getKey).key ≠ key from Ne.symm hkey), h.mem_iff]
      exact and_iff_right hkey
  · rw [hres, hevents]
    by_cases hkey : key = c.getKey
    · rw [hkey, latest_inserted_self]
      simp
    · rw [latest_cons_ne (show (inserted c.getKey).key ≠ key from Ne.symm hkey), or_iff_right hkey,
        h.resident_iff]

lemma victim (h : r.Explains) (hnodup : ((entries r).map CacheKey.getKey).Nodup)
    (hv : r.victim fuel = .ok v r') : r'.Explains := by
  have hperm := (S3FifoQueues.victim_ok (victim_queues hv)).2
  have hres (key : ℤ) : r.Resident key ↔ key = v.getKey ∨ r'.Resident key :=
    resident_cons hperm key
  have hgone : ¬r'.Resident v.getKey := by
    have hkeys := hperm.map SlotEntry.key
    rw [List.map_map, List.map_cons, List.map_map] at hkeys
    have hnodup' := hkeys.nodup_iff.1 (by simpa [Function.comp_def] using hnodup)
    rintro ⟨c, hc, hkey⟩
    refine (List.nodup_cons.1 hnodup').1 ?_
    rw [CacheKey.entry_key, ← hkey]
    exact List.mem_map_of_mem (f := SlotEntry.key ∘ CacheKey.entry) hc
  have hlast := (h.resident_iff v.getKey).1 ((hres _).2 (Or.inl rfl))
  rcases victim_cases hv with ⟨hsmall, hevents⟩ | ⟨q, hsmall, hmain, hevents⟩
  · obtain ⟨⟨q₁, hqueue, hset, hq'⟩, -⟩ := S3FifoQueues.evictSmallLoop_frame hsmall
    have hring : q₁.GhostRing (smallEvictions r.events) := by
      refine ⟨?_, ?_⟩
      · rw [hqueue]
        exact h.ring.capacity_pos
      · rw [hqueue]
        exact h.ring.represents
    have hq'' : r'.queues = q₁.pushGhost v.getKey := hq'
    have hcap : r'.ghostCapacity = r.ghostCapacity := by
      rw [ghostCapacity, hq'', S3FifoQueues.pushGhost_elementCapacity, hqueue, ghostCapacity]
    refine ⟨?_, fun key => ?_, fun key => ?_⟩
    · rw [hq'', hevents, smallEvictions_evictedSmall]
      exact hring.pushGhost v.getKey
    · rw [hcap, hevents, smallEvictions_evictedSmall, hq'', hring.mem_pushGhost, hset, hqueue]
      by_cases hkey : key = v.getKey
      · rw [hkey, latest_evictedSmall_self]
        exact iff_of_true (Or.inl rfl) ⟨rfl, remembered_cons_self h.ring.capacity_pos _ _⟩
      · rw [latest_cons_ne (show (evictedSmall v.getKey).key ≠ key from Ne.symm hkey),
          or_iff_right hkey, h.mem_iff,
          remembered_cons_iff (show 0 < r.ghostCapacity from h.ring.capacity_pos) hkey, and_assoc]
        rfl
    · rw [hevents]
      by_cases hkey : key = v.getKey
      · rw [hkey, latest_evictedSmall_self]
        exact iff_of_false hgone (by simp)
      · rw [latest_cons_ne (show (evictedSmall v.getKey).key ≠ key from Ne.symm hkey),
          ← h.resident_iff, hres, or_iff_right hkey]
  · obtain ⟨⟨q₁, hqueue, hset, hq'⟩, -⟩ := S3FifoQueues.evictSmallLoop_frame hsmall
    obtain rfl : q = q₁ := hq'
    obtain ⟨v', m, -, -, hqm⟩ := Outcome.map_eq_ok.1 hmain
    have hqueue' : r'.queues.ghostQueue = r.queues.ghostQueue := by rw [← hqm]; exact hqueue
    have hset' : r'.queues.ghostSet = r.queues.ghostSet := by rw [← hqm]; exact hset
    have hcap : r'.ghostCapacity = r.ghostCapacity :=
      congrArg CircularQueue.elementCapacity hqueue'
    refine ⟨⟨?_, ?_⟩, fun key => ?_, fun key => ?_⟩
    · rw [hqueue']
      exact h.ring.capacity_pos
    · rw [hqueue', hevents, smallEvictions_evictedMain]
      exact h.ring.represents
    · rw [hset', hevents, hcap, smallEvictions_evictedMain]
      by_cases hkey : key = v.getKey
      · -- The key was resident, so that it was no ghost.
        rw [hkey, latest_evictedMain_self, h.mem_iff, hlast]
        simp
      · rw [latest_cons_ne (show (evictedMain v.getKey).key ≠ key from Ne.symm hkey), h.mem_iff]
    · rw [hevents]
      by_cases hkey : key = v.getKey
      · rw [hkey, latest_evictedMain_self]
        exact iff_of_false hgone (by simp)
      · rw [latest_cons_ne (show (evictedMain v.getKey).key ≠ key from Ne.symm hkey),
          ← h.resident_iff, hres, or_iff_right hkey]

end Explains

/-! ## Runs with a record -/

lemma resident_modify (a : ℕ) (hf : ∀ c, (f c).getKey = c.getKey) (r : RecordedQueues) (key : ℤ) :
    (modify a f r).Resident key ↔ r.Resident key := by
  rw [Resident, Resident, LawfulQueues.entries_modify, ← List.mem_map,
    map_modifyAt CacheKey.getKey a hf, List.mem_map]

lemma Explains.modify (h : r.Explains) (a : ℕ) (hf : ∀ c, (f c).getKey = c.getKey) :
    (PolicyQueues.modify a f r).Explains :=
  h.of_entries rfl rfl rfl (resident_modify a hf r)

variable {s s' : CachePolicy RecordedQueues}

/-- An insertion that returns keeps the record right. -/
lemma explains_insert (hs : s.Inv) (h : s.queues.Explains) {key : ℤ}
    (hk : s.keyToCacheKey key = none)
    (hrun : CachePolicy.insert fuel key (CachePolicy.announce key s) = .ok c s') :
    s'.queues.Explains := by
  have hkey : 0 ≤ key ∧ key < 2 ^ 48 := by
    rcases CachePolicy.insert_refines hs hk fuel with ⟨-, t, hrun', -⟩ | ⟨hkey, -⟩ | ⟨hkey, -⟩
    · cases hrun'.symm.trans hrun
    · exact hkey
    · exact hkey
  have hpushed : (CachePolicy.pushed key s).queues.Explains :=
    h.pushFront ((CacheKey.getKey_ofKey_eq_iff s.nextAddr key).2 hkey)
  rw [CachePolicy.insert_eq_bind_evict hkey] at hrun
  obtain ⟨pos, t, hevict, hend⟩ := Outcome.bind_eq_ok.1 hrun
  cases hend
  refine Explains.modify ?_ _ fun _ => rfl
  unfold CachePolicy.evict at hevict
  split at hevict
  · cases hevict
    exact hpushed
  · obtain ⟨v, t', hv, hend⟩ := Outcome.bind_eq_ok.1 hevict
    obtain ⟨v', r, hvictim, rfl, rfl⟩ := Outcome.map_eq_ok.1 hv
    cases hend
    exact hpushed.victim (hs.key_nodup_pushed hkey hk) hvictim

/-- **Step lemma**: a call that returns keeps the record right. -/
theorem kept_explains :
    CachePolicy.Kept fun s : CachePolicy RecordedQueues => s.queues.Explains where
  touch s a h := h.of_entries rfl rfl rfl fun key =>
    resident_congr (LawfulQueues.entries_touch a s.queues) key
  addReference _ a _ h := h.modify a fun _ => rfl
  insert _ _ _ _ _ hs h hk hrun := explains_insert hs h hk hrun

/-- The queues of the constructor, and an empty record. -/
def create (capacity : ℕ) : RecordedQueues where
  queues := PolicyKind.s3Fifo.queues capacity
  events := []

/-- The states that returning calls reach from the constructor, with the record of the run. -/
def Reached (capacity : ℕ) (s : CachePolicy RecordedQueues) : Prop :=
  PolicyKind.s3Fifo.Accepts capacity ∧
    Relation.ReflTransGen CachePolicy.Step (CachePolicy.create capacity (create capacity)) s

lemma explains_create (h : PolicyKind.s3Fifo.Accepts capacity) : (create capacity).Explains := by
  have htarget : 0 < capacity / 10 := S3FifoQueues.Valid.target_pos (PolicyKind.valid_queues h)
  have hring : (create capacity).queues.ghostQueue = .create (capacity - capacity / 10) 0 := rfl
  refine ⟨⟨?_, ?_⟩, fun key => ?_, fun key => ?_⟩
  · rw [hring]
    show 0 < capacity - capacity / 10 + 1 - 1
    omega
  · rw [hring]
    show CircularQueue.Represents _ (List.take _ []).reverse
    rw [List.take_nil]
    exact CircularQueue.represents_create _ (0 : ℤ)
  · refine iff_of_false (Finset.notMem_empty key) fun hlast => ?_
    exact not_remembered_nil _ key hlast.2
  · refine iff_of_false ?_ (by simp [create, latest])
    rintro ⟨c, hc, -⟩
    exact List.not_mem_nil hc

/-- **Run lemma**: the record explains the queues of every state that is reached. -/
theorem Reached.explains (h : Reached capacity s) : s.Inv ∧ s.queues.Explains := by
  obtain ⟨haccepts, hrun⟩ := h
  induction hrun with
  | refl =>
      refine ⟨?_, explains_create haccepts⟩
      have hcreate : PolicyKind.s3Fifo.create capacity =
          .ok (CachePolicy.create capacity (PolicyKind.s3Fifo.queues capacity)) := by
        rw [PolicyKind.create, haccepts]
        rfl
      have hinv := PolicyKind.inv_create hcreate
      exact ⟨hinv.wellFormed, hinv.valid⟩
  | tail _ hstep ih => exact ⟨hstep.inv ih.1, kept_explains.of_step hstep ih.1 ih.2⟩

end RecordedQueues

/-! ## Where an inserted key goes -/

namespace S3FifoQueues

/-- The main queue holds `key`. -/
def InMain (key : ℤ) (q : S3FifoQueues) : Prop := ∃ c ∈ q.mainQueue, c.getKey = key

/-- The small queue holds `key`. -/
def InSmall (key : ℤ) (q : S3FifoQueues) : Prop := ∃ c ∈ q.smallQueue, c.getKey = key

lemma inSmall_modify (a : ℕ) (hf : ∀ c, (f c).getKey = c.getKey) (key : ℤ) (q : S3FifoQueues) :
    InSmall key (modify a f q) ↔ q.InSmall key := by
  show (∃ c ∈ modifyAt a f q.smallQueue, c.getKey = key) ↔ ∃ c ∈ q.smallQueue, c.getKey = key
  rw [← List.mem_map, map_modifyAt CacheKey.getKey a hf, List.mem_map]

/-- An insertion of an absent key leaves it at the front of the small queue, unless the key was
a ghost. -/
lemma inSmall_insert_iff {s s' : CachePolicy S3FifoQueues} (hs : s.Inv) {key : ℤ}
    (hk : s.keyToCacheKey key = none) (hkey : 0 ≤ key ∧ key < 2 ^ 48)
    (hrun : CachePolicy.insert fuel key (CachePolicy.announce key s) = .ok c s') :
    s'.queues.InSmall key ↔ key ∉ s.queues.ghostSet := by
  have hget := (CacheKey.getKey_ofKey_eq_iff s.nextAddr key).2 hkey
  have habsent : ¬s.queues.InSmall key := by
    rintro ⟨c', hc', hck⟩
    exact hs.wellFormed.key_ne_of_absent hk
      (CachePolicy.mem_resident.2 ⟨c', List.mem_append_left _ hc', rfl⟩) hck
  -- The small queue between the insertion and the eviction.
  have hpushed : (CachePolicy.pushed key s).queues.smallQueue =
      if key ∈ s.queues.ghostSet then s.queues.smallQueue
      else CacheKey.ofKey s.nextAddr key :: s.queues.smallQueue := by
    show (pushFront (eraseGhost key s.queues).1 _ (eraseGhost key s.queues).2).smallQueue = _
    by_cases hghost : key ∈ s.queues.ghostSet <;> simp [eraseGhost, pushFront, hghost]
  rw [CachePolicy.insert_eq_bind_evict hkey] at hrun
  obtain ⟨pos, t, hevict, hend⟩ := Outcome.bind_eq_ok.1 hrun
  cases hend
  rw [inSmall_modify (f := CacheKey.setPos pos) _ fun _ => rfl]
  have hkept : t.queues.smallQueue <+: (CachePolicy.pushed key s).queues.smallQueue ∧
      ((CachePolicy.pushed key s).queues.smallQueue ≠ [] → t.queues.smallQueue ≠ []) := by
    unfold CachePolicy.evict at hevict
    split at hevict
    · cases hevict
      exact ⟨List.prefix_rfl, id⟩
    · obtain ⟨v, t', hv, hend⟩ := Outcome.bind_eq_ok.1 hevict
      obtain ⟨v', q, hvictim, rfl, rfl⟩ := Outcome.map_eq_ok.1 hv
      cases hend
      exact victim_smallQueue (LawfulQueues.valid_pushFront (Q := S3FifoQueues)
        (LawfulQueues.valid_eraseGhost (Q := S3FifoQueues) hs.valid key) _ _) hvictim
  rw [hpushed] at hkept
  by_cases hghost : key ∈ s.queues.ghostSet
  · rw [if_pos hghost] at hkept
    refine iff_of_false ?_ (not_not.2 hghost)
    rintro ⟨c', hc', hck⟩
    exact habsent ⟨c', hkept.1.subset hc', hck⟩
  · rw [if_neg hghost] at hkept
    refine iff_of_true ?_ hghost
    obtain ⟨first, rest, hfirst⟩ := List.exists_cons_of_ne_nil (hkept.2 (List.cons_ne_nil _ _))
    rw [hfirst] at hkept
    obtain ⟨rfl, -⟩ := List.cons_prefix_cons.1 hkept.1
    exact ⟨_, by rw [hfirst]; exact List.mem_cons_self, hget⟩

end S3FifoQueues

end DglAscend.Graphbolt
