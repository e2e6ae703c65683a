import DglAscend.Graphbolt.Cache.CachePolicy
import DglAscend.Graphbolt.Cache.CircularQueue
import DglAscend.Lib.Rotation
import Mathlib.Data.Finset.Insert

/-!
# The four policies (`graphbolt/src/cache_policy.h`)

The queues of `S3FifoCachePolicy`, `SieveCachePolicy`, `LruCachePolicy` and `ClockCachePolicy`
with their eviction loops, and the constructors of the policies.
-/

namespace DglAscend.Graphbolt

/-! ## S3-FIFO -/

structure S3FifoQueues where
  smallQueue : List CacheKey
  mainQueue : List CacheKey
  ghostQueue : CircularQueue ℤ
  smallQueueSizeTarget : ℕ
  smallQueueSize : ℕ
  ghostSet : Finset ℤ

namespace S3FifoQueues

/-- `EvictMainQueue()` -/
def evictMainQueue (fuel : ℕ) (q : S3FifoQueues) : Outcome CacheError S3FifoQueues CacheKey :=
  (rotateUntil .danglingPointer (fun c : CacheKey => c.freq > 0 || c.inUse) CacheKey.decrement
    fuel q.mainQueue).map (fun evicted _ => evicted) fun main => { q with mainQueue := main }

/-- Remember an evicted key: a full ghost queue forgets its oldest key first. -/
def pushGhost (key : ℤ) (q : S3FifoQueues) : S3FifoQueues :=
  let popped := q.ghostQueue.pop
  let q :=
    if q.ghostQueue.isFull then
      { q with
        ghostQueue := popped.2
        ghostSet := q.ghostSet.filter fun k => some k ≠ popped.1 }
    else q
  { q with ghostSet := insert key q.ghostSet, ghostQueue := q.ghostQueue.push key }

/-- The loop of `EvictSmallQueue()` with `n` iterations left: each one takes the back of the
small queue, whose recorded size sinks to the target. -/
def evictSmallLoop : ℕ → S3FifoQueues → Outcome CacheError S3FifoQueues (Option CacheKey)
  | 0, q => .ok none q
  | n + 1, q =>
    let q := { q with smallQueueSize := q.smallQueueSize - 1 }
    match popBack? q.smallQueue with
    | none => .error .danglingPointer q
    | some (rest, evicted) =>
      let q := { q with smallQueue := rest }
      if evicted.freq > 0 || evicted.inUse then
        evictSmallLoop n { q with mainQueue := evicted.resetFreq :: q.mainQueue }
      else .ok (some evicted) (q.pushGhost evicted.getKey)

/-- `EvictSmallQueue()`; `none` is the result `-1`. -/
def evictSmallQueue (q : S3FifoQueues) : Outcome CacheError S3FifoQueues (Option CacheKey) :=
  evictSmallLoop (q.smallQueueSize - q.smallQueueSizeTarget) q

/-- The part of `Evict()` after the test for unused slots.  A node that leaves has a position,
so the test `pos >= 0` of the source asks whether the small queue gave a node. -/
def victim (fuel : ℕ) (q : S3FifoQueues) : Outcome CacheError S3FifoQueues CacheKey :=
  q.evictSmallQueue.bind fun evicted q =>
    match evicted with
    | some c => .ok c q
    | none => q.evictMainQueue fuel

instance : PolicyQueues S3FifoQueues where
  entries q := q.smallQueue ++ q.mainQueue
  modify a f q :=
    { q with smallQueue := modifyAt a f q.smallQueue, mainQueue := modifyAt a f q.mainQueue }
  touch a q :=
    { q with
      smallQueue := modifyAt a CacheKey.increment q.smallQueue
      mainQueue := modifyAt a CacheKey.increment q.mainQueue }
  eraseGhost key q := (decide (key ∈ q.ghostSet), { q with ghostSet := q.ghostSet.erase key })
  pushFront inGhostQueue c q :=
    if inGhostQueue then { q with mainQueue := c :: q.mainQueue }
    else { q with smallQueue := c :: q.smallQueue, smallQueueSize := q.smallQueueSize + 1 }
  victim fuel q := q.victim fuel

end S3FifoQueues

/-! ## SIEVE -/

/-- `hand` is the distance of the iterator `hand_` from `queue_.begin()`; it is the length of
the queue for `queue_.end()`. -/
structure SieveQueues where
  queue : List CacheKey
  hand : ℕ
deriving DecidableEq, Repr

namespace SieveQueues

/-- `--hand_` -/
def decHand (q : SieveQueues) : SieveQueues := { q with hand := q.hand - 1 }

/-- The loop of `Evict()` and the removal of the node at the hand. -/
def scan : ℕ → SieveQueues → Outcome CacheError SieveQueues CacheKey
  | 0, _ => .timeout
  | n + 1, q =>
    match q.queue[q.hand]? with
    | none => .error .danglingPointer q
    | some c =>
      if c.freq ≠ 0 || c.inUse then
        let q := { q with queue := q.queue.set q.hand c.resetFreq }
        let q := if q.hand = 0 then { q with hand := q.queue.length } else q
        scan n q.decHand
      else
        let queue := q.queue.eraseIdx q.hand
        -- Behind an erased first node the hand is at the end, else at the node that follows.
        .ok c ⟨queue, if q.hand = 0 then queue.length else q.hand⟩

def victim (fuel : ℕ) (q : SieveQueues) : Outcome CacheError SieveQueues CacheKey :=
  if q.hand = 0 then .error .danglingPointer q else scan fuel q.decHand

instance : PolicyQueues SieveQueues where
  entries q := q.queue
  modify a f q := { q with queue := modifyAt a f q.queue }
  touch a q := { q with queue := modifyAt a CacheKey.setFreq q.queue }
  eraseGhost _ q := (false, q)
  pushFront _ c q := ⟨c :: q.queue, q.hand + 1⟩
  victim fuel q := q.victim fuel

end SieveQueues

/-! ## LRU -/

structure LruQueues where
  queue : List CacheKey
deriving DecidableEq, Repr

namespace LruQueues

def victim (fuel : ℕ) (q : LruQueues) : Outcome CacheError LruQueues CacheKey :=
  (rotateUntil .danglingPointer CacheKey.inUse id fuel q.queue).map (fun evicted _ => evicted)
    fun queue => ⟨queue⟩

instance : PolicyQueues LruQueues where
  entries q := q.queue
  modify a f q := ⟨modifyAt a f q.queue⟩
  touch a q := ⟨moveToFront a q.queue⟩
  eraseGhost _ q := (false, q)
  pushFront _ c q := ⟨c :: q.queue⟩
  victim fuel q := q.victim fuel

end LruQueues

/-! ## CLOCK -/

structure ClockQueues where
  queue : List CacheKey
deriving DecidableEq, Repr

namespace ClockQueues

def victim (fuel : ℕ) (q : ClockQueues) : Outcome CacheError ClockQueues CacheKey :=
  (rotateUntil .danglingPointer (fun c : CacheKey => c.freq ≠ 0 || c.inUse) CacheKey.resetFreq
    fuel q.queue).map (fun evicted _ => evicted) fun queue => ⟨queue⟩

instance : PolicyQueues ClockQueues where
  entries q := q.queue
  modify a f q := ⟨modifyAt a f q.queue⟩
  touch a q := ⟨modifyAt a CacheKey.setFreq q.queue⟩
  eraseGhost _ q := (false, q)
  pushFront _ c q := ⟨c :: q.queue⟩
  victim fuel q := q.victim fuel

end ClockQueues

/-! ## The choice of a policy -/

inductive PolicyKind where
  | s3Fifo
  | sieve
  | lru
  | clock
deriving DecidableEq, Repr

namespace PolicyKind

/-- The queues of a policy. -/
def Queues : PolicyKind → Type
  | s3Fifo => S3FifoQueues
  | sieve => SieveQueues
  | lru => LruQueues
  | clock => ClockQueues

instance : (kind : PolicyKind) → PolicyQueues kind.Queues
  | s3Fifo => inferInstanceAs (PolicyQueues S3FifoQueues)
  | sieve => inferInstanceAs (PolicyQueues SieveQueues)
  | lru => inferInstanceAs (PolicyQueues LruQueues)
  | clock => inferInstanceAs (PolicyQueues ClockQueues)

/-- The queues that the constructor of a policy sets up. -/
def queues (capacity : ℕ) : (kind : PolicyKind) → kind.Queues
  | s3Fifo =>
    { smallQueue := []
      mainQueue := []
      ghostQueue := .create (capacity - capacity / 10) 0
      smallQueueSizeTarget := capacity / 10
      smallQueueSize := 0
      ghostSet := ∅ }
  | sieve => (⟨[], 0⟩ : SieveQueues)
  | lru => (⟨[]⟩ : LruQueues)
  | clock => (⟨[]⟩ : ClockQueues)

/-- The check of the constructor of a policy. -/
def checkCapacity (kind : PolicyKind) (capacity : ℕ) : Except CacheError Unit :=
  match kind with
  | s3Fifo => if 0 < capacity / 10 then .ok () else .error .capacityNotLargeEnough
  | _ => if 0 < capacity then .ok () else .error .capacityNotPositive

/-- The constructor of a policy. -/
def create (kind : PolicyKind) (capacity : ℕ) : Except CacheError (CachePolicy kind.Queues) :=
  (kind.checkCapacity capacity).map fun _ => CachePolicy.create capacity (kind.queues capacity)

/-- The capacities that a constructor accepts. -/
def Accepts (kind : PolicyKind) (capacity : ℕ) : Prop :=
  kind.checkCapacity capacity = .ok ()

instance (kind : PolicyKind) (capacity : ℕ) : Decidable (kind.Accepts capacity) :=
  match h : kind.checkCapacity capacity with
  | .ok () => isTrue h
  | .error _ => isFalse fun h' => by simp [Accepts, h] at h'

end PolicyKind

end DglAscend.Graphbolt
