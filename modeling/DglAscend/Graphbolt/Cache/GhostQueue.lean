import DglAscend.Graphbolt.Cache.Policies

/-!
# The ghost queue of S3-FIFO

`ghost_queue_` holds the last keys that were evicted from the small queue, and `ghost_set_` is
to be the set of these keys.  The set forgets a key whenever an entry for it leaves the queue,
also if the queue has a younger entry for the same key.

Lists of evictions have the latest one first.
-/

namespace DglAscend.Graphbolt

/-! ## What is left of the last evictions -/

section Recent

variable {α : Type} [DecidableEq α]

/-- An older entry for `key` was among those that have been popped since its latest one was
pushed: `evicted.idxOf key` entries have been pushed after that one, and as many popped once
there were more than `capacity`. -/
def Displaced (capacity : ℕ) (evicted : List α) (key : α) : Prop :=
  key ∈ (evicted.drop capacity).take (evicted.idxOf key)

instance (capacity : ℕ) (evicted : List α) (key : α) :
    Decidable (Displaced capacity evicted key) :=
  inferInstanceAs (Decidable (key ∈ (evicted.drop capacity).take (evicted.idxOf key)))

/-- `key` is among the last `capacity` evictions, and no older entry for it has been popped
since its latest one. -/
def Remembered (capacity : ℕ) (evicted : List α) (key : α) : Prop :=
  key ∈ evicted.take capacity ∧ ¬Displaced capacity evicted key

lemma not_remembered_nil (capacity : ℕ) (key : α) : ¬Remembered capacity [] key := by
  intro h
  have hmem := h.1
  rw [List.take_nil] at hmem
  exact List.not_mem_nil hmem

/-- The key that is evicted last is remembered. -/
lemma remembered_cons_self {capacity : ℕ} (hpos : 0 < capacity) (key : α) (evicted : List α) :
    Remembered capacity (key :: evicted) key := by
  obtain ⟨n, rfl⟩ := Nat.exists_eq_add_one.2 hpos
  refine ⟨?_, ?_⟩
  · rw [List.take_succ_cons]
    exact List.mem_cons_self
  · rw [Displaced, List.idxOf_cons_self, List.take_zero]
    exact List.not_mem_nil

/-- Another key is remembered after an eviction if it was before, and the entry that leaves the
queue is not one for it. -/
lemma remembered_cons_iff {capacity : ℕ} (hpos : 0 < capacity) {key new : α} (hne : key ≠ new)
    (evicted : List α) :
    Remembered capacity (new :: evicted) key ↔
      Remembered capacity evicted key ∧ evicted[capacity - 1]? ≠ some key := by
  obtain ⟨n, rfl⟩ := Nat.exists_eq_add_one.2 hpos
  unfold Remembered Displaced
  rw [List.take_succ_cons, List.drop_succ_cons, List.idxOf_cons_ne evicted hne.symm,
    Nat.add_sub_cancel, List.mem_cons, or_iff_right hne]
  by_cases hlast : n < evicted.length
  · have htake : evicted.take (n + 1) = evicted.take n ++ [evicted[n]] :=
      (List.take_concat_get' evicted n hlast).symm
    rw [List.drop_eq_getElem_cons hlast, List.take_succ_cons, List.mem_cons, htake,
      List.mem_append, List.mem_singleton, List.getElem?_eq_getElem hlast, Ne, Option.some.injEq,
      not_or]
    constructor
    · rintro ⟨hmem, hfirst, hrest⟩
      exact ⟨⟨Or.inl hmem, hrest⟩, fun heq => hfirst heq.symm⟩
    · rintro ⟨⟨hmem, hrest⟩, hfirst⟩
      exact ⟨hmem.resolve_right fun heq => hfirst heq.symm, fun heq => hfirst heq.symm, hrest⟩
  · have hle : evicted.length ≤ n := Nat.not_lt.1 hlast
    rw [List.drop_of_length_le hle, List.drop_of_length_le (by omega), List.take_nil,
      List.take_nil, List.take_of_length_le hle, List.take_of_length_le (by omega),
      List.getElem?_eq_none hle]
    simp

end Recent

/-! ## Pushing an evicted key -/

namespace S3FifoQueues

/-- The ghost queue holds the last keys of `evicted`, as many as it has room for. -/
structure GhostRing (q : S3FifoQueues) (evicted : List ℤ) : Prop where
  capacity_pos : 0 < q.ghostQueue.elementCapacity
  represents : q.ghostQueue.Represents (evicted.take q.ghostQueue.elementCapacity).reverse

@[simp] lemma pushGhost_elementCapacity (key : ℤ) (q : S3FifoQueues) :
    (q.pushGhost key).ghostQueue.elementCapacity = q.ghostQueue.elementCapacity := by
  simp only [pushGhost]
  split <;> rfl

variable {evicted : List ℤ} {q : S3FifoQueues}

lemma GhostRing.isFull_iff (h : q.GhostRing evicted) :
    q.ghostQueue.isFull = true ↔ q.ghostQueue.elementCapacity ≤ evicted.length := by
  rw [h.represents.isFull_iff, List.length_reverse, List.length_take]
  omega

/-- The contents of a full queue, the entry that is popped first. -/
lemma reverse_take_eq_cons {n : ℕ} (h : n < evicted.length) :
    (evicted.take (n + 1)).reverse = evicted[n] :: (evicted.take n).reverse := by
  rw [← List.take_concat_get' evicted n h, List.reverse_append, List.reverse_singleton,
    List.singleton_append]

/-- `EvictSmallQueue` keeps the queue to the last keys. -/
theorem GhostRing.pushGhost (h : q.GhostRing evicted) (key : ℤ) :
    (q.pushGhost key).GhostRing (key :: evicted) := by
  refine ⟨by rw [pushGhost_elementCapacity]; exact h.capacity_pos, ?_⟩
  rw [pushGhost_elementCapacity]
  obtain ⟨n, hn⟩ := Nat.exists_eq_add_one.2 h.capacity_pos
  have hring := h.represents
  have hcap : q.ghostQueue.capacity = n + 2 := by
    simp only [CircularQueue.elementCapacity] at hn
    omega
  rw [hn] at hring
  rw [hn, List.take_succ_cons, List.reverse_cons]
  by_cases hfull : q.ghostQueue.isFull = true
  · have hlen := h.isFull_iff.1 hfull
    rw [hn] at hlen
    rw [reverse_take_eq_cons hlen] at hring
    have hpop := hring.pop.2
    have hroom : (evicted.take n).reverse.length + 1 < q.ghostQueue.pop.2.capacity := by
      rw [show q.ghostQueue.pop.2.capacity = n + 2 from hcap, List.length_reverse,
        List.length_take]
      omega
    simp only [S3FifoQueues.pushGhost, if_pos hfull]
    exact hpop.push hroom key
  · have hlen : evicted.length ≤ n := by
      have hlt := mt h.isFull_iff.2 hfull
      omega
    rw [List.take_of_length_le (by omega)] at hring
    rw [List.take_of_length_le hlen]
    simp only [S3FifoQueues.pushGhost, if_neg hfull]
    exact hring.push (by rw [hcap, List.length_reverse]; omega) key

/-- The set after an eviction: the entry that leaves the queue takes its key along. -/
theorem GhostRing.mem_pushGhost (h : q.GhostRing evicted) (new key : ℤ) :
    key ∈ (q.pushGhost new).ghostSet ↔
      key = new ∨ key ∈ q.ghostSet ∧
        evicted[q.ghostQueue.elementCapacity - 1]? ≠ some key := by
  obtain ⟨n, hn⟩ := Nat.exists_eq_add_one.2 h.capacity_pos
  rw [hn, Nat.add_sub_cancel]
  by_cases hfull : q.ghostQueue.isFull = true
  · have hlen := h.isFull_iff.1 hfull
    have hring := h.represents
    rw [hn] at hlen hring
    rw [reverse_take_eq_cons hlen] at hring
    simp only [S3FifoQueues.pushGhost, if_pos hfull, Finset.mem_insert, Finset.mem_filter,
      hring.pop.1, List.getElem?_eq_getElem hlen]
    rw [ne_comm]
  · have hlen : evicted.length ≤ n := by
      have hlt := mt h.isFull_iff.2 hfull
      omega
    simp only [S3FifoQueues.pushGhost, if_neg hfull, Finset.mem_insert,
      List.getElem?_eq_none hlen]
    simp

end S3FifoQueues

end DglAscend.Graphbolt
