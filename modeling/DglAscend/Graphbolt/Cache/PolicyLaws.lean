import DglAscend.Graphbolt.Cache.Policies

/-!
# What the policies have in common

`LawfulQueues` says what each step of a policy does to the nodes of its lists, up to their order
and their frequencies.  Everything that is proved about all policies rests on these laws; the
instances are the only place where the eviction loops are looked into.
-/

namespace DglAscend.Graphbolt

open PolicyQueues

/-- The laws of the steps of a policy.  `Valid capacity q` is what the policy maintains about
its own bookkeeping. -/
class LawfulQueues (Q : Type) [PolicyQueues Q] where
  Valid : ℕ → Q → Prop
  entries_modify (a : ℕ) (f : CacheKey → CacheKey) (q : Q) :
    entries (modify a f q) = modifyAt a f (entries q)
  entries_touch (a : ℕ) (q : Q) :
    ((entries (touch a q)).map CacheKey.entry).Perm ((entries q).map CacheKey.entry)
  entries_eraseGhost (key : ℤ) (q : Q) : entries (eraseGhost key q).2 = entries q
  entries_pushFront (g : Bool) (c : CacheKey) (q : Q) :
    ((entries (pushFront g c q)).map CacheKey.entry).Perm
      (c.entry :: (entries q).map CacheKey.entry)
  /-- the loop of `Evict` removes one idle node and no other -/
  victim_ok {fuel : ℕ} {q q' : Q} {v : CacheKey} (h : victim fuel q = .ok v q') :
    v.referenceCount = 0 ∧
      ((entries q).map CacheKey.entry).Perm (v.entry :: (entries q').map CacheKey.entry)
  valid_modify {capacity : ℕ} {q : Q} (h : Valid capacity q) (a : ℕ)
    (f : CacheKey → CacheKey) : Valid capacity (modify a f q)
  valid_touch {capacity : ℕ} {q : Q} (h : Valid capacity q) (a : ℕ) :
    Valid capacity (touch a q)
  valid_eraseGhost {capacity : ℕ} {q : Q} (h : Valid capacity q) (key : ℤ) :
    Valid capacity (eraseGhost key q).2
  valid_pushFront {capacity : ℕ} {q : Q} (h : Valid capacity q) (g : Bool) (c : CacheKey) :
    Valid capacity (pushFront g c q)
  valid_victim {capacity fuel : ℕ} {q q' : Q} {v : CacheKey} (h : Valid capacity q)
    (hv : victim fuel q = .ok v q') : Valid capacity q'
  /-- the loop of `Evict` never runs off its lists -/
  victim_ne_error {capacity : ℕ} {q : Q} (h : Valid capacity q)
    (hlen : capacity ≤ (entries q).length) (fuel : ℕ) (g : Bool) (c : CacheKey) (e : CacheError)
    (q' : Q) : victim fuel (pushFront g c q) ≠ .error e q'

@[simp] lemma length_modifyAt (a : ℕ) (f : CacheKey → CacheKey) (l : List CacheKey) :
    (modifyAt a f l).length = l.length := by
  simp [modifyAt]

lemma map_entry_modifyAt (a : ℕ) {f : CacheKey → CacheKey} (hf : ∀ c, (f c).entry = c.entry)
    (l : List CacheKey) : (modifyAt a f l).map CacheKey.entry = l.map CacheKey.entry :=
  map_modifyAt CacheKey.entry a hf l

lemma referenceCount_eq_zero_of_idle {b : Bool} {c : CacheKey} (h : ¬(b || c.inUse) = true) :
    c.referenceCount = 0 := by
  rw [Bool.or_eq_true, not_or] at h
  exact CacheKey.inUse_eq_false.1 (by simpa using h.2)

/-! ## S3-FIFO -/

variable {capacity n : ℕ} {v : CacheKey}

namespace S3FifoQueues

@[simp] lemma entries_eq (q : S3FifoQueues) : entries q = q.smallQueue ++ q.mainQueue := rfl

@[simp] lemma pushGhost_smallQueue (key : ℤ) (q : S3FifoQueues) :
    (q.pushGhost key).smallQueue = q.smallQueue := by
  simp only [pushGhost]; split <;> rfl

@[simp] lemma pushGhost_mainQueue (key : ℤ) (q : S3FifoQueues) :
    (q.pushGhost key).mainQueue = q.mainQueue := by
  simp only [pushGhost]; split <;> rfl

@[simp] lemma pushGhost_smallQueueSize (key : ℤ) (q : S3FifoQueues) :
    (q.pushGhost key).smallQueueSize = q.smallQueueSize := by
  simp only [pushGhost]; split <;> rfl

@[simp] lemma pushGhost_smallQueueSizeTarget (key : ℤ) (q : S3FifoQueues) :
    (q.pushGhost key).smallQueueSizeTarget = q.smallQueueSizeTarget := by
  simp only [pushGhost]; split <;> rfl

/-- The recorded size of the small queue is its length, and its target leaves room for the main
queue. -/
structure Valid (capacity : ℕ) (q : S3FifoQueues) : Prop where
  size_eq : q.smallQueueSize = q.smallQueue.length
  target_eq : q.smallQueueSizeTarget = capacity / 10
  target_pos : 0 < q.smallQueueSizeTarget

lemma pushFront_perm (g : Bool) (c : CacheKey) (q : S3FifoQueues) :
    ((entries (pushFront g c q)).map CacheKey.entry).Perm
      (c.entry :: (entries q).map CacheKey.entry) := by
  cases g <;> simp [PolicyQueues.pushFront]

lemma length_pushFront (g : Bool) (c : CacheKey) (q : S3FifoQueues) :
    (entries (pushFront g c q)).length = (entries q).length + 1 := by
  simpa using (pushFront_perm g c q).length_eq

variable {q q' : S3FifoQueues}

lemma Valid.pushFront (h : q.Valid capacity) (g : Bool) (c : CacheKey) :
    (PolicyQueues.pushFront g c q).Valid capacity := by
  cases g
  · exact ⟨by simpa [PolicyQueues.pushFront] using h.size_eq, h.target_eq, h.target_pos⟩
  · exact ⟨h.size_eq, h.target_eq, h.target_pos⟩

/-- The loop of `EvictSmallQueue` removes at most one node, an idle one. -/
lemma evictSmallLoop_ok {r : Option CacheKey} (h : evictSmallLoop n q = .ok r q') :
    (∀ v ∈ r, v.referenceCount = 0) ∧
      ((entries q).map CacheKey.entry).Perm
        (r.toList.map CacheKey.entry ++ (entries q').map CacheKey.entry) := by
  induction n generalizing q with
  | zero =>
      obtain ⟨rfl, rfl⟩ : none = r ∧ q = q' := by simpa [evictSmallLoop] using h
      simp
  | succ n ih =>
      rcases List.eq_nil_or_concat' q.smallQueue with hnil | ⟨rest, c, hc⟩
      · simp [evictSmallLoop, hnil] at h
      simp only [evictSmallLoop, hc, popBack?_concat] at h
      split at h
      · obtain ⟨hr, hperm⟩ := ih h
        refine ⟨hr, List.Perm.trans ?_ hperm⟩
        simp [hc]
      · rename_i hidle
        obtain ⟨rfl, rfl⟩ := by simpa using h
        have hcount : c.referenceCount = 0 := referenceCount_eq_zero_of_idle hidle
        exact ⟨by simpa using hcount, by simp [hc]⟩

lemma evictSmallLoop_valid {r : Option CacheKey} (hq : q.Valid capacity)
    (h : evictSmallLoop n q = .ok r q') : q'.Valid capacity := by
  induction n generalizing q with
  | zero =>
      obtain ⟨rfl, rfl⟩ : none = r ∧ q = q' := by simpa [evictSmallLoop] using h
      exact hq
  | succ n ih =>
      rcases List.eq_nil_or_concat' q.smallQueue with hnil | ⟨rest, c, hc⟩
      · simp [evictSmallLoop, hnil] at h
      have hsize : q.smallQueueSize - 1 = rest.length := by simp [hq.size_eq, hc]
      simp only [evictSmallLoop, hc, popBack?_concat] at h
      split at h
      · refine ih ?_ h
        exact ⟨hsize, hq.target_eq, hq.target_pos⟩
      · obtain ⟨rfl, rfl⟩ := by simpa using h
        exact ⟨by simpa using hsize, by simpa using hq.target_eq, by simpa using hq.target_pos⟩

/-- The loop of `EvictSmallQueue` always returns; if it returns nothing, it has taken all the
nodes it could. -/
lemma exists_evictSmallLoop_ok (hn : n ≤ q.smallQueue.length) :
    ∃ r q', evictSmallLoop n q = .ok r q' ∧
      (r = none → q'.smallQueue.length + n = q.smallQueue.length) := by
  induction n generalizing q with
  | zero => exact ⟨none, q, rfl, fun _ => rfl⟩
  | succ n ih =>
      rcases List.eq_nil_or_concat' q.smallQueue with hnil | ⟨rest, c, hc⟩
      · simp [hnil] at hn
      have hlen : q.smallQueue.length = rest.length + 1 := by simp [hc]
      simp only [evictSmallLoop, hc, popBack?_concat]
      split
      · obtain ⟨r, q', hrun, hnone⟩ := ih (q :=
          { q with
            smallQueueSize := q.smallQueueSize - 1
            smallQueue := rest
            mainQueue := c.resetFreq :: q.mainQueue }) (by simpa using by omega)
        exact ⟨r, q', hrun, fun hr => by have := hnone hr; simp at this; simp; omega⟩
      · exact ⟨some c, _, rfl, by simp⟩

lemma evictMainQueue_ok (h : q.evictMainQueue n = .ok v q') : v.referenceCount = 0 ∧
      ((entries q).map CacheKey.entry).Perm (v.entry :: (entries q').map CacheKey.entry) := by
  obtain ⟨v', r, hrot, rfl, rfl⟩ := Outcome.map_eq_ok.1 h
  obtain ⟨hidle, hperm⟩ := rotateUntil_ok hrot
  refine ⟨referenceCount_eq_zero_of_idle (Bool.eq_false_iff.1 hidle), ?_⟩
  have hmain := hperm CacheKey.entry CacheKey.entry_decrement
  simpa using (hmain.append_left (q.smallQueue.map CacheKey.entry)).trans List.perm_middle

lemma victim_cases (h : q.victim n = .ok v q') : q.evictSmallQueue = .ok (some v) q' ∨
      ∃ q₁, q.evictSmallQueue = .ok none q₁ ∧ q₁.evictMainQueue n = .ok v q' := by
  obtain ⟨r, q₁, hsmall, hrest⟩ := Outcome.bind_eq_ok.1 h
  cases r with
  | some c =>
      obtain ⟨rfl, rfl⟩ : c = v ∧ q₁ = q' := by simpa using hrest
      exact Or.inl hsmall
  | none => exact Or.inr ⟨q₁, hsmall, hrest⟩

lemma victim_ok (h : q.victim n = .ok v q') : v.referenceCount = 0 ∧
      ((entries q).map CacheKey.entry).Perm (v.entry :: (entries q').map CacheKey.entry) := by
  rcases victim_cases h with hsmall | ⟨q₁, hsmall, hmain⟩
  · obtain ⟨hv, hperm⟩ := evictSmallLoop_ok hsmall
    exact ⟨hv v rfl, by simpa using hperm⟩
  · obtain ⟨-, hperm⟩ := evictSmallLoop_ok hsmall
    obtain ⟨hv, hperm'⟩ := evictMainQueue_ok hmain
    exact ⟨hv, (by simpa using hperm : ((entries q).map CacheKey.entry).Perm _).trans hperm'⟩

lemma victim_valid (hq : q.Valid capacity) (h : q.victim n = .ok v q') : q'.Valid capacity := by
  rcases victim_cases h with hsmall | ⟨q₁, hsmall, hmain⟩
  · exact evictSmallLoop_valid hq hsmall
  · have hq₁ := evictSmallLoop_valid hq hsmall
    obtain ⟨v', r, -, -, rfl⟩ := Outcome.map_eq_ok.1 hmain
    exact ⟨hq₁.size_eq, hq₁.target_eq, hq₁.target_pos⟩

/-- The small queue does not shrink below its target, so that a full cache has nodes in its main
queue when the small queue gives none. -/
lemma victim_ne_error (hq : q.Valid capacity) (hlen : capacity < (entries q).length) (n : ℕ)
    (e : CacheError) (q' : S3FifoQueues) : q.victim n ≠ .error e q' := by
  intro h
  have hle : q.smallQueueSize - q.smallQueueSizeTarget ≤ q.smallQueue.length := by
    rw [hq.size_eq]; exact Nat.sub_le _ _
  obtain ⟨r, q₁, hsmall, hnone⟩ := exists_evictSmallLoop_ok hle
  rw [victim, evictSmallQueue, hsmall, Outcome.bind_ok] at h
  cases r with
  | some c => simp at h
  | none =>
      have hmain : q₁.mainQueue ≠ [] := by
        intro hnil
        have hperm := (evictSmallLoop_ok hsmall).2.length_eq
        have := hnone rfl
        simp only [entries_eq, List.map_append, hnil, Option.toList_none, List.map_nil,
          List.length_append, List.length_map, List.nil_append, List.length_nil] at hperm hlen
        have := hq.size_eq
        have := hq.target_eq
        have := hq.target_pos
        omega
      obtain ⟨r, hrot, -⟩ := Outcome.map_eq_error.1 h
      exact rotateUntil_ne_error hmain hrot

lemma entries_modifyAt (a : ℕ) (f : CacheKey → CacheKey) (q : S3FifoQueues) :
    entries (PolicyQueues.modify a f q) = modifyAt a f (entries q) := by
  simp [PolicyQueues.modify, modifyAt]

instance : LawfulQueues S3FifoQueues where
  Valid := Valid
  entries_modify := entries_modifyAt
  entries_touch a q := by
    have h (l : List CacheKey) := map_entry_modifyAt a CacheKey.entry_increment l
    simp [PolicyQueues.touch, h]
  entries_eraseGhost _ _ := rfl
  entries_pushFront := pushFront_perm
  victim_ok := victim_ok
  valid_modify h a f :=
    ⟨by simpa [PolicyQueues.modify] using h.size_eq, h.target_eq, h.target_pos⟩
  valid_touch h a := ⟨by simpa [PolicyQueues.touch] using h.size_eq, h.target_eq, h.target_pos⟩
  valid_eraseGhost h _ := ⟨h.size_eq, h.target_eq, h.target_pos⟩
  valid_pushFront h g c := h.pushFront g c
  valid_victim := victim_valid
  victim_ne_error h hlen n g c :=
    victim_ne_error (h.pushFront g c) (by rw [length_pushFront]; omega) n

end S3FifoQueues

/-! ## SIEVE -/

namespace SieveQueues

@[simp] lemma entries_eq (q : SieveQueues) : entries q = q.queue := rfl

/-- The queue in the order in which the hand comes to it, from the back to the front. -/
def fromHand (q : SieveQueues) : List CacheKey := q.queue.drop q.hand ++ q.queue.take q.hand

lemma fromHand_perm (q : SieveQueues) : q.fromHand.Perm q.queue :=
  List.perm_append_comm.trans (by rw [List.take_append_drop])

variable {q q' : SieveQueues}

/-- The moving hand is a rotating scan of the queue in the order of the hand. -/
lemma scan_eq_rotateUntil (n : ℕ) (h : q.hand < q.queue.length) :
    (scan n q).map (fun evicted _ => evicted) fromHand =
      rotateUntil .danglingPointer (fun c : CacheKey => c.freq ≠ 0 || c.inUse) CacheKey.resetFreq
        n (q.queue.drop (q.hand + 1) ++ q.queue.take (q.hand + 1)) := by
  induction n generalizing q with
  | zero => rfl
  | succ n ih =>
      obtain ⟨queue, hand⟩ := q
      simp only at h
      obtain ⟨pre, c, post, rfl, rfl⟩ :
          ∃ pre c post, queue = pre ++ c :: post ∧ pre.length = hand :=
        ⟨queue.take hand, queue[hand], queue.drop (hand + 1), by simp, by simp; omega⟩
      have hrot : (pre ++ c :: post).drop (pre.length + 1) ++
          (pre ++ c :: post).take (pre.length + 1) = (post ++ pre) ++ [c] := by
        simp [List.drop_append, List.take_append, List.drop_of_length_le, List.take_of_length_le]
      rw [hrot, rotateUntil_succ_concat]
      simp only [scan, List.getElem?_append_right le_rfl, Nat.sub_self, List.getElem?_cons_zero]
      split
      · -- the hand moves on, from the first node to the last
        cases pre with
        | nil =>
            have hstep := ih (q := ⟨c.resetFreq :: post, post.length⟩) (by simp)
            simpa [decHand] using hstep
        | cons d pre =>
            have hstep := ih (q := ⟨d :: pre ++ c.resetFreq :: post, pre.length⟩)
              (by simp)
            simpa [decHand, List.set_append_right, List.drop_append, List.take_append] using hstep
      · cases pre with
        | nil => simp [fromHand]
        | cons d pre =>
            simp [fromHand, List.eraseIdx_append_of_length_le]

/-- The hand points into the queue or to its end. -/
def Valid (_capacity : ℕ) (q : SieveQueues) : Prop := q.hand ≤ q.queue.length

lemma victim_eq_rotateUntil (n : ℕ) (hpos : 0 < q.hand) (hle : q.hand ≤ q.queue.length) :
    (q.victim n).map (fun evicted _ => evicted) fromHand =
      rotateUntil .danglingPointer (fun c : CacheKey => c.freq ≠ 0 || c.inUse) CacheKey.resetFreq
        n q.fromHand := by
  have h := scan_eq_rotateUntil n (q := q.decHand) (by simp [decHand]; omega)
  rw [victim, if_neg hpos.ne', h]
  simp only [decHand, fromHand, Nat.sub_add_cancel hpos]

lemma scan_valid (h : q.hand < q.queue.length) (hscan : scan n q = .ok v q') :
    q'.hand ≤ q'.queue.length := by
  induction n generalizing q with
  | zero => simp [scan] at hscan
  | succ n ih =>
      simp only [scan, List.getElem?_eq_getElem h] at hscan
      split at hscan
      · refine ih ?_ hscan
        simp only [decHand]
        split <;> simp <;> omega
      · obtain ⟨-, rfl⟩ := by simpa using hscan
        simp only [List.length_eraseIdx_of_lt h]
        split <;> omega

lemma victim_ok (h : q.victim n = .ok v q') : v.referenceCount = 0 ∧
      ((entries q).map CacheKey.entry).Perm (v.entry :: (entries q').map CacheKey.entry) := by
  have hpos : q.hand ≠ 0 := by
    intro h0
    simp [victim, h0] at h
  have hle : q.hand ≤ q.queue.length := by
    rw [victim, if_neg hpos] at h
    by_contra hlt
    cases n with
    | zero => simp [scan] at h
    | succ n =>
        simp only [scan, decHand] at h
        rw [List.getElem?_eq_none (by omega)] at h
        simp at h
  have hrot := victim_eq_rotateUntil n (Nat.pos_of_ne_zero hpos) hle
  rw [h, Outcome.map_ok] at hrot
  obtain ⟨hidle, hperm⟩ := rotateUntil_ok hrot.symm
  refine ⟨referenceCount_eq_zero_of_idle (Bool.eq_false_iff.1 hidle), ?_⟩
  have hq := q.fromHand_perm.map CacheKey.entry
  have hq' := (q'.fromHand_perm.map CacheKey.entry).cons v.entry
  exact hq.symm.trans ((hperm CacheKey.entry CacheKey.entry_resetFreq).trans hq')

lemma victim_pushFront_ne_error (hq : q.hand ≤ q.queue.length) (n : ℕ) (c : CacheKey)
    (e : CacheError) (q' : SieveQueues) : victim n ⟨c :: q.queue, q.hand + 1⟩ ≠ .error e q' := by
  intro h
  have hrot := victim_eq_rotateUntil n (q := ⟨c :: q.queue, q.hand + 1⟩) (by simp) (by simpa)
  rw [h, Outcome.map_error] at hrot
  refine rotateUntil_ne_error ?_ hrot.symm
  simp [fromHand]

instance : LawfulQueues SieveQueues where
  Valid := Valid
  entries_modify _ _ _ := rfl
  entries_touch a q := by
    simp [PolicyQueues.touch, map_entry_modifyAt a CacheKey.entry_setFreq q.queue]
  entries_eraseGhost _ _ := rfl
  entries_pushFront _ _ _ := by simp [PolicyQueues.pushFront]
  victim_ok := victim_ok
  valid_modify h _ _ := by simpa [PolicyQueues.modify, Valid] using h
  valid_touch h _ := by simpa [PolicyQueues.touch, Valid] using h
  valid_eraseGhost h _ := h
  valid_pushFront h _ _ := by simpa [PolicyQueues.pushFront, Valid] using h
  valid_victim {_ _ q _ _} h hv := by
    simp only [PolicyQueues.victim, victim] at hv
    split at hv
    · simp at hv
    · refine scan_valid ?_ hv
      simp only [Valid] at h
      simp only [decHand]
      omega
  victim_ne_error h _ n _ c := victim_pushFront_ne_error h n c

end SieveQueues

/-! ## LRU and CLOCK -/

namespace LruQueues

@[simp] lemma entries_eq (q : LruQueues) : entries q = q.queue := rfl

lemma victim_ok {q q' : LruQueues} (h : q.victim n = .ok v q') : v.referenceCount = 0 ∧
      ((entries q).map CacheKey.entry).Perm (v.entry :: (entries q').map CacheKey.entry) := by
  obtain ⟨v', r, hrot, rfl, rfl⟩ := Outcome.map_eq_ok.1 h
  obtain ⟨hidle, hperm⟩ := rotateUntil_ok hrot
  exact ⟨CacheKey.inUse_eq_false.1 hidle, hperm CacheKey.entry fun _ => rfl⟩

lemma victim_pushFront_ne_error (q : LruQueues) (n : ℕ) (c : CacheKey) (e : CacheError)
    (q' : LruQueues) : victim n ⟨c :: q.queue⟩ ≠ .error e q' := by
  intro h
  obtain ⟨r, hrot, -⟩ := Outcome.map_eq_error.1 h
  exact rotateUntil_ne_error (by simp) hrot

instance : LawfulQueues LruQueues where
  Valid _ _ := True
  entries_modify _ _ _ := rfl
  entries_touch a q := (moveToFront_perm a q.queue).map CacheKey.entry
  entries_eraseGhost _ _ := rfl
  entries_pushFront _ _ _ := by simp [PolicyQueues.pushFront]
  victim_ok := victim_ok
  valid_modify _ _ _ := trivial
  valid_touch _ _ := trivial
  valid_eraseGhost _ _ := trivial
  valid_pushFront _ _ _ := trivial
  valid_victim _ _ := trivial
  victim_ne_error {_ q} _ _ n _ c := victim_pushFront_ne_error q n c

end LruQueues

namespace ClockQueues

@[simp] lemma entries_eq (q : ClockQueues) : entries q = q.queue := rfl

lemma victim_ok {q q' : ClockQueues} (h : q.victim n = .ok v q') : v.referenceCount = 0 ∧
      ((entries q).map CacheKey.entry).Perm (v.entry :: (entries q').map CacheKey.entry) := by
  obtain ⟨v', r, hrot, rfl, rfl⟩ := Outcome.map_eq_ok.1 h
  obtain ⟨hidle, hperm⟩ := rotateUntil_ok hrot
  exact ⟨referenceCount_eq_zero_of_idle (Bool.eq_false_iff.1 hidle),
    hperm CacheKey.entry CacheKey.entry_resetFreq⟩

lemma victim_pushFront_ne_error (q : ClockQueues) (n : ℕ) (c : CacheKey) (e : CacheError)
    (q' : ClockQueues) : victim n ⟨c :: q.queue⟩ ≠ .error e q' := by
  intro h
  obtain ⟨r, hrot, -⟩ := Outcome.map_eq_error.1 h
  exact rotateUntil_ne_error (by simp) hrot

instance : LawfulQueues ClockQueues where
  Valid _ _ := True
  entries_modify _ _ _ := rfl
  entries_touch a q := by
    simp [PolicyQueues.touch, map_entry_modifyAt a CacheKey.entry_setFreq q.queue]
  entries_eraseGhost _ _ := rfl
  entries_pushFront _ _ _ := by simp [PolicyQueues.pushFront]
  victim_ok := victim_ok
  valid_modify _ _ _ := trivial
  valid_touch _ _ := trivial
  valid_eraseGhost _ _ := trivial
  valid_pushFront _ _ _ := trivial
  valid_victim _ _ := trivial
  victim_ne_error {_ q} _ _ n _ c := victim_pushFront_ne_error q n c

end ClockQueues

namespace PolicyKind

instance : (kind : PolicyKind) → LawfulQueues kind.Queues
  | s3Fifo => inferInstanceAs (LawfulQueues S3FifoQueues)
  | sieve => inferInstanceAs (LawfulQueues SieveQueues)
  | lru => inferInstanceAs (LawfulQueues LruQueues)
  | clock => inferInstanceAs (LawfulQueues ClockQueues)

/-- The bookkeeping of a policy is right after its constructor. -/
lemma valid_queues {kind : PolicyKind} (h : kind.Accepts capacity) :
    LawfulQueues.Valid capacity (kind.queues capacity) := by
  cases kind with
  | s3Fifo =>
      have hpos : 0 < capacity / 10 := by
        simp only [Accepts, checkCapacity] at h
        split at h
        · assumption
        · simp at h
      exact ⟨rfl, rfl, hpos⟩
  | sieve => exact Nat.le_refl 0
  | lru => trivial
  | clock => trivial

@[simp] lemma entries_queues (kind : PolicyKind) (capacity : ℕ) :
    entries (kind.queues capacity) = [] := by
  cases kind <;> rfl

end PolicyKind

end DglAscend.Graphbolt
