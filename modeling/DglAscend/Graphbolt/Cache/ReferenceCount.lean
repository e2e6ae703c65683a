import DglAscend.Graphbolt.Cache.PolicyRun
import Mathlib.Data.List.ReduceOption

/-!
# Conservation of the reference counts

`PolicyKind.Run` is a sequence of returning calls together with a ledger: the read pointers that
the caller holds, and the pointers of the insertions whose writing it has not completed.  The
counts of a policy are those of the ledger, up to the reads that `ReplaceImpl` starts without
telling the caller.
-/

namespace DglAscend.Graphbolt

open PolicyQueues

/-- The pointers that a caller holds. -/
structure Ledger where
  reads : Multiset ℕ
  writes : Multiset ℕ

/-- The non-null pointers of a tensor. -/
def pointersOf (l : List (Option ℕ)) : Multiset ℕ := l.reduceOption

@[simp] lemma pointersOf_nil : pointersOf [] = 0 := rfl

@[simp] lemma pointersOf_cons (p : Option ℕ) (l : List (Option ℕ)) :
    pointersOf (p :: l) = (p.toList : Multiset ℕ) + pointersOf l := by
  cases p <;> simp [pointersOf, List.reduceOption]

@[simp] lemma pointersOf_append (l₁ l₂ : List (Option ℕ)) :
    pointersOf (l₁ ++ l₂) = pointersOf l₁ + pointersOf l₂ := by
  simp [pointersOf, List.reduceOption]

@[simp] lemma pointersOf_reverse (l : List (Option ℕ)) :
    pointersOf l.reverse = pointersOf l := by
  induction l with
  | nil => rfl
  | cons p l ih => rw [List.reverse_cons, pointersOf_append, ih]; simp [add_comm]

namespace Trace

@[simp] lemma pinnedBy_accesses_cons (x : (ℤ × ℕ) × Access) (l : Trace) :
    pinnedBy (accesses (x :: l)) = x.2.pinned + pinnedBy l.accesses := by
  simp [pinnedBy, accesses]

@[simp] lemma reservedBy_accesses_cons (x : (ℤ × ℕ) × Access) (l : Trace) :
    reservedBy (accesses (x :: l)) = x.2.reserved + reservedBy l.accesses := by
  simp [reservedBy, accesses]

variable (l : Trace)

/-- The pointers of the found keys are those that the trace pinned. -/
lemma pointersOf_found : pointersOf (l.found.map BatchCell.pointer) = pinnedBy l.accesses := by
  induction l with
  | nil => rfl
  | cons x l ih =>
      rw [pinnedBy_accesses_cons, ← ih]
      obtain ⟨k, r⟩ := x
      cases r <;> simp [found, Access.isHit, cellOf, Access.addr?, Access.pinned]

/-- The pointers of the missed keys are those that the trace reserved. -/
lemma pointersOf_missed : pointersOf (l.missed.map BatchCell.pointer) = reservedBy l.accesses := by
  induction l with
  | nil => rfl
  | cons x l ih =>
      rw [reservedBy_accesses_cons, ← ih]
      obtain ⟨k, r⟩ := x
      cases r <;> simp [missed, Access.isHit, cellOf, Access.addr?, Access.reserved]

/-- `ReplaceImpl` returns the pointers that its trace reserved, and none of those it pinned. -/
lemma pointersOf_replaceResult : pointersOf l.replaceResult.pointers = reservedBy l.accesses := by
  induction l with
  | nil => rfl
  | cons x l ih =>
      rw [reservedBy_accesses_cons, ← ih]
      obtain ⟨k, r⟩ := x
      cases r <;> simp [replaceResult, replaceCell, Access.reserved]

lemma pinnedBy_ne_zero_iff : pinnedBy l.accesses ≠ 0 ↔ ∃ x ∈ l, x.2.isHit = true := by
  induction l with
  | nil => simp [accesses]
  | cons x l ih =>
      rw [pinnedBy_accesses_cons, List.exists_mem_cons_iff, ← ih]
      obtain ⟨k, r⟩ := x
      cases r <;> simp [Access.pinned, Access.isHit]

end Trace

namespace CachePolicy

variable {Q : Type} [PolicyQueues Q] [LawfulQueues Q] {s s' : CachePolicy Q} {P W : Multiset ℕ}

lemma endUse_false_balanced (hs : s.Inv) {a : ℕ} (hb : s.directory.Balanced (a ::ₘ P) W)
    (h : endUse false (some a) s = .ok () s') : s'.directory.Balanced P W := by
  have hunpin := hb.unpin (Multiset.mem_cons_self a P)
  rw [Multiset.erase_cons_head] at hunpin
  rw [endUse_some h, directory_addReference]
  rwa [Directory.repin_congr (g := (· - 1))]
  rintro e he rfl
  have hpos := hb.pins_of_pin he (Multiset.mem_cons_self _ P)
  have hle : e.pins ≤ 127 := hs.wellFormed.pins_le e he
  exact wrapInt8_of_range (by simp; omega) (by simp; omega)

/-- Completing a write makes its entry readable. -/
lemma endUse_true_balanced {a : ℕ} (hb : s.directory.Balanced P (a ::ₘ W))
    (h : endUse true (some a) s = .ok () s') : s'.directory.Balanced P W := by
  have hpublish := hb.publish (Multiset.mem_cons_self a W)
  rw [Multiset.erase_cons_head] at hpublish
  rw [endUse_some h, directory_addReference]
  rwa [Directory.repin_congr (g := (· + 1))]
  rintro e he rfl
  rw [hb.pins_of_write he (Multiset.mem_cons_self _ W)]
  rfl

/-- `ReadingCompleted` hands back the pins of its pointers. -/
lemma readingCompleted_balanced (hs : s.Inv) {ps : List (Option ℕ)}
    (hb : s.directory.Balanced (pointersOf ps + P) W) (h : readingCompleted ps s = .ok () s') :
    s'.directory.Balanced P W := by
  induction ps generalizing s with
  | nil =>
      obtain rfl : s = s' := by
        simpa [readingCompleted, readingWritingCompletedImpl] using h
      simpa using hb
  | cons p ps ih =>
      obtain ⟨_, t, hp, hrest⟩ := Outcome.bind_eq_ok.1 h
      cases p with
      | none => exact absurd (endUse_none hp).2 (by simp)
      | some a =>
          refine ih (hs.endUse hp) (endUse_false_balanced hs ?_ hp) hrest
          simpa using hb

/-- `WritingCompleted` hands back the writes of its pointers. -/
lemma writingCompleted_balanced {ps : List (Option ℕ)}
    (hb : s.directory.Balanced P (pointersOf ps + W)) (h : writingCompleted ps s = .ok () s') :
    s'.directory.Balanced P W := by
  induction ps generalizing s with
  | nil =>
      obtain rfl : s = s' := by
        simpa [writingCompleted, readingWritingCompletedImpl] using h
      simpa using hb
  | cons p ps ih =>
      obtain ⟨_, t, hp, hrest⟩ := Outcome.bind_eq_ok.1 h
      cases p with
      | none =>
          obtain ⟨rfl, -⟩ := endUse_none hp
          exact ih (by simpa using hb) hrest
      | some a =>
          refine ih (endUse_true_balanced ?_ hp) hrest
          simpa using hb

/-- A batch pins and reserves what its trace says. -/
lemma Looked.balanced (hs : s.Inv) {keys : List (ℤ × ℕ)} {l : Trace} (h : s.Looked keys l s')
    (hb : s.directory.Balanced P W) :
    s'.directory.Balanced (P + pinnedBy l.accesses) (W + reservedBy l.accesses) :=
  h.run.balanced hs.wellFormed (by simp [int8Max]) hb

end CachePolicy

/-! ## Runs with a ledger -/

/-- The states that returning calls reach, with the ledger of the caller.  Completions hand back
pointers of the ledger.  The last argument says that some `Replace` of the run came to a key
that was resident and not being written. -/
inductive PolicyKind.Run (kind : PolicyKind) (capacity : ℕ) :
    CachePolicy kind.Queues → Ledger → Prop → Prop where
  | create {s : CachePolicy kind.Queues} (h : kind.create capacity = .ok s) :
      Run kind capacity s ⟨0, 0⟩ False
  | query {s s' : CachePolicy kind.Queues} {L : Ledger} {reread : Prop} {keys : List ℤ}
      {r : QueryResult} (hrun : Run kind capacity s L reread)
      (h : s.queryImpl keys = .ok r s') :
      Run kind capacity s' ⟨L.reads + pointersOf r.foundPtrs, L.writes⟩ reread
  | queryAndReplace {s s' : CachePolicy kind.Queues} {L : Ledger} {reread : Prop} {fuel : ℕ}
      {keys : List ℤ} {r : QueryAndReplaceResult} (hrun : Run kind capacity s L reread)
      (h : s.queryAndReplaceImpl fuel keys = .ok r s') :
      Run kind capacity s' ⟨L.reads + pointersOf (r.pointers.take r.foundCnt),
        L.writes + pointersOf (r.pointers.drop r.foundCnt)⟩ reread
  | replace {s s' : CachePolicy kind.Queues} {L : Ledger} {reread : Prop} {fuel : ℕ}
      {keys : List ℤ} {r : ReplaceResult} (hrun : Run kind capacity s L reread)
      (h : s.replaceImpl fuel keys = .ok r s') :
      Run kind capacity s' ⟨L.reads, L.writes + pointersOf r.pointers⟩
        (reread ∨ s.MeetsReadable fuel keys.zipIdx)
  | readingCompleted {s s' : CachePolicy kind.Queues} {L : Ledger} {reread : Prop}
      {pointers : List (Option ℕ)} (hrun : Run kind capacity s L reread)
      (hheld : pointersOf pointers ≤ L.reads) (h : s.readingCompleted pointers = .ok () s') :
      Run kind capacity s' ⟨L.reads - pointersOf pointers, L.writes⟩ reread
  | writingCompleted {s s' : CachePolicy kind.Queues} {L : Ledger} {reread : Prop}
      {pointers : List (Option ℕ)} (hrun : Run kind capacity s L reread)
      (hheld : pointersOf pointers ≤ L.writes) (h : s.writingCompleted pointers = .ok () s') :
      Run kind capacity s' ⟨L.reads, L.writes - pointersOf pointers⟩ reread

namespace PolicyKind

variable {kind : PolicyKind} {capacity : ℕ} {s : CachePolicy kind.Queues} {L : Ledger}
  {reread : Prop}

open CachePolicy

/-- **Run lemma.**  The counts are those of the ledger and of leaked reads, which nobody can
hand back.  There are leaked reads exactly if some `Replace` came to a readable key. -/
theorem Run.balanced (h : kind.Run capacity s L reread) :
    s.Inv ∧ ∃ leaked : Multiset ℕ, s.directory.Balanced (L.reads + leaked) L.writes ∧
      (reread ↔ leaked ≠ 0) := by
  induction h with
  | create h =>
      have hinv := inv_create h
      obtain ⟨-, rfl⟩ := create_eq_ok h
      have hres : (CachePolicy.create capacity (kind.queues capacity)).directory.resident = 0 := by
        simp [CachePolicy.create, directory]
      exact ⟨hinv, 0, ⟨by simp [hres], by simp, by simp, by simp⟩, by simp⟩
  | query _ h ih =>
      obtain ⟨hs, leaked, hb, hleak⟩ := ih
      obtain ⟨l, hl, hadm, rfl⟩ := queryImpl_ok hs h
      have hres : reservedBy l.accesses = 0 := by
        simp only [reservedBy, Trace.accesses, List.map_map]
        exact List.sum_eq_zero fun m hm => by
          obtain ⟨x, hx, rfl⟩ := List.mem_map.1 hm
          exact hadm x hx
      refine ⟨hl.inv, leaked, ?_, hleak⟩
      have := hl.balanced hs hb
      rw [hres, add_zero, add_right_comm] at this
      simpa only [Trace.queryResult, Trace.pointersOf_found] using this
  | queryAndReplace _ h ih =>
      obtain ⟨hs, leaked, hb, hleak⟩ := ih
      obtain ⟨l, hl, -, rfl⟩ := queryAndReplaceImpl_ok hs h
      refine ⟨hl.inv, leaked, ?_, hleak⟩
      have := hl.balanced hs hb
      rw [add_right_comm] at this
      have hcnt : l.queryAndReplaceResult.foundCnt = (l.found.map BatchCell.pointer).length := by
        simp [QueryAndReplaceResult.foundCnt, Trace.queryAndReplaceResult]
      have hptrs : l.queryAndReplaceResult.pointers =
          l.found.map BatchCell.pointer ++ (l.missed.map BatchCell.pointer).reverse := by
        simp [Trace.queryAndReplaceResult]
      rw [hcnt, hptrs, List.take_left, List.drop_left, pointersOf_reverse, Trace.pointersOf_found,
        Trace.pointersOf_missed]
      exact this
  | replace _ h ih =>
      obtain ⟨hs, leaked, hb, hleak⟩ := ih
      obtain ⟨l, hl, -, rfl, hmeets⟩ := replaceImpl_ok hs h
      refine ⟨hl.inv, leaked + pinnedBy l.accesses, ?_, ?_⟩
      · rw [Trace.pointersOf_replaceResult, ← add_assoc]
        exact hl.balanced hs hb
      · rw [hleak, ← hmeets, ← Trace.pinnedBy_ne_zero_iff, ne_eq, ne_eq, ne_eq, add_eq_zero,
          not_and_or]
  | readingCompleted _ hheld h ih =>
      obtain ⟨hs, leaked, hb, hleak⟩ := ih
      refine ⟨hs.completed h, leaked, readingCompleted_balanced hs ?_ h, hleak⟩
      rwa [← add_assoc, add_tsub_cancel_of_le hheld]
  | writingCompleted _ hheld h ih =>
      obtain ⟨hs, leaked, hb, hleak⟩ := ih
      refine ⟨hs.completed h, leaked, writingCompleted_balanced ?_ h, hleak⟩
      rwa [add_tsub_cancel_of_le hheld]

/-- The count of every resident entry is what the ledger says. -/
def Conserved (s : CachePolicy kind.Queues) (L : Ledger) : Prop :=
  ∀ c ∈ entries s.queues, c.referenceCount = L.reads.count c.addr - L.writes.count c.addr

/-- **Conservation of the reference counts.**  In every run, the counts are those of the ledger,
and all entries are evictable once everything has been handed back, if and only if no
`Replace` of the run came to a key that was resident and readable. -/
theorem conserved_iff (h : kind.Run capacity s L reread) :
    (Conserved s L ∧
      (L.reads = 0 → L.writes = 0 → ∀ c ∈ entries s.queues, c.inUse = false)) ↔ ¬reread := by
  obtain ⟨-, leaked, hb, hleak⟩ := h.balanced
  constructor
  · rintro ⟨hcons, -⟩ hreread
    obtain ⟨a, ha⟩ := Multiset.exists_mem_of_ne_zero (hleak.1 hreread)
    have hpin : a ∈ L.reads + leaked := Multiset.mem_add.2 (Or.inr ha)
    obtain ⟨e, he, rfl⟩ := hb.live a (Multiset.mem_add.2 (Or.inl hpin))
    obtain ⟨c, hc, rfl⟩ := mem_resident.1 he
    have hcount := hb.pins_eq _ he
    rw [CacheKey.entry_pins, hcons c hc, CacheKey.entry_addr, Multiset.count_add] at hcount
    have := Multiset.count_pos.2 ha
    rw [CacheKey.entry_addr] at this
    omega
  · intro hreread
    obtain rfl : leaked = 0 := by
      by_contra hne
      exact hreread (hleak.2 hne)
    rw [add_zero] at hb
    have hcons : Conserved s L := fun c hc => hb.pins_eq _ (mem_resident.2 ⟨c, hc, rfl⟩)
    refine ⟨hcons, fun hr hw c hc => CacheKey.inUse_eq_false.2 ?_⟩
    rw [hcons c hc, hr, hw]
    simp

/-- After key 0 has been inserted and written, a `Query` of it leaves one read to hand back. -/
theorem conserved_iff_lru :
    ∃ (s : CachePolicy lru.Queues) (L : Ledger), L.reads = {0} ∧ L.writes = 0 ∧
      s.keyToCacheKey 7 = some (some 0) ∧ Conserved s L :=
  ⟨_, _, rfl, rfl, rfl, ((conserved_iff (.query (.writingCompleted (.queryAndReplace
    (@Run.create lru 1 _ rfl) (rfl : queryAndReplaceImpl 1 [7] _ = _)) (by decide)
    (rfl : writingCompleted [some 0] _ = _)) (rfl : queryImpl [7] _ = _))).2 id).1⟩

/-- A `Replace` of a key that is resident leaves its entry in use, with nothing to hand back. -/
theorem not_conserved_lru :
    ∃ (s : CachePolicy lru.Queues) (L : Ledger) (reread : Prop), lru.Run 1 s L reread ∧
      L.reads = 0 ∧ L.writes = 0 ∧ ∃ c ∈ entries s.queues, c.inUse = true := by
  refine ⟨_, _, _, .replace (.writingCompleted (.queryAndReplace (.create rfl)
    (rfl : queryAndReplaceImpl 1 [7] _ = _)) ?_ (rfl : writingCompleted [some 0] _ = _))
    (rfl : replaceImpl 1 [7] _ = _), rfl, rfl, _, List.mem_cons_self, rfl⟩
  decide

end PolicyKind

end DglAscend.Graphbolt
