import DglAscend.Graphbolt.OnDisk.ReadSlots

/-!
# The invariant of a worker

A worker has at most `2 * kGroupSize` reads open at the head of its loop, and those that it
queues again in a pass over the completion queue are bounded by the check of `submit_fn`.  This
bounds the age of an open read, the number of requests since its own: below `5 * kGroupSize` at
the head of the loop, below `6 * kGroupSize` when the worker waits, and below `8 * kGroupSize`
until the pass has copied its bytes.
-/

namespace DglAscend.Graphbolt

namespace OnDiskNpyArray

variable {β : Type} {n : ℕ} {c : Call β}

lemma kGroupSize_pos : 0 < kGroupSize := by decide

namespace Worker

/-- Outside of the pass over the completion queue: `pending` more reads may be queued, and then
no open read is older than `age`. -/
structure Gathers (x : Worker β) (pending age : ℕ) : Prop where
  sq_le : x.sq.length + pending ≤ kGroupSize
  outstanding_le : x.outstanding + pending ≤ 2 * kGroupSize
  age_le : ∀ op ∈ x.live 0, x.readBufferSlot + pending ≤ op.ticket + age

/-- In the pass over the completion queue, `swept` completions have been copied and at most
`requeued` reads queued again.  The pass began with `old` completions. -/
structure Sweeps (x : Worker β) (b e swept requeued old : ℕ) : Prop where
  old_le : old ≤ 2 * kGroupSize
  old_le_cq : old ≤ x.cq.length
  of_old_eq_zero : old = 0 → x.outstanding = 0
  progress : swept = 0 → b < e ∨ 0 < old
  submitted_le : x.inFlight.length + x.cq.length ≤ 4 * kGroupSize
  requeued_le : x.outstanding ≤ old + requeued
  age_cq : ∀ p y, swept ≤ p → x.cq[p]? = some y → x.readBufferSlot ≤
    y.1.ticket + ((if p < old then 6 * kGroupSize - 2 else 0) + (x.outstanding - old))
  age_new : ∀ op, op ∈ x.sq ∨ op ∈ x.inFlight →
    x.readBufferSlot ≤ op.ticket + (x.outstanding - old)

/-- What is to be copied of the completion `seen`, and the read for the rest. -/
structure Copying (x : Worker β) (seen useful : ℕ) : Prop where
  seen_lt : seen < x.cq.length
  useful_eq : ∀ y, x.cq[seen]? = some y → useful = y.1.request.usefulReadLen y.2.toNat
  rest : ∀ y, x.cq[seen]? = some y → useful = y.1.request.readLen ∨
    ∃ op ∈ x.live (seen + 1), op.request.destination = y.1.request.destination + useful ∧
      op.request.readLen = y.1.request.readLen - useful

/-- What a worker maintains in each phase. -/
def PhaseInv (x : Worker β) : Prop :=
  match x.phase with
  | .top => x.sq.length < kGroupSize ∧ x.Gathers 0 (5 * kGroupSize - 2)
  | .issue b i e => b ≤ i ∧ x.sq.length < kGroupSize ∧ (b < e ∨ 0 < x.outstanding) ∧
      x.Gathers (e - i) (6 * kGroupSize - 2)
  | .submitIssue b i e => b ≤ i ∧ b < e ∧ x.Gathers (e - i) (6 * kGroupSize - 2)
  | .flush b e => x.sq.length < kGroupSize ∧ (b < e ∨ 0 < x.outstanding) ∧
      x.Gathers 0 (6 * kGroupSize - 2)
  | .wait b e => x.sq = [] ∧ (b < e ∨ 0 < x.outstanding) ∧ x.Gathers 0 (6 * kGroupSize - 2)
  | .sweep b e seen => seen ≤ x.cq.length ∧ x.sq.length < kGroupSize ∧
      ∃ old, x.Sweeps b e seen seen old
  | .requeue b e seen useful => x.Copying seen useful ∧ x.outstanding ≤ 4 * kGroupSize ∧
      ∃ old, x.Sweeps b e seen (seen + 1) old
  | .copy b e seen useful => x.Copying seen useful ∧ x.sq.length < kGroupSize ∧
      ∃ old, x.Sweeps b e seen (seen + 1) old
  | .finished => x.outstanding = 0
  | .failed => False

/-- The invariant of a worker. -/
structure Inv (c : Call β) (x : Worker β) : Prop where
  core : x.Core c x.phase.swept
  phase : x.PhaseInv

/-! ### Submitting and completing reads -/

section Kernel

variable {x : Worker β} {b e swept requeued old k : ℕ}

lemma outstanding_submitted (hk : k ≤ x.sq.length) :
    (x.submitted k).outstanding = x.outstanding := by
  show (x.sq.drop k).length + ((x.inFlight ++ x.sq.take k).length + x.cq.length) =
    x.sq.length + (x.inFlight.length + x.cq.length)
  rw [List.length_append, List.length_take, List.length_drop, min_eq_left hk]
  omega

variable {op : ReadOp} {j : ℕ}

lemma outstanding_completed (hop : x.inFlight[j]? = some op) (res : ℤ) :
    (x.completed c.array op j res).outstanding = x.outstanding := by
  obtain ⟨hj, -⟩ := List.getElem?_eq_some_iff.1 hop
  show x.sq.length + ((x.inFlight.eraseIdx j).length + (x.cq ++ [(op, res)]).length) =
    x.sq.length + (x.inFlight.length + x.cq.length)
  rw [List.length_eraseIdx_of_lt hj, List.length_append, List.length_singleton]
  omega

lemma Gathers.submitted {pending age k : ℕ} (h : x.Gathers pending age) (hk : k ≤ x.sq.length) :
    (x.submitted k).Gathers pending age where
  sq_le := by
    have hle := h.sq_le
    show (x.sq.drop k).length + pending ≤ _
    rw [List.length_drop]
    omega
  outstanding_le := by
    rw [outstanding_submitted hk]
    exact h.outstanding_le
  age_le op hop := h.age_le op ((x.live_submitted_perm k 0).subset hop)

lemma Gathers.completed {pending age : ℕ} (h : x.Gathers pending age)
    (hop : x.inFlight[j]? = some op) (res : ℤ) :
    (x.completed c.array op j res).Gathers pending age where
  sq_le := h.sq_le
  outstanding_le := by
    rw [outstanding_completed hop]
    exact h.outstanding_le
  age_le op' hop' := h.age_le op'
    ((Core.live_completed_perm x hop (Nat.zero_le _) res).subset hop')

lemma Sweeps.submitted (h : x.Sweeps b e swept requeued old) (hk : k ≤ x.sq.length)
    (hle : x.outstanding ≤ 4 * kGroupSize) : (x.submitted k).Sweeps b e swept requeued old where
  old_le := h.old_le
  old_le_cq := h.old_le_cq
  of_old_eq_zero hzero := by
    rw [outstanding_submitted hk]
    exact h.of_old_eq_zero hzero
  progress := h.progress
  submitted_le := by
    rw [← outstanding_submitted hk] at hle
    exact (Nat.le_add_left _ _).trans hle
  requeued_le := by
    rw [outstanding_submitted hk]
    exact h.requeued_le
  age_cq := by
    rw [outstanding_submitted hk]
    exact h.age_cq
  age_new op hop := by
    rw [outstanding_submitted hk]
    refine h.age_new op ?_
    rcases hop with hsq | hflight
    · exact Or.inl (List.mem_of_mem_drop hsq)
    · rcases List.mem_append.1 hflight with hold | hnew
      · exact Or.inr hold
      · exact Or.inl (List.mem_of_mem_take hnew)

lemma Sweeps.completed (h : x.Sweeps b e swept requeued old) (hop : x.inFlight[j]? = some op)
    (res : ℤ) : (x.completed c.array op j res).Sweeps b e swept requeued old where
  old_le := h.old_le
  old_le_cq := by
    have hle := h.old_le_cq
    show old ≤ (x.cq ++ [(op, res)]).length
    rw [List.length_append]
    omega
  of_old_eq_zero hzero := by
    rw [outstanding_completed hop]
    exact h.of_old_eq_zero hzero
  progress := h.progress
  submitted_le := by
    have hsame := outstanding_completed (c := c) hop res
    have hle := h.submitted_le
    simp only [outstanding] at hsame
    have hsq : (x.completed c.array op j res).sq = x.sq := rfl
    rw [hsq] at hsame
    omega
  requeued_le := by
    rw [outstanding_completed hop]
    exact h.requeued_le
  age_cq p y hp hy := by
    rw [outstanding_completed hop]
    have hcq : (x.completed c.array op j res).cq = x.cq ++ [(op, res)] := rfl
    rw [hcq] at hy
    by_cases hlt : p < x.cq.length
    · rw [List.getElem?_append_left hlt] at hy
      exact h.age_cq p y hp hy
    · have hmem : y ∈ [(op, res)] := by
        rw [List.getElem?_append_right (Nat.not_lt.1 hlt)] at hy
        exact List.mem_of_getElem? hy
      rw [List.mem_singleton.1 hmem]
      have hage := h.age_new op (Or.inr (List.mem_of_getElem? hop))
      exact hage.trans (Nat.add_le_add_left (Nat.le_add_left _ _) _)
  age_new op' hop' := by
    rw [outstanding_completed hop]
    exact h.age_new op' (hop'.imp_right List.mem_of_mem_eraseIdx)

lemma Copying.submitted {seen useful k : ℕ} (h : x.Copying seen useful) :
    (x.submitted k).Copying seen useful where
  seen_lt := h.seen_lt
  useful_eq := h.useful_eq
  rest y hy := by
    refine (h.rest y hy).imp_right fun ⟨op, hop, hrest⟩ => ⟨op, ?_, hrest⟩
    exact (x.live_submitted_perm k (seen + 1)).symm.subset hop

lemma Copying.completed {seen useful : ℕ} (h : x.Copying seen useful)
    (hop : x.inFlight[j]? = some op) (res : ℤ) :
    (x.completed c.array op j res).Copying seen useful := by
  have hcq : (x.completed c.array op j res).cq[seen]? = x.cq[seen]? :=
    List.getElem?_append_left h.seen_lt
  refine ⟨h.seen_lt.trans_le ?_, fun y hy => ?_, fun y hy => ?_⟩
  · show x.cq.length ≤ (x.cq ++ [(op, res)]).length
    rw [List.length_append]
    exact Nat.le_add_right _ _
  · rw [hcq] at hy
    exact h.useful_eq y hy
  · rw [hcq] at hy
    refine (h.rest y hy).imp_right fun ⟨op', hop', hrest⟩ => ⟨op', ?_, hrest⟩
    exact (Core.live_completed_perm x hop h.seen_lt res).symm.subset hop'

/-- **Step lemma** for the kernel: a completion that is no error keeps the invariant. -/
theorem Inv.completed (h : x.Inv c) (hop : x.inFlight[j]? = some op) {res : ℤ}
    (hres : res ≤ op.request.alignedReadSize) (hnonneg : 0 ≤ res) :
    (x.completed c.array op j res).Inv c := by
  have hlen : x.cq.length ≤ (x.cq ++ [(op, res)]).length := by
    rw [List.length_append]
    exact Nat.le_add_right _ _
  have hout := outstanding_completed (c := c) hop res
  obtain ⟨hcore, hphase⟩ := h
  have hgoal : x.phase.swept ≤ x.cq.length ∧ (x.completed c.array op j res).PhaseInv := by
    unfold PhaseInv at hphase ⊢
    have hsame : (x.completed c.array op j res).phase = x.phase := rfl
    rw [hsame, hout]
    cases hp : x.phase with
    | top =>
        rw [hp] at hphase
        exact ⟨Nat.zero_le _, hphase.1, hphase.2.completed hop res⟩
    | issue b i e =>
        rw [hp] at hphase
        obtain ⟨hbi, hsq, hprog, hgather⟩ := hphase
        exact ⟨Nat.zero_le _, hbi, hsq, hprog, hgather.completed hop res⟩
    | submitIssue b i e =>
        rw [hp] at hphase
        obtain ⟨hbi, hbe, hgather⟩ := hphase
        exact ⟨Nat.zero_le _, hbi, hbe, hgather.completed hop res⟩
    | flush b e =>
        rw [hp] at hphase
        obtain ⟨hsq, hprog, hgather⟩ := hphase
        exact ⟨Nat.zero_le _, hsq, hprog, hgather.completed hop res⟩
    | wait b e =>
        rw [hp] at hphase
        obtain ⟨hsq, hprog, hgather⟩ := hphase
        exact ⟨Nat.zero_le _, hsq, hprog, hgather.completed hop res⟩
    | sweep b e seen =>
        rw [hp] at hphase
        obtain ⟨hle, hsq, old, hsweep⟩ := hphase
        exact ⟨hle, hle.trans hlen, hsq, old, hsweep.completed hop res⟩
    | requeue b e seen useful =>
        rw [hp] at hphase
        obtain ⟨hcopy, hle, old, hsweep⟩ := hphase
        exact ⟨hcopy.seen_lt.le, hcopy.completed hop res, hle, old, hsweep.completed hop res⟩
    | copy b e seen useful =>
        rw [hp] at hphase
        obtain ⟨hcopy, hsq, old, hsweep⟩ := hphase
        exact ⟨hcopy.seen_lt.le, hcopy.completed hop res, hsq, old, hsweep.completed hop res⟩
    | finished =>
        rw [hp] at hphase
        exact ⟨Nat.zero_le _, hphase⟩
    | failed =>
        rw [hp] at hphase
        exact hphase.elim
  exact ⟨hcore.completed hop hgoal.1 hres hnonneg, hgoal.2⟩

end Kernel

end Worker

end OnDiskNpyArray

end DglAscend.Graphbolt
