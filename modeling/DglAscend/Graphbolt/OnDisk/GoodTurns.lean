import DglAscend.Graphbolt.OnDisk.WorkerInvariant

/-!
# Turns that keep the invariant

Every turn of a worker after which no check has failed keeps the invariant.
-/

namespace DglAscend.Graphbolt

namespace OnDiskNpyArray

variable {β : Type} {n : ℕ} {c : Call β} {s : State β n}

namespace Worker

variable {x : Worker β}

/-- The number of items that a worker asks for leaves its reads below the bounds. -/
lemma Core.numRequestedItems_eq (h : x.Core c 0) :
    x.numRequestedItems = min (2 * kGroupSize - x.outstanding) (kGroupSize - x.sq.length) := by
  rw [numRequestedItems, h.size_eq, h.sub_eq, outstanding]

lemma Inv.of_phase_eq {p : Phase} (h : x.Inv c) (hphase : x.phase = p) : x.Core c p.swept :=
  hphase ▸ h.core

lemma Inv.take (h : x.Inv c) (hphase : x.phase = .top) (hend : ¬x.AtEnd c s) :
    ({ x with
        phase := .issue s.workQueue s.workQueue
          (min (s.workQueue + x.numRequestedItems) c.index.length) } : Worker β).Inv c := by
  have hcore : x.Core c 0 := h.of_phase_eq hphase
  have hinv := h.phase
  rw [PhaseInv, hphase] at hinv
  obtain ⟨hsq, hgather⟩ := hinv
  have hnum := hcore.numRequestedItems_eq
  set num := x.numRequestedItems
  have hpos := kGroupSize_pos
  have hsq_le := hgather.sq_le
  have hout_le := hgather.outstanding_le
  refine ⟨hcore.phase _, le_rfl, hsq, ?_, ?_, ?_, fun op hop => ?_⟩
  · -- A worker without open reads goes on only if there are items left.
    show _ ∨ 0 < x.outstanding
    by_cases hzero : x.outstanding = 0
    · left
      have hnil : x.sq = [] := by
        rw [← List.length_eq_zero_iff]
        simp only [outstanding] at hzero
        omega
      have hdone : x.numSubmitted ≤ x.numCompleted := by
        have hcount := hcore.count_eq
        simp only [outstanding] at hzero
        omega
      have hleft : s.workQueue < c.index.length := by
        by_contra hnot
        exact hend (Or.inl ⟨not_lt.1 hnot, hcore.isEmpty_iff.2 hnil, hdone⟩)
      rw [hzero, hnil, List.length_nil] at hnum
      omega
    · exact Or.inr (Nat.pos_of_ne_zero hzero)
  · show x.sq.length + (min (s.workQueue + num) c.index.length - s.workQueue) ≤ kGroupSize
    omega
  · show x.outstanding + (min (s.workQueue + num) c.index.length - s.workQueue) ≤ 2 * kGroupSize
    omega
  · have hage := hgather.age_le op hop
    show x.readBufferSlot + (min (s.workQueue + num) c.index.length - s.workQueue) ≤ _
    omega

variable {b i e featureId : ℕ}

/-- An index that is out of range is skipped. -/
lemma Inv.skip (h : x.Inv c) (hphase : x.phase = .issue b i e) :
    ({ x with phase := .issue b (i + 1) e } : Worker β).Inv c := by
  have hcore : x.Core c 0 := h.of_phase_eq hphase
  have hinv := h.phase
  rw [PhaseInv, hphase] at hinv
  obtain ⟨hbi, hsq, hprog, hgather⟩ := hinv
  refine ⟨hcore.phase _, hbi.trans (Nat.le_succ i), hsq, hprog, ?_, ?_, fun op hop => ?_⟩
  · have hle := hgather.sq_le
    show x.sq.length + (e - (i + 1)) ≤ _
    omega
  · have hle := hgather.outstanding_le
    show x.outstanding + (e - (i + 1)) ≤ _
    omega
  · have hage := hgather.age_le op hop
    show x.readBufferSlot + (e - (i + 1)) ≤ _
    omega

lemma outstanding_queueRead (a : OnDiskNpyArray β) (x : Worker β) (dst len off : ℕ) :
    (x.queueRead a dst len off).outstanding = x.outstanding + 1 := by
  rw [outstanding, outstanding, queueRead]
  dsimp only
  rw [List.length_append, List.length_singleton]
  omega

lemma mem_live_queueRead {a : OnDiskNpyArray β} {dst len off swept : ℕ} {op : ReadOp}
    (hop : op ∈ (x.queueRead a dst len off).live swept) :
    op ∈ x.live swept ∨ op.ticket = x.readBufferSlot := by
  rcases mem_live.1 hop with hsq | hrest
  · rcases List.mem_append.1 hsq with hold | hnew
    · exact Or.inl (mem_live.2 (Or.inl hold))
    · exact Or.inr (by rw [List.mem_singleton.1 hnew])
  · exact Or.inl (mem_live.2 (Or.inr hrest))

lemma Inv.issueRead (h : x.Inv c) (hphase : x.phase = .issue b i e) (hi : i < e)
    (hindex : i < c.index.length) (hid : c.array.featureId? (c.index.getD i 0) = some featureId)
    (hok : (x.issueRead c.array b i e featureId).phase ≠ .failed) :
    (x.issueRead c.array b i e featureId).Inv c := by
  have hcore : x.Core c 0 := h.of_phase_eq hphase
  have hinv := h.phase
  rw [PhaseInv, hphase] at hinv
  obtain ⟨hbi, hsq, -, hgather⟩ := hinv
  have hpos := kGroupSize_pos
  have hsqe : x.hasSqe = true := decide_eq_true (by omega)
  set y := x.queueRead c.array (c.array.featureSize * i) c.array.featureSize
    (featureId * c.array.featureSize + c.array.prefixLen) with hy
  have hrow : ForRow c ⟨c.array.featureSize * i, c.array.featureSize,
      featureId * c.array.featureSize + c.array.prefixLen, c.array.blockSize,
      c.array.slotStart x.readBufferSlot⟩ :=
    ⟨rfl, i, featureId, 0, hindex, hid, rfl, rfl, Nat.zero_add _⟩
  have hcore' : y.Core c 0 := by
    refine hcore.queueRead (by omega) (fun op hop => ?_) hrow
    have hage := hgather.age_le op hop
    omega
  have hsq' : y.sq.length = x.sq.length + 1 := by
    rw [hy, queueRead, List.length_append, List.length_singleton]
  have hgather' : y.Gathers (e - (i + 1)) (6 * kGroupSize - 2) := by
    refine ⟨?_, ?_, fun op hop => ?_⟩
    · have hle := hgather.sq_le
      omega
    · have hle := hgather.outstanding_le
      rw [hy, outstanding_queueRead]
      omega
    · have hle := hgather.sq_le
      show x.readBufferSlot + 1 + _ ≤ _
      rcases mem_live_queueRead hop with hold | hnew
      · have hage := hgather.age_le op hold
        omega
      · omega
  have hrun : x.issueRead c.array b i e featureId =
      y.submitFn kGroupSize (.submitIssue b (i + 1) e) (.issue b (i + 1) e) := by
    rw [Worker.issueRead, if_pos hsqe]
  rw [hrun] at hok ⊢
  rcases y.submitFn_cases kGroupSize (.submitIssue b (i + 1) e) (.issue b (i + 1) e) with
    ⟨hsize, heq⟩ | ⟨-, -, heq⟩ | ⟨-, -, heq⟩
  · rw [heq]
    rw [hcore'.size_eq] at hsize
    refine ⟨hcore'.phase _, hbi.trans (Nat.le_succ i), hsize, Or.inl (by omega), ?_⟩
    exact ⟨hgather'.1, hgather'.2, hgather'.3⟩
  · rw [heq]
    refine ⟨hcore'.phase _, hbi.trans (Nat.le_succ i), by omega, ?_⟩
    exact ⟨hgather'.1, hgather'.2, hgather'.3⟩
  · rw [heq] at hok
    exact absurd rfl hok

lemma Inv.flush (h : x.Inv c) (hphase : x.phase = .issue b i e) (hi : ¬i < e)
    (hok : (x.submitFn 1 (.flush b e) (.wait b e)).phase ≠ .failed) :
    (x.submitFn 1 (.flush b e) (.wait b e)).Inv c := by
  have hcore : x.Core c 0 := h.of_phase_eq hphase
  have hinv := h.phase
  rw [PhaseInv, hphase] at hinv
  obtain ⟨hbi, hsq, hprog, hgather⟩ := hinv
  rw [Nat.sub_eq_zero_of_le (not_lt.1 hi)] at hgather
  rcases x.submitFn_cases 1 (.flush b e) (.wait b e) with ⟨hsize, heq⟩ | ⟨-, -, heq⟩ | ⟨-, -, heq⟩
  · rw [heq]
    rw [hcore.size_eq] at hsize
    have hnil : x.sq = [] := List.length_eq_zero_iff.1 (by omega)
    exact ⟨hcore.phase _, hnil, hprog, hgather.1, hgather.2, hgather.3⟩
  · rw [heq]
    exact ⟨hcore.phase _, hsq, hprog, hgather.1, hgather.2, hgather.3⟩
  · rw [heq] at hok
    exact absurd rfl hok

/-- The end of the loop of `submit_fn`. -/
lemma Inv.submitDone (h : x.Inv c) {after : Phase} (hphase : x.phase.returnsTo = some after)
    (hempty : x.readQueue.isEmpty = true) : ({ x with phase := after } : Worker β).Inv c := by
  have hnil : x.sq = [] := h.core.isEmpty_iff.1 hempty
  have hlen : x.sq.length < kGroupSize := by
    rw [hnil]
    exact kGroupSize_pos
  have hcore := h.core
  have hinv := h.phase
  cases hp : x.phase with
  | submitIssue b i e =>
      rw [hp] at hphase hcore
      rw [PhaseInv, hp] at hinv
      cases hphase
      obtain ⟨hbi, hbe, hgather⟩ := hinv
      exact ⟨hcore.phase _, hbi, hlen, Or.inl hbe, hgather.1, hgather.2, hgather.3⟩
  | flush b e =>
      rw [hp] at hphase hcore
      rw [PhaseInv, hp] at hinv
      cases hphase
      obtain ⟨-, hprog, hgather⟩ := hinv
      exact ⟨hcore.phase _, hnil, hprog, hgather.1, hgather.2, hgather.3⟩
  | requeue b e seen useful =>
      rw [hp] at hphase hcore
      rw [PhaseInv, hp] at hinv
      cases hphase
      obtain ⟨hcopy, -, old, hsweep⟩ := hinv
      exact ⟨hcore.phase _, ⟨hcopy.1, hcopy.2, hcopy.3⟩, hlen, old, hsweep.1, hsweep.2, hsweep.3,
        hsweep.4, hsweep.5, hsweep.6, hsweep.7, hsweep.8⟩
  | _ =>
      rw [hp] at hphase
      cases hphase

/-- An iteration of the loop of `submit_fn`. -/
lemma Inv.submitted (h : x.Inv c) {after : Phase} {k : ℕ}
    (hphase : x.phase.returnsTo = some after) (hk : k ≤ x.sq.length) : (x.submitted k).Inv c := by
  refine ⟨h.core.submitted hk, ?_⟩
  have hinv := h.phase
  have hsq : (x.submitted k).sq.length ≤ x.sq.length := by
    show (x.sq.drop k).length ≤ _
    rw [List.length_drop]
    exact Nat.sub_le _ _
  unfold PhaseInv at hinv ⊢
  have hsame : (x.submitted k).phase = x.phase := rfl
  rw [hsame, outstanding_submitted hk]
  cases hp : x.phase with
  | submitIssue b i e =>
      rw [hp] at hinv
      obtain ⟨hbi, hbe, hgather⟩ := hinv
      exact ⟨hbi, hbe, hgather.submitted hk⟩
  | flush b e =>
      rw [hp] at hinv
      obtain ⟨hlen, hprog, hgather⟩ := hinv
      exact ⟨hsq.trans_lt hlen, hprog, hgather.submitted hk⟩
  | requeue b e seen useful =>
      rw [hp] at hinv
      obtain ⟨hcopy, hle, old, hsweep⟩ := hinv
      exact ⟨hcopy.submitted, hle, old, hsweep.submitted hk hle⟩
  | _ =>
      rw [hp] at hphase
      cases hphase

/-- The kernel has completed all reads that were submitted. -/
lemma Inv.waited (h : x.Inv c) (hphase : x.phase = .wait b e)
    (hready : x.numSubmitted - x.numCompleted ≤ x.cq.length) :
    ({ x with phase := .sweep b e 0 } : Worker β).Inv c := by
  have hcore : x.Core c 0 := h.of_phase_eq hphase
  have hinv := h.phase
  rw [PhaseInv, hphase] at hinv
  obtain ⟨hnil, hprog, hgather⟩ := hinv
  rw [hcore.sub_eq] at hready
  have hflight : x.inFlight = [] := List.length_eq_zero_iff.1 (by omega)
  have hout : x.outstanding = x.cq.length := by
    rw [outstanding, hnil, hflight, List.length_nil, Nat.zero_add, Nat.zero_add]
  have hle := hgather.outstanding_le
  refine ⟨hcore.phase _, Nat.zero_le _, by rw [hnil]; exact kGroupSize_pos, x.cq.length, ?_⟩
  refine ⟨by omega, le_rfl, fun hzero => hout.trans hzero, fun _ => hout ▸ hprog, ?_, hout.le,
    fun p y _ hy => ?_, fun op hop => ?_⟩
  · show x.inFlight.length + x.cq.length ≤ _
    rw [hflight, List.length_nil]
    omega
  · have hmem : y.1 ∈ x.live 0 :=
      mem_live.2 (Or.inr (Or.inr ⟨y, List.mem_of_getElem? hy, rfl⟩))
    have hage := hgather.age_le y.1 hmem
    have hp : p < x.cq.length := (List.getElem?_eq_some_iff.1 hy).1
    rw [if_pos hp]
    exact hage.trans (Nat.add_le_add_left (Nat.le_add_right _ _) _)
  · rcases hop with hsq | hfl
    · exact absurd (hnil ▸ hsq) List.not_mem_nil
    · exact absurd (hflight ▸ hfl) List.not_mem_nil

end Worker

end OnDiskNpyArray

end DglAscend.Graphbolt
