import DglAscend.Graphbolt.OnDisk.GoodTurns

/-!
# The pass over the completion queue

The pass goes over the completions that it found at its start and over those that come in while
it runs.  A short read is queued again in it, and the check of `submit_fn` bounds how many are
submitted before the pass ends.
-/

namespace DglAscend.Graphbolt

namespace OnDiskNpyArray

variable {β : Type} {n : ℕ} {c : Call β} {s : State β n}

namespace Worker

variable {x : Worker β} {b e swept requeued old : ℕ}

/-- A pass that has a completion to look at began with one. -/
lemma Sweeps.old_pos (h : x.Sweeps b e swept requeued old) (hcq : x.cq ≠ []) : 0 < old := by
  refine Nat.pos_of_ne_zero fun hzero => hcq ?_
  have hout := h.of_old_eq_zero hzero
  rw [← List.length_eq_zero_iff]
  simp only [outstanding] at hout
  omega

lemma Sweeps.old_le_outstanding (h : x.Sweeps b e swept requeued old) : old ≤ x.outstanding := by
  have hle := h.old_le_cq
  simp only [outstanding]
  omega

lemma Sweeps.outstanding_lt (h : x.Sweeps b e swept requeued old) (hsq : x.sq.length < kGroupSize) :
    x.outstanding < 5 * kGroupSize := by
  have hle := h.submitted_le
  simp only [outstanding]
  omega

/-- The age of a read whose bytes have not been copied leaves a slot free. -/
lemma Sweeps.window {b e seen old : ℕ} (h : x.Sweeps b e seen seen old)
    (hsq : x.sq.length < kGroupSize) {op : ReadOp} (hop : op ∈ x.live seen) :
    x.readBufferSlot < op.ticket + 8 * kGroupSize := by
  have hpos := kGroupSize_pos
  have hlt := h.outstanding_lt hsq
  have hnew (hmem : op ∈ x.sq ∨ op ∈ x.inFlight) : x.readBufferSlot < op.ticket + 8 * kGroupSize := by
    have hage := h.age_new op hmem
    omega
  rcases mem_live.1 hop with hmem | hmem | ⟨y, hy, rfl⟩
  · exact hnew (Or.inl hmem)
  · exact hnew (Or.inr hmem)
  · obtain ⟨p, hp⟩ := List.mem_iff_getElem?.1 hy
    rw [List.getElem?_drop] at hp
    have hage := h.age_cq (seen + p) y (Nat.le_add_right _ _) hp
    by_cases hold : seen + p < old
    · -- An old completion: the pass has queued at most one read for each before it.
      rw [if_pos hold] at hage
      have hreq := h.requeued_le
      have hle := h.old_le
      omega
    · rw [if_neg hold] at hage
      omega

lemma Inv.sweepEnd (h : x.Inv c) {b e seen : ℕ} (hphase : x.phase = .sweep b e seen)
    (hcqe : x.cq[seen]? = none) : (x.advance seen).Inv c := by
  have hcore : x.Core c seen := h.of_phase_eq hphase
  have hinv := h.phase
  rw [PhaseInv, hphase] at hinv
  obtain ⟨hle, hsq, old, hsweep⟩ := hinv
  have hseen : x.cq.length = seen := le_antisymm (List.getElem?_eq_none_iff.1 hcqe) hle
  have hout : (x.advance seen).outstanding + seen = x.outstanding := by
    show x.sq.length + (x.inFlight.length + (x.cq.drop seen).length) + seen =
      x.sq.length + (x.inFlight.length + x.cq.length)
    rw [List.length_drop]
    omega
  refine ⟨hcore.advance hle, hsq, hsq.le, ?_, fun op hop => ?_⟩
  · have hreq := hsweep.requeued_le
    have hold := hsweep.old_le
    omega
  · have hlt := hsweep.outstanding_lt hsq
    have hmem : op ∈ x.sq ∨ op ∈ x.inFlight := by
      rcases mem_live.1 hop with hmem | hmem | ⟨y, hy, -⟩
      · exact Or.inl hmem
      · exact Or.inr hmem
      · have hnil : (x.advance seen).cq = [] := List.drop_eq_nil_of_le hseen.le
        rw [List.drop_zero, hnil] at hy
        exact absurd hy List.not_mem_nil
    have hage := hsweep.age_new op hmem
    have hpos : 0 < old := by
      refine Nat.pos_of_ne_zero fun hzero => ?_
      have hnone := hsweep.of_old_eq_zero hzero
      simp only [outstanding] at hnone
      rcases hmem with hmem | hmem
      · have := List.length_pos_of_mem hmem
        omega
      · have := List.length_pos_of_mem hmem
        omega
    show x.readBufferSlot + 0 ≤ _
    omega

lemma Core.request_eq {swept seen : ℕ} (h : x.Core c swept) (hle : swept ≤ seen) {op : ReadOp}
    {res : ℤ} (hcqe : x.cq[seen]? = some (op, res)) {req : ReadRequest}
    (hreq : x.readQueue.data[op.userData]? = some req) : req = op.request := by
  have hmem : (op, res) ∈ x.cq.drop swept := by
    refine List.mem_iff_getElem?.2 ⟨seen - swept, ?_⟩
    rw [List.getElem?_drop, Nat.add_sub_cancel' hle]
    exact hcqe
  have hcell := (h.intact op (mem_live.2 (Or.inr (Or.inr ⟨_, hmem, rfl⟩)))).cell_eq
  exact Option.some.inj (hreq.symm.trans hcell)

lemma Inv.sweepRead (h : x.Inv c) {b e seen : ℕ} {op : ReadOp} {res : ℤ} {req : ReadRequest}
    (hphase : x.phase = .sweep b e seen) (hcqe : x.cq[seen]? = some (op, res))
    (hreq : x.readQueue.data[op.userData]? = some req)
    (hok : (x.sweepRead c.array b e seen req res.toNat).phase ≠ .failed) :
    (x.sweepRead c.array b e seen req res.toNat).Inv c := by
  have hcore : x.Core c seen := h.of_phase_eq hphase
  have hinv := h.phase
  rw [PhaseInv, hphase] at hinv
  obtain ⟨-, hsq, old, hsweep⟩ := hinv
  obtain rfl := hcore.request_eq le_rfl hcqe hreq
  have hpos := kGroupSize_pos
  obtain ⟨hseen, -⟩ := List.getElem?_eq_some_iff.1 hcqe
  have hmem : op ∈ x.live seen := by
    refine mem_live.2 (Or.inr (Or.inr ⟨(op, res), List.mem_iff_getElem?.2 ⟨0, ?_⟩, rfl⟩))
    rw [List.getElem?_drop]
    exact hcqe
  have hrow := (hcore.intact op hmem).forRow
  set useful := op.request.usefulReadLen res.toNat with huseful
  by_cases hrest : op.request.remainingReadLen res.toNat ≠ 0
  · -- A short read: the rest is queued.
    have hsqe : x.hasSqe = true := decide_eq_true (by omega)
    set y := x.queueRead c.array (op.request.destination + useful)
      (op.request.remainingUsefulReadLen res.toNat) (op.request.offset + useful) with hy
    have hcore' : y.Core c seen :=
      hcore.queueRead (by omega) (fun op' hop' => hsweep.window hsq hop') (hrow.rest res.toNat _)
    have hsq' : y.sq.length = x.sq.length + 1 := by
      rw [hy, queueRead, List.length_append, List.length_singleton]
    have hout' : y.outstanding = x.outstanding + 1 := outstanding_queueRead _ x _ _ _
    have hold : 0 < old := hsweep.old_pos (List.ne_nil_of_length_pos (by omega))
    have hle := hsweep.old_le_outstanding
    have hsweep' : y.Sweeps b e seen (seen + 1) old := by
      refine ⟨hsweep.old_le, hsweep.old_le_cq, fun hzero => ?_, hsweep.progress,
        hsweep.submitted_le, ?_, fun p z hp hz => ?_, fun op' hop' => ?_⟩
      · omega
      · have hreq' := hsweep.requeued_le
        omega
      · have hage := hsweep.age_cq p z hp hz
        show x.readBufferSlot + 1 ≤ _
        omega
      · show x.readBufferSlot + 1 ≤ _
        rcases hop' with hmem' | hmem'
        · rcases List.mem_append.1 hmem' with hmem' | hmem'
          · have hage := hsweep.age_new op' (Or.inl hmem')
            omega
          · rw [List.mem_singleton.1 hmem']
            show x.readBufferSlot + 1 ≤ x.readBufferSlot + (y.outstanding - old)
            omega
        · have hage := hsweep.age_new op' (Or.inr hmem')
          omega
    have hcopy : y.Copying seen useful := by
      refine ⟨hseen, fun z hz => ?_, fun z hz => Or.inr ⟨⟨x.readQueue.tail, _, x.readBufferSlot⟩,
        mem_live.2 (Or.inl (List.mem_append_right _ (List.mem_singleton.2 rfl))), ?_, ?_⟩⟩
      · obtain rfl : (op, res) = z := Option.some.inj (hcqe.symm.trans hz)
        exact huseful
      · obtain rfl : (op, res) = z := Option.some.inj (hcqe.symm.trans hz)
        rfl
      · obtain rfl : (op, res) = z := Option.some.inj (hcqe.symm.trans hz)
        exact op.request.remainingUsefulReadLen_eq res.toNat
    have hrun : x.sweepRead c.array b e seen op.request res.toNat =
        y.submitFn kGroupSize (.requeue b e seen useful) (.copy b e seen useful) := by
      rw [Worker.sweepRead, if_pos hrest, if_pos hsqe]
    rw [hrun] at hok ⊢
    rcases y.submitFn_cases kGroupSize (.requeue b e seen useful) (.copy b e seen useful) with
      ⟨hsize, heq⟩ | ⟨-, hcheck, heq⟩ | ⟨-, -, heq⟩
    · rw [heq]
      rw [hcore'.size_eq] at hsize
      exact ⟨hcore'.phase _, ⟨hcopy.1, hcopy.2, hcopy.3⟩, hsize, old, hsweep'.1, hsweep'.2,
        hsweep'.3, hsweep'.4, hsweep'.5, hsweep'.6, hsweep'.7, hsweep'.8⟩
    · rw [heq]
      have hbound : y.outstanding ≤ 4 * kGroupSize := by
        rw [submitChecks, Bool.and_eq_true, decide_eq_true_eq, decide_eq_true_eq, hcore'.size_eq,
          hcore'.sub_eq] at hcheck
        exact hcheck.2
      exact ⟨hcore'.phase _, ⟨hcopy.1, hcopy.2, hcopy.3⟩, hbound, old, hsweep'.1, hsweep'.2,
        hsweep'.3, hsweep'.4, hsweep'.5, hsweep'.6, hsweep'.7, hsweep'.8⟩
    · rw [heq] at hok
      exact absurd rfl hok
  · -- All of the read has come.
    have hrun : x.sweepRead c.array b e seen op.request res.toNat =
        { x with phase := .copy b e seen useful } := by
      rw [Worker.sweepRead, if_neg hrest]
    rw [hrun]
    refine ⟨hcore.phase _, ⟨hseen, fun z hz => ?_, fun z hz => Or.inl ?_⟩, hsq, old, hsweep.1,
      hsweep.2, hsweep.3, hsweep.4, hsweep.5, hsweep.6.trans (Nat.le_succ _), hsweep.7, hsweep.8⟩
    · obtain rfl : (op, res) = z := Option.some.inj (hcqe.symm.trans hz)
      exact huseful
    · obtain rfl : (op, res) = z := Option.some.inj (hcqe.symm.trans hz)
      exact ReadRequest.usefulReadLen_of_remaining_eq_zero hrow.blockSize_pow (not_not.1 hrest)

/-- The bytes of a completion have been copied. -/
lemma Inv.copy (h : x.Inv c) {b e seen useful : ℕ} (hphase : x.phase = .copy b e seen useful) :
    ({ x with phase := .sweep b e (seen + 1) } : Worker β).Inv c := by
  have hcore : x.Core c seen := h.of_phase_eq hphase
  have hinv := h.phase
  rw [PhaseInv, hphase] at hinv
  obtain ⟨hcopy, hsq, old, hsweep⟩ := hinv
  refine ⟨hcore.succ.phase _, hcopy.seen_lt, hsq, old, hsweep.1, hsweep.2, hsweep.3, fun hzero => ?_,
    hsweep.5, hsweep.6, fun p y hp hy => ?_, hsweep.8⟩
  · exact absurd hzero (Nat.succ_ne_zero seen)
  · exact hsweep.age_cq p y (Nat.le_of_succ_le hp) hy

/-- A worker that has found the end has no open reads. -/
lemma Inv.finish (h : x.Inv c) (hphase : x.phase = .top) (hend : x.AtEnd c s)
    (hflag : s.errorFlag ≤ 1) : ({ x with phase := .finished } : Worker β).Inv c := by
  have hcore : x.Core c 0 := h.of_phase_eq hphase
  refine ⟨hcore.phase _, ?_⟩
  rcases hend with ⟨-, hempty, hdone⟩ | hgt
  · have hnil := hcore.isEmpty_iff.1 hempty
    have hcount := hcore.count_eq
    show x.sq.length + (x.inFlight.length + x.cq.length) = 0
    rw [hnil, List.length_nil]
    omega
  · omega

end Worker

open Worker

/-- The indices that a worker goes through lie in the index tensor. -/
def Phase.Within (numel : ℕ) : Phase → Prop
  | .issue _ _ e => e ≤ numel
  | .submitIssue _ _ e => e ≤ numel
  | _ => True

/-- **Step lemma** for a worker: a turn after which no check has failed keeps the invariant. -/
theorem Turn.inv {x x' : Worker β} {workQueue : ℕ} {errorFlag : ℤ} {result : ℕ → Option β}
    (h : Turn c s x workQueue errorFlag result x') (hx : x.Inv c) (hflag : s.errorFlag ≤ 1)
    (hwithin : x.phase.Within c.index.length) (hok : x'.phase ≠ .failed) : x'.Inv c := by
  cases h with
  | finish hphase hend => exact hx.finish hphase hend hflag
  | take hphase hend => exact hx.take hphase hend
  | skip hphase hi hid => exact hx.skip hphase
  | issue hphase hi hid =>
      rw [hphase] at hwithin
      exact hx.issueRead hphase hi (hi.trans_le hwithin) hid hok
  | flush hphase hi => exact hx.flush hphase hi hok
  | submitDone hphase hempty => exact hx.submitDone hphase hempty
  | submit hphase hempty hpos hle => exact hx.submitted hphase hle
  | waitFailed hphase hcheck => exact absurd rfl hok
  | waited hphase hcheck hready hsome => exact hx.waited hphase hready
  | sweepEnd hphase hcqe => exact hx.sweepEnd hphase hcqe
  | @sweepError b e seen op res hphase hcqe hres =>
      -- The completions of the worker are not negative.
      have hcore : x.Core c seen := hx.of_phase_eq hphase
      have hmem : (op, errorFlag) ∈ x.cq.drop seen := mem_drop_of_getElem? hcqe
      exact absurd hres (not_lt.2 (hcore.nonneg _ hmem))
  | sweepRead hphase hcqe hres hreq => exact hx.sweepRead hphase hcqe hreq hok
  | copy hphase hcqe hreq => exact hx.copy hphase

end OnDiskNpyArray

end DglAscend.Graphbolt
