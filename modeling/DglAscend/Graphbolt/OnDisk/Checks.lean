import DglAscend.Graphbolt.OnDisk.SweepTurns

/-!
# Where a check can fail

Two checks of a worker can fail: that of `submit_fn` in the pass over the completion queue, if
too many short reads are queued again in it, and that of `io_uring_wait_cqe_nr`, if there is
nothing to wait for.  The other checks hold in every phase.
-/

namespace DglAscend.Graphbolt

namespace OnDiskNpyArray

variable {β : Type} {n : ℕ} {c : Call β} {s : State β n}

namespace Worker

/-- The rest of a short read can be submitted in the pass over the completion queue, if
`submit_fn` is to submit with it. -/
def RequeuesInBounds (x : Worker β) : Prop :=
  ∀ b e seen op res, x.phase = .sweep b e seen → x.cq[seen]? = some (op, res) →
    op.request.remainingReadLen res.toNat ≠ 0 → kGroupSize ≤ x.readQueue.size + 1 →
    x.readQueue.size + 1 + (x.numSubmitted - x.numCompleted) ≤ 4 * kGroupSize

/-- The checks in front of which a worker stands. -/
structure ChecksHold (c : Call β) (x : Worker β) : Prop where
  requeues : x.RequeuesInBounds
  waits : ∀ b e, x.phase = .wait b e → ¬x.WaitsForNothing c

variable {x : Worker β}

/-- `submit_fn` throws only if it is to submit too much. -/
lemma submitFn_phase_ne_failed {minimum : ℕ} {loop after : Phase} (hloop : loop ≠ .failed)
    (hafter : after ≠ .failed) (hcheck : minimum ≤ x.readQueue.size → x.submitChecks = true) :
    (x.submitFn minimum loop after).phase ≠ .failed := by
  rcases x.submitFn_cases minimum loop after with ⟨-, heq⟩ | ⟨-, -, heq⟩ | ⟨hsize, hfalse, -⟩
  · rw [heq]
    exact hafter
  · rw [heq]
    exact hloop
  · rw [hcheck hsize] at hfalse
    cases hfalse

lemma Core.submitChecks_eq (h : x.Core c 0) (hsq : x.sq.length ≤ 2 * kGroupSize)
    (hout : x.outstanding ≤ 4 * kGroupSize) : x.submitChecks = true := by
  rw [submitChecks, Bool.and_eq_true, decide_eq_true_eq, decide_eq_true_eq, h.size_eq, h.sub_eq]
  exact ⟨hsq, hout⟩

lemma size_queueRead {swept : ℕ} (h : x.Core c swept) (hroom : x.sq.length + 1 ≤ 8 * kGroupSize)
    (dst len off : ℕ) :
    (x.queueRead c.array dst len off).readQueue.size = x.readQueue.size + 1 := by
  have hqueue : (x.readQueue.push ⟨dst, len, off, c.array.blockSize,
      c.array.slotStart x.readBufferSlot⟩).Represents
      (x.sq.map ReadOp.request ++ [⟨dst, len, off, c.array.blockSize,
        c.array.slotStart x.readBufferSlot⟩]) := by
    refine h.queue.push ?_ _
    rw [List.length_map, h.capacity_eq]
    exact Nat.lt_succ_of_le hroom
  show (x.readQueue.push _).size = _
  rw [hqueue.size_eq, List.length_append, List.length_map, List.length_singleton, h.size_eq]

/-- The check of `submit_fn` for the read of an index. -/
lemma Inv.issueRead_ne_failed (h : x.Inv c) {b i e featureId : ℕ} (hphase : x.phase = .issue b i e) :
    (x.issueRead c.array b i e featureId).phase ≠ .failed := by
  have hcore : x.Core c 0 := h.of_phase_eq hphase
  have hinv := h.phase
  rw [PhaseInv, hphase] at hinv
  obtain ⟨-, hsq, -, hgather⟩ := hinv
  have hout := hgather.outstanding_le
  have hsqe : x.hasSqe = true := decide_eq_true (by omega)
  rw [Worker.issueRead, if_pos hsqe]
  refine submitFn_phase_ne_failed Phase.noConfusion Phase.noConfusion fun _ => ?_
  have hsize := size_queueRead hcore (by omega) (c.array.featureSize * i) c.array.featureSize
    (featureId * c.array.featureSize + c.array.prefixLen)
  rw [submitChecks, Bool.and_eq_true, decide_eq_true_eq, decide_eq_true_eq, hsize, hcore.size_eq]
  have hsub := hcore.sub_eq
  simp only [outstanding] at hout
  refine ⟨by omega, ?_⟩
  show x.sq.length + 1 + (x.numSubmitted - x.numCompleted) ≤ _
  omega

/-- The check of `submit_fn` for the rest of a read. -/
lemma Inv.sweepRead_ne_failed (h : x.Inv c) (hrequeue : x.RequeuesInBounds) {b e seen : ℕ}
    {op : ReadOp} {res : ℤ} {req : ReadRequest} (hphase : x.phase = .sweep b e seen)
    (hcqe : x.cq[seen]? = some (op, res)) (hreq : x.readQueue.data[op.userData]? = some req) :
    (x.sweepRead c.array b e seen req res.toNat).phase ≠ .failed := by
  have hcore : x.Core c seen := h.of_phase_eq hphase
  have hinv := h.phase
  rw [PhaseInv, hphase] at hinv
  obtain ⟨-, hsq, -⟩ := hinv
  obtain rfl := hcore.request_eq le_rfl hcqe hreq
  by_cases hrest : op.request.remainingReadLen res.toNat ≠ 0
  · have hsqe : x.hasSqe = true := decide_eq_true (by omega)
    rw [Worker.sweepRead, if_pos hrest, if_pos hsqe]
    refine submitFn_phase_ne_failed Phase.noConfusion Phase.noConfusion fun hmin => ?_
    have hsize := size_queueRead hcore (by omega)
      (op.request.destination + op.request.usefulReadLen res.toNat)
      (op.request.remainingUsefulReadLen res.toNat)
      (op.request.offset + op.request.usefulReadLen res.toNat)
    rw [hsize] at hmin
    have hbound := hrequeue b e seen op res hphase hcqe hrest hmin
    rw [submitChecks, Bool.and_eq_true, decide_eq_true_eq, decide_eq_true_eq, hsize]
    rw [hcore.size_eq] at hbound ⊢
    exact ⟨by omega, hbound⟩
  · rw [Worker.sweepRead, if_neg hrest]
    exact Phase.noConfusion

end Worker

open Worker

/-- No check fails in the turn of a worker whose checks hold. -/
theorem Turn.phase_ne_failed_of_checks {x x' : Worker β} {workQueue : ℕ} {errorFlag : ℤ}
    {result : ℕ → Option β} (h : Turn c s x workQueue errorFlag result x') (hx : x.Inv c)
    (hchecks : x.ChecksHold c) : x'.phase ≠ .failed := by
  cases h with
  | issue hphase hi hid => exact hx.issueRead_ne_failed hphase
  | flush hphase hi =>
      have hcore : x.Core c 0 := hx.of_phase_eq hphase
      have hinv := hx.phase
      rw [PhaseInv, hphase] at hinv
      obtain ⟨-, hsq, -, hgather⟩ := hinv
      have hout := hgather.outstanding_le
      refine submitFn_phase_ne_failed Phase.noConfusion Phase.noConfusion fun _ => ?_
      exact hcore.submitChecks_eq (by omega) (by omega)
  | @submitDone after hphase hempty =>
      show after ≠ .failed
      rintro rfl
      cases hp : x.phase <;> rw [hp] at hphase <;> cases hphase
  | submit hphase hempty hpos hle =>
      show x.phase ≠ .failed
      intro hfailed
      rw [hfailed] at hphase
      cases hphase
  | waitFailed hphase hcheck =>
      have hcore : x.Core c 0 := hx.of_phase_eq hphase
      have hinv := hx.phase
      rw [PhaseInv, hphase] at hinv
      obtain ⟨-, -, hgather⟩ := hinv
      have hout := hgather.outstanding_le
      rw [hcore.sub_eq] at hcheck
      simp only [outstanding] at hout
      rcases hcheck with hgt | hnothing
      · omega
      · exact absurd hnothing (hchecks.waits _ _ hphase)
  | sweepRead hphase hcqe hres hreq => exact hx.sweepRead_ne_failed hchecks.requeues hphase hcqe hreq
  | _ => exact Phase.noConfusion

end OnDiskNpyArray

end DglAscend.Graphbolt
