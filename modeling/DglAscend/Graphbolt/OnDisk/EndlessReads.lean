import DglAscend.Graphbolt.OnDisk.IndexSelectResult

/-!
# Reads without end

A completion that covers no more than the bytes in front of the data makes no byte useful, and the
read for the rest is the same again.  `Spins` is the state of a worker with one such read: it is
back in it after nine steps, so the call goes on as long as the kernel answers so.
-/

namespace DglAscend.Graphbolt

namespace OnDiskNpyArray

open Worker

variable {β : Type} {n : ℕ} {c : Call β} {s s' : State β n}

/-- The kernel completes no read with an error or with nothing. -/
def State.PositiveStep (_ : State β n) : Label n → Prop
  | .worker _ _ => True
  | .completion _ _ res => 0 < res

variable {good : State β n → Label n → Prop} {t : State β n}

lemma RunOf.append {labels labels' : List (Label n)} (h : RunOf c good s labels t)
    (h' : RunOf c good t labels' s') : RunOf c good s (labels ++ labels') s' := by
  induction h with
  | nil s => exact h'
  | cons hgood hstep hrest ih => exact .cons hgood hstep (ih h')

/-- A run without end goes through states that can all be left. -/
theorem exists_infinite_run {P : State β n → Prop}
    (hnext : ∀ s, P s → ∃ l t, good s l ∧ s.step c l = some t ∧ P t) (hs : P s) :
    ∃ (states : ℕ → State β n) (labels : ℕ → Label n), states 0 = s ∧
      ∀ m, good (states m) (labels m) ∧ (states m).step c (labels m) = some (states (m + 1)) := by
  have : Nonempty (State β n) := ⟨s⟩
  have : Nonempty (Label n) := (hnext s hs).nonempty
  choose! label next hgood hstep hkeep using hnext
  have hall (m : ℕ) : P (next^[m] s) := by
    induction m with
    | zero => exact hs
    | succ m ih =>
        rw [Function.iterate_succ_apply']
        exact hkeep _ ih
  refine ⟨fun m => next^[m] s, fun m => label (next^[m] s), rfl, fun m => ⟨hgood _ (hall m), ?_⟩⟩
  rw [hstep _ (hall m)]
  exact congrArg some (Function.iterate_succ_apply' next m s).symm

variable {w : Fin n} {x x' : Worker β}

/-- Every turn is a step of the worker. -/
theorem workerStep_of_turn {workQueue : ℕ} {errorFlag : ℤ} {result : ℕ → Option β}
    (h : Turn c s (s.workers w) workQueue errorFlag result x') : ∃ k, s.workerStep c w k =
      some ⟨workQueue, errorFlag, result, Function.update s.workers w x'⟩ := by
  have hloop {after : Phase} (k : ℕ) (hphase : (s.workers w).phase.returnsTo = some after) :
      s.workerStep c w k = ((s.workers w).submitLoop k after).map (s.setWorker w) := by
    unfold State.workerStep
    dsimp only
    cases hp : (s.workers w).phase <;> rw [hp] at hphase <;> cases hphase <;> rfl
  cases h with
  | finish hphase hend =>
      refine ⟨0, ?_⟩
      have hcond : (c.index.length ≤ s.workQueue ∧ (s.workers w).readQueue.isEmpty = true ∧
          (s.workers w).numSubmitted ≤ (s.workers w).numCompleted) ∨ 1 < s.errorFlag := hend
      simp only [State.workerStep, hphase, State.takeItems]
      rw [if_pos]
      · rfl
      · simpa only [Bool.or_eq_true, Bool.and_eq_true, decide_eq_true_eq, and_assoc] using hcond
  | take hphase hend =>
      refine ⟨0, ?_⟩
      have hcond : ¬((c.index.length ≤ s.workQueue ∧ (s.workers w).readQueue.isEmpty = true ∧
          (s.workers w).numSubmitted ≤ (s.workers w).numCompleted) ∨ 1 < s.errorFlag) := hend
      simp only [State.workerStep, hphase, State.takeItems]
      rw [if_neg]
      · rfl
      · simpa only [Bool.or_eq_true, Bool.and_eq_true, decide_eq_true_eq, and_assoc] using hcond
  | skip hphase hi hid =>
      refine ⟨0, ?_⟩
      simp only [State.workerStep, hphase, if_pos hi, hid]
      rfl
  | issue hphase hi hid =>
      refine ⟨0, ?_⟩
      simp only [State.workerStep, hphase, if_pos hi, hid]
      rfl
  | flush hphase hi =>
      refine ⟨0, ?_⟩
      simp only [State.workerStep, hphase, if_neg hi]
      rfl
  | submitDone hphase hempty =>
      refine ⟨0, ?_⟩
      rw [hloop 0 hphase, Worker.submitLoop, if_pos hempty]
      rfl
  | @submit after k hphase hempty hpos hle =>
      refine ⟨k, ?_⟩
      have hk : (0 < k && k ≤ (s.workers w).sq.length) = true := by
        rw [Bool.and_eq_true, decide_eq_true_eq, decide_eq_true_eq]
        exact ⟨hpos, hle⟩
      rw [hloop k hphase, Worker.submitLoop, if_neg hempty, if_pos hk]
      rfl
  | waitFailed hphase hcheck =>
      refine ⟨0, ?_⟩
      simp only [State.workerStep, hphase]
      by_cases hle : (s.workers w).numSubmitted - (s.workers w).numCompleted ≤ 2 * kGroupSize
      · have hnone := hcheck.resolve_left (Nat.not_lt.2 hle)
        have hcond : (s.workers w).numSubmitted - (s.workers w).numCompleted = 0 ∧
            (s.workers w).cq = [] ∧ c.waitNothing ≠ 0 := hnone
        rw [if_pos hle, if_pos (hnone.1.le.trans (Nat.zero_le _)), if_pos]
        · rfl
        · simpa only [Bool.and_eq_true, decide_eq_true_eq, List.isEmpty_iff, and_assoc] using hcond
      · rw [if_neg hle]
        rfl
  | waited hphase hcheck hready hsome =>
      refine ⟨0, ?_⟩
      have hcond : ¬((s.workers w).numSubmitted - (s.workers w).numCompleted = 0 ∧
          (s.workers w).cq = [] ∧ c.waitNothing ≠ 0) := hsome
      simp only [State.workerStep, hphase]
      rw [if_pos hcheck, if_pos hready, if_neg]
      · rfl
      · simpa only [Bool.and_eq_true, decide_eq_true_eq, List.isEmpty_iff, and_assoc] using hcond
  | sweepEnd hphase hcqe =>
      refine ⟨0, ?_⟩
      simp only [State.workerStep, hphase, hcqe]
      rfl
  | sweepError hphase hcqe hres =>
      refine ⟨0, ?_⟩
      simp only [State.workerStep, hphase, hcqe, if_pos hres]
      rfl
  | sweepRead hphase hcqe hres hreq =>
      refine ⟨0, ?_⟩
      simp only [State.workerStep, hphase, hcqe, if_neg (not_lt.2 hres), hreq]
      rfl
  | copy hphase hcqe hreq =>
      refine ⟨0, ?_⟩
      simp only [State.workerStep, hphase, hcqe, Option.bind_some, hreq]
      rfl

/-- A run of at least one step, without errors. -/
def Leads (c : Call β) (s s' : State β n) : Prop :=
  ∃ l labels, RunOf c State.PositiveStep s (l :: labels) s'

lemma Leads.trans (h : Leads c s t) (h' : Leads c t s') : Leads c s s' := by
  obtain ⟨l, labels, hrun⟩ := h
  obtain ⟨l', labels', hrun'⟩ := h'
  exact ⟨l, labels ++ l' :: labels', hrun.append hrun'⟩

lemma leads_of_turn {workQueue : ℕ} {errorFlag : ℤ} {result : ℕ → Option β} (hx : s.workers w = x)
    (h : Turn c s x workQueue errorFlag result x') :
    ∃ t, Leads c s t ∧ t.workers w = x' ∧ t.workQueue = workQueue ∧ t.errorFlag = errorFlag := by
  subst hx
  obtain ⟨k, hstep⟩ := workerStep_of_turn h
  refine ⟨_, ⟨.worker w k, [], .cons trivial hstep (.nil _)⟩, ?_, rfl, rfl⟩
  exact Function.update_self _ _ _

lemma leads_of_completion (hx : s.workers w = x) {op : ReadOp} {j : ℕ}
    (hop : x.inFlight[j]? = some op) {res : ℤ} (hpos : 0 < res)
    (hres : res ≤ op.request.alignedReadSize) :
    ∃ t, Leads c s t ∧ t.workers w = x.completed c.array op j res ∧ t.workQueue = s.workQueue ∧
      t.errorFlag = s.errorFlag := by
  subst hx
  have hstep : s.step c (.completion w j res) =
      some (s.setWorker w ((s.workers w).completed c.array op j res)) := by
    rw [State.step, State.completionStep, hop, Option.bind_some, if_pos hres]
    rfl
  refine ⟨_, ⟨.completion w j res, [], .cons hpos hstep (.nil _)⟩, ?_, rfl, rfl⟩
  exact Function.update_self _ _ _

/-- Behind the last index, the worker has one read open, which has not been submitted. -/
structure Spins (c : Call β) (w : Fin n) (s : State β n) : Prop where
  flag_le : s.errorFlag ≤ 1
  length_le : c.index.length ≤ s.workQueue
  core : (s.workers w).Core c 0
  phase_eq : ∃ b i e, (s.workers w).phase = .issue b i e ∧ ¬i < e
  sq_eq : ∃ op, (s.workers w).sq = [op] ∧ op.ticket + 1 = (s.workers w).readBufferSlot ∧
    0 < op.request.padding ∧ 0 < op.request.readLen
  inFlight_eq : (s.workers w).inFlight = []
  cq_eq : (s.workers w).cq = []

/-- A byte in front of the data: nothing of the read is useful. -/
lemma usefulReadLen_one {req : ReadRequest} (hblock : ∃ k, req.blockSize = 2 ^ k)
    (hpad : 0 < req.padding) : req.usefulReadLen 1 = 0 := by
  rw [ReadRequest.usefulReadLen_eq hblock]
  omega

/-- **A round** of a worker whose read brings one byte leads to the same state. -/
theorem Spins.round (h : Spins c w s) : ∃ t, Leads c s t ∧ Spins c w t := by
  obtain ⟨b, i, e, hphase, hie⟩ := h.phase_eq
  obtain ⟨op, hsq, hticket, hpad, hlen⟩ := h.sq_eq
  have hflight := h.inFlight_eq
  have hcq := h.cq_eq
  have hcore := h.core
  set x := s.workers w with hx
  have hsub : x.numSubmitted - x.numCompleted = 0 := by
    rw [hcore.sub_eq, hflight, hcq]
    rfl
  have hintact := hcore.intact op (mem_live.2 (Or.inl (hsq ▸ List.mem_singleton.2 rfl)))
  have hblock := hintact.forRow.blockSize_pow
  have huseful := usefulReadLen_one hblock hpad
  have hremain : op.request.remainingReadLen 1 ≠ 0 := by
    rw [ReadRequest.remainingReadLen, ReadRequest.minimumReadSize_eq hblock]
    omega
  have hsize : x.readQueue.size = 1 := by rw [hcore.size_eq, hsq]; rfl
  have hpos := kGroupSize_pos
  -- `submit_fn` submits the read.
  have hsubmit : x.submitFn 1 (.flush b e) (.wait b e) = { x with phase := .flush b e } := by
    have hchecks : x.submitChecks = true := by
      rw [submitChecks, Bool.and_eq_true, decide_eq_true_eq, decide_eq_true_eq, hsize, hsub]
      omega
    rw [Worker.submitFn, if_neg (by omega), if_pos hchecks]
  obtain ⟨s₁, h₁, hx₁, hq₁, hf₁⟩ := leads_of_turn (c := c) hx.symm (.flush hphase hie)
  rw [hsubmit] at hx₁
  set x₁ : Worker β := { x with phase := .flush b e } with hdef₁
  have hcore₁ : x₁.Core c 0 := hcore.phase _
  have hempty₁ : ¬x₁.readQueue.isEmpty = true := by
    rw [hcore₁.isEmpty_iff]
    show ¬x.sq = []
    rw [hsq]
    exact List.cons_ne_nil _ _
  have hle₁ : 1 ≤ x₁.sq.length := by
    show 1 ≤ x.sq.length
    rw [hsq]
    exact le_rfl
  have hreturn₁ : x₁.phase.returnsTo = some (.wait b e) := rfl
  obtain ⟨s₂, h₂, hx₂, hq₂, hf₂⟩ := leads_of_turn (c := c) hx₁
    (.submit hreturn₁ hempty₁ Nat.one_pos hle₁)
  have hcore₂ : (x₁.submitted 1).Core c 0 :=
    hcore₁.submitted hle₁
  have hsq₂ : (x₁.submitted 1).sq = [] := by
    show x.sq.drop 1 = []
    rw [hsq]
    rfl
  have hflight₂ : (x₁.submitted 1).inFlight = [op] := by
    show x.inFlight ++ x.sq.take 1 = [op]
    rw [hflight, hsq]
    rfl
  obtain ⟨s₃, h₃, hx₃, hq₃, hf₃⟩ := leads_of_turn (c := c) hx₂
    (.submitDone hreturn₁ (hcore₂.isEmpty_iff.2 hsq₂))
  set x₃ : Worker β := { x₁.submitted 1 with phase := .wait b e } with hdef₃
  have hcore₃ : x₃.Core c 0 := hcore₂.phase _
  -- The kernel completes it with one byte.
  have hop₃ : x₃.inFlight[0]? = some op := by
    show (x₁.submitted 1).inFlight[0]? = some op
    rw [hflight₂]
    rfl
  have hres : (1 : ℤ) ≤ op.request.alignedReadSize := by
    have hle := ReadRequest.minimumReadSize_le_alignedReadSize hblock
    rw [ReadRequest.minimumReadSize_eq hblock] at hle
    omega
  obtain ⟨s₄, h₄, hx₄, hq₄, hf₄⟩ := leads_of_completion (c := c) hx₃ hop₃ one_pos hres
  set x₄ := x₃.completed c.array op 0 1 with hdef₄
  have hcore₄ : x₄.Core c 0 := hcore₃.completed hop₃ (Nat.zero_le _) hres zero_le_one
  have hflight₄ : x₄.inFlight = [] := by
    show (x₁.submitted 1).inFlight.eraseIdx 0 = []
    rw [hflight₂]
    rfl
  have hcq₄ : x₄.cq = [(op, 1)] := by
    show x.cq ++ [(op, 1)] = [(op, 1)]
    rw [hcq]
    rfl
  have hsub₄ : x₄.numSubmitted - x₄.numCompleted = 1 := by
    rw [hcore₄.sub_eq, hflight₄, hcq₄]
    rfl
  have hphase₄ : x₄.phase = .wait b e := rfl
  have hready₄ : x₄.numSubmitted - x₄.numCompleted ≤ x₄.cq.length := by
    rw [hsub₄, hcq₄]
    exact le_rfl
  have hsome₄ : ¬x₄.WaitsForNothing c := by
    rintro ⟨hzero, -⟩
    omega
  obtain ⟨s₅, h₅, hx₅, hq₅, hf₅⟩ := leads_of_turn (c := c) hx₄
    (.waited hphase₄ (by omega) hready₄ hsome₄)
  set x₅ : Worker β := { x₄ with phase := .sweep b e 0 } with hdef₅
  have hcore₅ : x₅.Core c 0 := hcore₄.phase _
  have hcqe₅ : x₅.cq[0]? = some (op, 1) := by
    show x₄.cq[0]? = some (op, 1)
    rw [hcq₄]
    rfl
  have hmem₅ : op ∈ x₅.live 0 :=
    mem_live.2 (Or.inr (Or.inr ⟨(op, 1), List.mem_of_getElem? hcqe₅, rfl⟩))
  have hsq₅ : x₅.sq = [] := hsq₂
  -- The read for the rest is the same read.
  set y := x₅.queueRead c.array (op.request.destination + op.request.usefulReadLen 1)
    (op.request.remainingUsefulReadLen 1) (op.request.offset + op.request.usefulReadLen 1) with hy
  have hcorey : y.Core c 0 := by
    refine hcore₅.queueRead ?_ (fun op' hop' => ?_) (hintact.forRow.rest 1 _)
    · rw [hsq₅]
      exact Nat.succ_lt_succ (by decide)
    · have hthis : op' = op := by
        rcases mem_live.1 hop' with hmem | hmem | ⟨z, hz, rfl⟩
        · rw [hsq₅] at hmem
          exact absurd hmem List.not_mem_nil
        · have hnil : x₅.inFlight = [] := hflight₄
          rw [hnil] at hmem
          exact absurd hmem List.not_mem_nil
        · have hone : x₅.cq = [(op, 1)] := hcq₄
          rw [hone] at hz
          rw [List.mem_singleton.1 hz]
      have hslot : x₅.readBufferSlot = op.ticket + 1 := hticket.symm
      rw [hthis, hslot]
      omega
  have hsweep : x₅.sweepRead c.array b e 0 op.request (Int.toNat 1) =
      { y with phase := .copy b e 0 (op.request.usefulReadLen 1) } := by
    have hsqe : x₅.hasSqe = true := by
      rw [hasSqe, hsq₅]
      exact decide_eq_true (by decide)
    have hsizey : y.readQueue.size < kGroupSize := by
      have hone : y.sq.length = 1 := by
        show (x₅.sq ++ [_]).length = 1
        rw [hsq₅]
        rfl
      rw [hcorey.size_eq, hone]
      decide
    rw [Int.toNat_one, Worker.sweepRead, if_pos hremain, if_pos hsqe, Worker.submitFn,
      if_pos hsizey]
  have hphase₅ : x₅.phase = .sweep b e 0 := rfl
  obtain ⟨s₆, h₆, hx₆, hq₆, hf₆⟩ := leads_of_turn (c := c) hx₅
    (.sweepRead hphase₅ hcqe₅ zero_le_one (hcore₅.intact op hmem₅).cell_eq)
  rw [hsweep] at hx₆
  set x₆ : Worker β := { y with phase := .copy b e 0 (op.request.usefulReadLen 1) } with hdef₆
  have hcore₆ : x₆.Core c 0 := hcorey.phase _
  have hcqe₆ : x₆.cq[0]? = some (op, 1) := hcqe₅
  have hmem₆ : op ∈ x₆.live 0 :=
    mem_live.2 (Or.inr (Or.inr ⟨(op, 1), List.mem_of_getElem? hcqe₆, rfl⟩))
  have hphase₆ : x₆.phase = .copy b e 0 (op.request.usefulReadLen 1) := rfl
  obtain ⟨s₇, h₇, hx₇, hq₇, hf₇⟩ := leads_of_turn (c := c) hx₆
    (.copy hphase₆ hcqe₆ (hcore₆.intact op hmem₆).cell_eq)
  set x₇ : Worker β := { x₆ with phase := .sweep b e 1 } with hdef₇
  have hcore₇ : x₇.Core c 1 := hcore₆.succ.phase _
  have hcq₇ : x₇.cq = [(op, 1)] := hcq₄
  have hcqe₇ : x₇.cq[1]? = none := by
    rw [hcq₇]
    rfl
  have hphase₇ : x₇.phase = .sweep b e 1 := rfl
  obtain ⟨s₈, h₈, hx₈, hq₈, hf₈⟩ := leads_of_turn (c := c) hx₇ (.sweepEnd hphase₇ hcqe₇)
  have hcore₈ : (x₇.advance 1).Core c 0 := by
    refine hcore₇.advance ?_
    rw [hcq₇]
    exact le_rfl
  have hsq₈ : (x₇.advance 1).sq = [⟨x₅.readQueue.tail, ⟨op.request.destination +
      op.request.usefulReadLen 1, op.request.remainingUsefulReadLen 1,
      op.request.offset + op.request.usefulReadLen 1, c.array.blockSize,
      c.array.slotStart x₅.readBufferSlot⟩, x₅.readBufferSlot⟩] := by
    show x₅.sq ++ [_] = _
    rw [hsq₅]
    rfl
  have hflag : s₈.errorFlag ≤ 1 := by
    have hle := h.flag_le
    omega
  have hqueue : c.index.length ≤ s₈.workQueue := by
    have hle := h.length_le
    omega
  -- Back at the head of the loop, there is a read to submit.
  have hend : ¬(x₇.advance 1).AtEnd c s₈ := by
    rintro (⟨-, hempty, -⟩ | hgt)
    · rw [hcore₈.isEmpty_iff, hsq₈] at hempty
      cases hempty
    · omega
  have hphase₈ : (x₇.advance 1).phase = .top := rfl
  obtain ⟨s₉, h₉, hx₉, hq₉, hf₉⟩ := leads_of_turn (c := c) hx₈ (.take hphase₈ hend)
  refine ⟨s₉, h₁.trans (h₂.trans (h₃.trans (h₄.trans (h₅.trans (h₆.trans (h₇.trans
    (h₈.trans h₉))))))), ?_, ?_, ?_, ?_, ?_, ?_, ?_⟩
  · rw [hf₉]
    exact hflag
  · rw [hq₉]
    exact hqueue.trans (Nat.le_add_right _ _)
  · rw [hx₉]
    exact hcore₈.phase _
  · rw [hx₉]
    refine ⟨_, _, _, rfl, ?_⟩
    exact not_lt.2 ((min_le_right _ _).trans hqueue)
  · rw [hx₉]
    refine ⟨_, hsq₈, rfl, ?_, ?_⟩
    · show 0 < ReadRequest.padding ⟨_, _, op.request.offset + op.request.usefulReadLen 1,
        c.array.blockSize, _⟩
      rw [huseful, Nat.add_zero, ← hintact.forRow.1]
      exact hpad
    · show 0 < op.request.remainingUsefulReadLen 1
      rw [op.request.remainingUsefulReadLen_eq, huseful]
      exact hlen
  · rw [hx₉]
    exact hflight₄
  · rw [hx₉]
    show x₇.cq.drop 1 = []
    rw [hcq₇]
    rfl

/-- A call that leads to such a state does not end, if the kernel answers so. -/
theorem Spins.endless (h : Spins c w t) (hlead : Leads c s t) :
    ∃ (states : ℕ → State β n) (labels : ℕ → Label n), states 0 = s ∧
      ∀ m, State.PositiveStep (states m) (labels m) ∧
        (states m).step c (labels m) = some (states (m + 1)) := by
  let P (s : State β n) : Prop := ∃ t, Leads c s t ∧ Spins c w t
  refine exists_infinite_run (P := P) (fun s hs => ?_) ⟨t, hlead, h⟩
  obtain ⟨t, ⟨l, labels, hrun⟩, hspins⟩ := hs
  cases hrun with
  | @cons _ u _ _ _ hgood hstep hrest =>
      refine ⟨l, u, hgood, hstep, ?_⟩
      cases labels with
      | nil =>
          cases hrest
          exact hspins.round
      | cons l' labels => exact ⟨t, ⟨l', labels, hrest⟩, hspins⟩

/-- The index is in range and no read fails, but the call does not end. -/
theorem positive_reads_endless :
    (smallCall [0]).tensor.IsContiguous ∧
      (∀ id ∈ (smallCall [0]).tensor.elements, smallArray.InRange id) ∧
      ∃ (states : ℕ → State ℕ smallArray.numThread) (labels : ℕ → Label smallArray.numThread),
        states 0 = State.start smallArray ∧
        ∀ m, State.PositiveStep (states m) (labels m) ∧
          (states m).step (smallCall [0]) (labels m) = some (states (m + 1)) := by
  refine ⟨IndexTensor.isContiguous_contiguous [0], fun id hid => ?_, ?_⟩
  · rw [List.mem_singleton.1 hid]
    exact ⟨by decide, by decide⟩
  have hinv : (Worker.start ℕ).Inv (smallCall [0]) := (State.good_start (smallCall [0])).inv smallThread
  have hend : ¬(Worker.start ℕ).AtEnd (smallCall [0]) (State.start smallArray) := by
    rintro (⟨hle, -⟩ | hgt)
    · exact absurd hle (by decide)
    · exact absurd hgt (by decide)
  obtain ⟨s₁, h₁, hx₁, hq₁, hf₁⟩ := leads_of_turn (c := smallCall [0])
    (s := State.start smallArray) (w := smallThread) rfl (.take rfl hend)
  have hinv₁ := hinv.take rfl hend
  set x₁ : Worker ℕ := { Worker.start ℕ with
    phase := .issue (State.start smallArray).workQueue (State.start smallArray).workQueue
      (min ((State.start smallArray).workQueue + (Worker.start ℕ).numRequestedItems)
        (smallCall [0]).index.length) } with hdef₁
  have hphase₁ : x₁.phase = .issue 0 0 1 := by decide +kernel
  have hid : smallArray.featureId? ((smallCall [0]).index.getD 0 0) = some 0 := by decide
  have hphase₂ : (x₁.issueRead smallArray 0 0 1 0).phase = .issue 0 1 1 := by decide +kernel
  have hsq₂ : (x₁.issueRead smallArray 0 0 1 0).sq = [⟨0, ⟨0, 4, 128, 4096, 0⟩, 0⟩] := by
    decide +kernel
  obtain ⟨hsame, -, -⟩ := x₁.issueRead_frame smallArray 0 0 1 0
  obtain ⟨s₂, h₂, hx₂, hq₂, hf₂⟩ := leads_of_turn (c := smallCall [0]) hx₁
    (.issue hphase₁ Nat.one_pos hid)
  have hinv₂ : (x₁.issueRead smallArray 0 0 1 0).Inv (smallCall [0]) := by
    refine hinv₁.issueRead hphase₁ Nat.one_pos Nat.one_pos hid ?_
    show (x₁.issueRead smallArray 0 0 1 0).phase ≠ .failed
    rw [hphase₂]
    exact Phase.noConfusion
  refine Spins.endless (w := smallThread) ?_ (h₁.trans h₂)
  refine ⟨?_, ?_, ?_, ?_, ?_, ?_, ?_⟩
  · rw [hf₂, hf₁]
    exact zero_le_one
  · rw [hq₂, hq₁]
    decide +kernel
  · rw [hx₂]
    exact hinv₂.of_phase_eq hphase₂
  · rw [hx₂]
    exact ⟨0, 1, 1, hphase₂, lt_irrefl 1⟩
  · rw [hx₂]
    refine ⟨_, hsq₂, ?_, by decide, by decide⟩
    decide +kernel
  · rw [hx₂]
    exact hsame.inFlight_eq
  · rw [hx₂]
    exact hsame.cq_eq

end OnDiskNpyArray

end DglAscend.Graphbolt
