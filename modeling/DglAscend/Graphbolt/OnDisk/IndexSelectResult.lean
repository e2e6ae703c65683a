import DglAscend.Graphbolt.OnDisk.GoodRuns

/-!
# What a call returns

`reads_rows_of_indices` is the result for indices in range, and `read_errors_not_reported` that
for errors.  A call with a failed read does not end, and neither does one whose reads bring no more
than the bytes in front of the data.
-/

namespace DglAscend.Graphbolt

namespace OnDiskNpyArray

open Worker

variable {β : Type} {n : ℕ} {c : Call β} {s s' : State β n}

/-- The index is one of the file, counted from its end if it is negative. -/
def InRange (a : OnDiskNpyArray β) (id : ℤ) : Prop := -(a.numRows : ℤ) ≤ id ∧ id < a.numRows

/-- The row of an index in range. -/
def rowNumber (a : OnDiskNpyArray β) (id : ℤ) : ℕ := (if id < 0 then id + a.numRows else id).toNat

lemma featureId?_of_inRange {a : OnDiskNpyArray β} {id : ℤ} (h : a.InRange id) :
    a.featureId? id = some (a.rowNumber id) := by
  obtain ⟨hlow, hhigh⟩ := h
  unfold featureId? rowNumber
  dsimp only
  refine if_neg fun hout => ?_
  rw [Bool.or_eq_true, decide_eq_true_eq, decide_eq_true_eq] at hout
  split at hout <;> omega

lemma featureId?_eq_none {a : OnDiskNpyArray β} {id : ℤ} (h : ¬a.InRange id) :
    a.featureId? id = none := by
  unfold featureId?
  dsimp only
  refine if_pos ?_
  rw [Bool.or_eq_true, decide_eq_true_eq, decide_eq_true_eq]
  rw [InRange] at h
  split <;> omega

/-- No run of the call is longer, if its steps are good. -/
def Call.stepBound (c : Call β) : ℕ :=
  13 * ((c.array.featureSize + 3) * c.index.length) + 5 * c.array.numThread

lemma State.potential_start (c : Call β) : (State.start c.array).potential c = c.stepBound := by
  have hworker (w : Fin c.array.numThread) :
      ((State.start c.array).workers w).potential c = 5 := rfl
  rw [State.potential, Finset.sum_congr rfl fun w _ => hworker w, Finset.sum_const,
    Finset.card_univ, Fintype.card_fin, smul_eq_mul, Nat.mul_comm _ 5]
  rfl

namespace State.Good

/-- At the end of a good run no index is left. -/
lemma not_pending (hs : s.Good c) (hn : 0 < n)
    (hall : ∀ w, (s.workers w).phase = .finished) {i : ℕ} (hi : i < c.index.length) :
    ¬s.Pending i := by
  rintro (hle | ⟨w, hw⟩)
  · have hend := hs.finished ⟨0, hn⟩ (hall _)
    omega
  · rw [hall] at hw
    exact hw

/-- At the end of a good run no read is open. -/
lemma outstanding_eq_zero (hs : s.Good c) (hall : ∀ w, (s.workers w).phase = .finished) (w : Fin n) :
    (s.workers w).outstanding = 0 := by
  have hinv := (hs.inv w).phase
  rwa [PhaseInv, hall w] at hinv

lemma not_covers (hs : s.Good c) (hall : ∀ w, (s.workers w).phase = .finished) (w : Fin n) (p : ℕ) :
    ¬(s.workers w).Covers p := by
  rintro ⟨op, hop, -⟩
  have hout := hs.outstanding_eq_zero hall w
  have hlive := List.length_pos_of_mem hop
  rw [live, List.length_append, List.length_append, List.length_map, List.length_drop] at hlive
  simp only [outstanding] at hout
  omega

lemma callEnd_eq (hall : ∀ w, (s.workers w).phase = .finished) :
    s.callEnd = if s.errorFlag = 0 then some (.returned s.result)
      else if s.errorFlag = 1 then some .outOfRange else some (.runtimeError (-s.errorFlag)) := by
  unfold State.callEnd
  rw [if_pos fun w => Or.inl (hall w), if_neg]
  rintro ⟨w, hw⟩
  rw [hall] at hw
  cases hw

/-- An index that is out of range is reported. -/
lemma callEnd_outOfRange (hs : s.Good c) (hn : 0 < n)
    (hall : ∀ w, (s.workers w).phase = .finished) (hout : ∃ id ∈ c.index, ¬c.array.InRange id) :
    s.callEnd = some .outOfRange := by
  obtain ⟨id, hid, hrange⟩ := hout
  obtain ⟨i, hi, rfl⟩ := List.mem_iff_getElem.1 hid
  have hnone : c.array.featureId? (c.index.getD i 0) = none := by
    rw [List.getD_eq_getElem?_getD, List.getElem?_eq_getElem hi, Option.getD_some]
    exact featureId?_eq_none hrange
  have hflag := (hs.skipped i hi hnone).resolve_left (hs.not_pending hn hall hi)
  rw [callEnd_eq hall, hflag, if_neg one_ne_zero, if_pos rfl]

/-- The rows of the result, if all indices are in range. -/
lemma callEnd_returned (hs : s.Good c) (hn : 0 < n)
    (hall : ∀ w, (s.workers w).phase = .finished) (hrange : ∀ id ∈ c.index, c.array.InRange id) :
    s.callEnd = some (.returned s.result) ∧
      ∀ i (hi : i < c.index.length), ∀ k < c.array.featureSize,
        s.result (c.array.featureSize * i + k) =
          some (c.array.rowByte (c.array.rowNumber c.index[i]) k) := by
  have hsome {i : ℕ} (hi : i < c.index.length) :
      c.array.featureId? (c.index.getD i 0) = some (c.array.rowNumber c.index[i]) := by
    rw [List.getD_eq_getElem?_getD, List.getElem?_eq_getElem hi, Option.getD_some]
    exact featureId?_of_inRange (hrange _ (List.getElem_mem hi))
  constructor
  · have hzero : s.errorFlag = 0 := by
      rcases hs.flag with h | ⟨-, i, hi, hnone⟩
      · exact h
      · rw [hsome hi] at hnone
        cases hnone
    rw [callEnd_eq hall, if_pos hzero]
  · intro i hi k hk
    rcases hs.covered i hi _ (hsome hi) k hk with hp | hright | ⟨w, hw⟩
    · exact absurd hp (hs.not_pending hn hall hi)
    · exact hright.eq_rowByte hk (hsome hi)
    · exact absurd hw (hs.not_covers hall w _)

end State.Good

/-! ## Reads that fail -/

/-- A failed read of a worker stays, and keeps it from finishing. -/
lemma State.failed_of_mem {labels : List (Label n)} (hs : s.Sound)
    (h : s.run c labels = some s') {w : Fin n}
    (hfailed : ((s.workers w).HasFailed ∨ (s.workers w).phase = .failed) ∨
      ∃ j res, Label.completion w j res ∈ labels ∧ res < 0) :
    (s'.workers w).HasFailed ∨ (s'.workers w).phase = .failed := by
  induction labels generalizing s with
  | nil =>
      obtain rfl : s = s' := Option.some.inj h
      refine hfailed.resolve_right ?_
      rintro ⟨j, res, hmem, -⟩
      exact List.not_mem_nil hmem
  | cons l labels ih =>
      rw [State.run, List.foldlM_cons, Option.bind_eq_bind, Option.bind_eq_some_iff] at h
      obtain ⟨t, ht, hrest⟩ := h
      refine ih (hs.step ht) hrest ?_
      rcases hfailed with hold | ⟨j, res, hmem, hneg⟩
      · left
        cases l with
        | worker v k =>
            obtain ⟨x', ⟨hturn, hworkers⟩⟩ := takesTurn_of_workerStep ht
            rw [hworkers]
            by_cases hv : w = v
            · subst hv
              rw [Function.update_self]
              refine Or.imp (hturn.counted (hs.counted w) hs.flag_le).2 (fun hfail => ?_) hold
              exact absurd hfail hturn.phase_ne_failed.1
            · rwa [Function.update_of_ne hv]
        | completion v j res =>
            obtain ⟨op, hop, -, rfl⟩ := completionStep_eq_some ht
            show ((Function.update s.workers v _) w).HasFailed ∨
              ((Function.update s.workers v _) w).phase = .failed
            by_cases hv : w = v
            · subst hv
              rw [Function.update_self]
              exact hold.imp ((hs.counted w).completed c.array hop res).2 fun hfail => hfail
            · rwa [Function.update_of_ne hv]
      · rcases List.mem_cons.1 hmem with rfl | hmem
        · obtain ⟨op, hop, -, rfl⟩ := completionStep_eq_some ht
          refine Or.inl (Or.inl ?_)
          show ((Function.update s.workers w _) w).HasFailed
          rw [Function.update_self]
          exact ⟨(op, res), List.mem_append_right _ (List.mem_singleton.2 rfl), hneg⟩
        · exact Or.inr ⟨j, res, hmem, hneg⟩

/-- A call with a failed read has not ended, unless with the exception of a check. -/
lemma State.Sound.callEnd_of_failed (hs : s.Sound) {w : Fin n}
    (hfailed : (s.workers w).HasFailed ∨ (s.workers w).phase = .failed) :
    s.callEnd = none ∨ s.callEnd = some .checkFailed := by
  unfold State.callEnd
  split
  · rename_i hall
    right
    refine if_pos ⟨w, ?_⟩
    exact hfailed.elim (fun h => (hall w).resolve_left (hs.phase_ne_finished h)) id
  · exact Or.inl rfl

/-- **Errors of the reads**: no call reports an error of the kernel, and the worker of a failed
read does not leave its loop.  In a run without failed reads in which each completion brings its
read on and no check fails, an index out of range is reported when no read is open any more. -/
theorem read_errors_not_reported (c : Call β) {labels : List (Label c.array.numThread)}
    {s : State β c.array.numThread} (hrun : (State.start c.array).run c labels = some s) :
    (∀ errno, s.callEnd ≠ some (.runtimeError errno)) ∧
      (∀ w j res, Label.completion w j res ∈ labels → res < 0 →
        (s.workers w).phase ≠ .finished ∧ (s.callEnd = none ∨ s.callEnd = some .checkFailed)) ∧
      (RunOf c (State.GoodStep c) (State.start c.array) labels s →
        labels.length ≤ c.stepBound ∧
          ((∀ l, s.step c l = none) →
            (∀ w, (s.workers w).phase = .finished ∧ (s.workers w).outstanding = 0) ∧
              ((∃ id ∈ c.index, ¬c.array.InRange id) → s.callEnd = some .outOfRange) ∧
              ((∀ id ∈ c.index, c.array.InRange id) → ∃ result, s.callEnd = some (.returned result)))) := by
  have hsound := State.sound_of_run hrun
  refine ⟨hsound.callEnd_ne_runtimeError, fun w j res hmem hneg => ?_, fun hgood => ?_⟩
  · have hfailed := State.failed_of_mem (State.sound_start c.array) hrun
      (Or.inr ⟨j, res, hmem, hneg⟩)
    refine ⟨fun hfinished => ?_, hsound.callEnd_of_failed hfailed⟩
    rcases hfailed with h | h
    · exact hsound.phase_ne_finished h hfinished
    · rw [h] at hfinished
      cases hfinished
  · obtain ⟨hs, hle⟩ := hgood.induct_measure (P := State.Good c) (m := State.potential c)
      (fun t l t' ht hl hstep => ht.step hl hstep) (State.good_start c)
    rw [State.potential_start] at hle
    refine ⟨(Nat.le_add_right _ _).trans hle, fun hstuck => ?_⟩
    have hall := hs.finished_of_stuck hstuck
    refine ⟨fun w => ⟨hall w, hs.outstanding_eq_zero hall w⟩,
      hs.callEnd_outOfRange c.array.numThread_pos hall, fun hrange => ⟨s.result, ?_⟩⟩
    exact (hs.callEnd_returned c.array.numThread_pos hall hrange).1

/-- A file of two rows of four bytes behind a header, read by one thread. -/
def smallArray : OnDiskNpyArray ℕ where
  numRows := 2
  featureSize := 4
  prefixLen := 128
  blockSize := 4096
  numThread := 1
  file := id
  blockSize_pow := ⟨12, rfl⟩
  numThread_pos := Nat.one_pos

/-- A call on this file.  `io_uring_wait_cqe_nr` has `-EAGAIN` for a wait for nothing. -/
def smallCall (index : List ℤ) : Call ℕ := ⟨smallArray, .contiguous index, -11⟩

def smallThread : Fin smallArray.numThread := ⟨0, Nat.one_pos⟩

/-- The thread reads the first row, and the read fails with `EIO`. -/
def failingLabels : List (Label smallArray.numThread) :=
  [.worker smallThread 0, .worker smallThread 0, .worker smallThread 0, .worker smallThread 1,
    .completion smallThread 0 (-5)]

lemma exists_failing_run :
    ∃ s, (State.start smallArray).run (smallCall [0]) failingLabels = some s :=
  Option.isSome_iff_exists.1 (by decide +kernel)

theorem read_errors_not_reported_small :
    ∃ s, (State.start smallArray).run (smallCall [0]) failingLabels = some s ∧
      (∀ errno, s.callEnd ≠ some (.runtimeError errno)) ∧
      (s.workers smallThread).phase ≠ .finished := by
  obtain ⟨s, hrun⟩ := exists_failing_run
  have h := read_errors_not_reported (smallCall [0]) hrun
  refine ⟨s, hrun, h.1, (h.2.1 smallThread 0 (-5) ?_ (by decide)).1⟩
  exact List.mem_of_getElem? (i := 4) rfl

/-- A call with a failed read that goes on without end, or ends without the error. -/
theorem failed_read_not_reported :
    ∃ (labels : List (Label smallArray.numThread)) (s : State ℕ smallArray.numThread),
      (State.start smallArray).run (smallCall [0]) labels = some s ∧
        Label.completion smallThread 0 (-5) ∈ labels ∧
        ∀ labels' s', s.run (smallCall [0]) labels' = some s' →
          (s'.workers smallThread).phase ≠ .finished ∧ s'.callEnd ≠ some (.runtimeError 5) := by
  obtain ⟨s, hrun⟩ := exists_failing_run
  have hmem : Label.completion smallThread 0 (-5) ∈ failingLabels :=
    List.mem_of_getElem? (i := 4) rfl
  have hsound : s.Sound :=
    State.run_invariant hrun (fun _ _ _ ht hstep => ht.step hstep) (State.sound_start smallArray)
  have hfailed := State.failed_of_mem (State.sound_start smallArray) hrun
    (Or.inr ⟨0, -5, hmem, by decide⟩)
  refine ⟨failingLabels, s, hrun, hmem, fun labels' s' hrun' => ?_⟩
  have hsound' : s'.Sound := State.run_invariant hrun' (fun _ _ _ ht hstep => ht.step hstep) hsound
  have hfailed' := State.failed_of_mem hsound hrun' (Or.inl hfailed)
  refine ⟨fun hfinished => ?_, hsound'.callEnd_ne_runtimeError 5⟩
  rcases hfailed' with h | h
  · exact hsound'.phase_ne_finished h hfinished
  · rw [h] at hfinished
    cases hfinished

/-! ## Reads of rows in range -/

/-- The reads of the kernel bring the calls on, and the rests of the short reads fit in the queue. -/
def State.AdvancingStep (s : State β n) : Label n → Prop
  | .worker w _ => (s.workers w).RequeuesInBounds
  | .completion w j res => ∀ op, (s.workers w).inFlight[j]? = some op → Advances op res

/-- `RequeuesInBounds`, as it can be tested. -/
def Worker.requeuesInBounds (x : Worker β) : Bool :=
  match x.phase with
  | .sweep _ _ seen => (x.cq[seen]?).all fun y =>
      y.1.request.remainingReadLen y.2.toNat = 0 || x.readQueue.size + 1 < kGroupSize ||
        x.readQueue.size + 1 + (x.numSubmitted - x.numCompleted) ≤ 4 * kGroupSize
  | _ => true

lemma Worker.requeuesInBounds_eq_true {x : Worker β} (h : x.requeuesInBounds = true) :
    x.RequeuesInBounds := by
  intro b e seen op res hphase hcqe hrest hsize
  rw [Worker.requeuesInBounds, hphase] at h
  dsimp only at h
  rw [hcqe, Option.all_some] at h
  simp only [Bool.or_eq_true, decide_eq_true_eq] at h
  rcases h with (h | h) | h
  · exact absurd h hrest
  · omega
  · exact h

instance (op : ReadOp) (res : ℤ) : Decidable (Advances op res) :=
  inferInstanceAs (Decidable (_ ∧ (_ ∨ _)))

/-- A run of advancing steps, as it can be computed. -/
def State.runAdvancing (c : Call β) (s : State β n) : List (Label n) → Option (State β n)
  | [] => some s
  | .worker w k :: labels =>
      if (s.workers w).requeuesInBounds then
        (s.step c (.worker w k)).bind fun t => t.runAdvancing c labels
      else none
  | .completion w j res :: labels =>
      if ((s.workers w).inFlight[j]?).all fun op => Advances op res then
        (s.step c (.completion w j res)).bind fun t => t.runAdvancing c labels
      else none

lemma State.runOf_of_runAdvancing {s s' : State β n} {labels : List (Label n)}
    (h : s.runAdvancing c labels = some s') : RunOf c State.AdvancingStep s labels s' := by
  induction labels generalizing s with
  | nil =>
      obtain rfl : s = s' := Option.some.inj h
      exact .nil s
  | cons l labels ih =>
      cases l with
      | worker w k =>
          rw [State.runAdvancing] at h
          split at h
          · rename_i hgood
            obtain ⟨t, ht, hrest⟩ := Option.bind_eq_some_iff.1 h
            exact .cons (Worker.requeuesInBounds_eq_true hgood) ht (ih hrest)
          · cases h
      | completion w j res =>
          rw [State.runAdvancing] at h
          split at h
          · rename_i hgood
            obtain ⟨t, ht, hrest⟩ := Option.bind_eq_some_iff.1 h
            refine .cons (fun op hop => ?_) ht (ih hrest)
            rw [hop, Option.all_some, decide_eq_true_eq] at hgood
            exact hgood
          · cases h

/-- A worker that has come past an index has a read open. -/
def Worker.Busy (x : Worker β) : Prop :=
  match x.phase with
  | .issue b i _ => b < i → 0 < x.outstanding
  | .submitIssue _ _ _ => 0 < x.outstanding
  | .flush _ _ => 0 < x.outstanding
  | .wait _ _ => 0 < x.outstanding
  | _ => True

/-- If all indices are in range, no worker waits for nothing. -/
lemma Turn.busy {x x' : Worker β} {workQueue : ℕ} {errorFlag : ℤ} {result : ℕ → Option β}
    (h : Turn c s x workQueue errorFlag result x') (hx : x.Inv c) (hbusy : x.Busy)
    (hwithin : x.phase.Within c.index.length) (hrange : ∀ id ∈ c.index, c.array.InRange id) :
    x'.Busy := by
  unfold Worker.Busy at hbusy
  cases h with
  | take hphase hend => exact fun hlt => absurd hlt (lt_irrefl _)
  | @skip b i e hphase hi hid =>
      rw [hphase] at hwithin
      have hindex : i < c.index.length := hi.trans_le hwithin
      rw [List.getD_eq_getElem?_getD, List.getElem?_eq_getElem hindex, Option.getD_some,
        featureId?_of_inRange (hrange _ (List.getElem_mem hindex))] at hid
      cases hid
  | @issue b i e featureId hphase hi hid =>
      unfold Worker.issueRead
      split
      · set y := x.queueRead c.array (c.array.featureSize * i) c.array.featureSize
          (featureId * c.array.featureSize + c.array.prefixLen) with hy
        have hout : 0 < y.outstanding := by
          rw [hy, outstanding_queueRead]
          exact Nat.succ_pos _
        rcases y.submitFn_cases kGroupSize (.submitIssue b (i + 1) e) (.issue b (i + 1) e) with
          ⟨-, heq⟩ | ⟨-, -, heq⟩ | ⟨-, -, heq⟩
        · rw [heq]
          exact fun _ => hout
        · rw [heq]
          exact hout
        · rw [heq]
          exact trivial
      · exact trivial
  | @flush b i e hphase hi =>
      have hinv := hx.phase
      rw [PhaseInv, hphase] at hinv
      rw [hphase] at hbusy
      have hout : 0 < x.outstanding := by
        rcases hinv.2.2.1 with hlt | hout
        · exact hbusy (hlt.trans_le (not_lt.1 hi))
        · exact hout
      rcases x.submitFn_cases 1 (.flush b e) (.wait b e) with
        ⟨-, heq⟩ | ⟨-, -, heq⟩ | ⟨-, -, heq⟩
      · rw [heq]
        exact hout
      · rw [heq]
        exact hout
      · rw [heq]
        exact trivial
  | @submitDone after hphase hempty =>
      cases hp : x.phase <;> rw [hp] at hphase hbusy <;> cases hphase
      · exact fun _ => hbusy
      · exact hbusy
      · exact trivial
  | @submit after k hphase hempty hpos hle =>
      have hsame : (x.submitted k).phase = x.phase := rfl
      rw [Worker.Busy, hsame, outstanding_submitted hle]
      exact hbusy
  | @sweepRead b e seen op res req hphase hcqe hres hreq =>
      unfold Worker.sweepRead
      dsimp only
      split
      · split
        · rcases Worker.submitFn_cases (x.queueRead c.array
            (req.destination + req.usefulReadLen res.toNat)
            (req.remainingUsefulReadLen res.toNat) (req.offset + req.usefulReadLen res.toNat))
            kGroupSize (.requeue b e seen (req.usefulReadLen res.toNat))
            (.copy b e seen (req.usefulReadLen res.toNat)) with
            ⟨-, heq⟩ | ⟨-, -, heq⟩ | ⟨-, -, heq⟩ <;> rw [heq] <;> exact trivial
        · exact trivial
      · exact trivial
  | _ => exact trivial

/-- A busy worker that stands in front of `io_uring_wait_cqe_nr` waits for a completion. -/
lemma Worker.Inv.checksHold_of_busy {x : Worker β} (hx : x.Inv c) (hbusy : x.Busy)
    (hrequeue : x.RequeuesInBounds) : x.ChecksHold c := by
  refine ⟨hrequeue, fun b e hphase hnothing => ?_⟩
  obtain ⟨hzero, hcq, -⟩ := hnothing
  have hcore : x.Core c 0 := hx.of_phase_eq hphase
  have hinv := hx.phase
  rw [PhaseInv, hphase] at hinv
  rw [Worker.Busy, hphase] at hbusy
  have hout : 0 < x.outstanding := hbusy
  rw [hcore.sub_eq] at hzero
  rw [outstanding, hinv.1, List.length_nil] at hout
  omega

/-- A good state of a call with indices in range. -/
structure State.GoodBusy (c : Call β) (s : State β n) : Prop where
  good : s.Good c
  busy : ∀ w, (s.workers w).Busy

lemma State.GoodBusy.step (hs : s.GoodBusy c) (hrange : ∀ id ∈ c.index, c.array.InRange id)
    {l : Label n} (hadv : s.AdvancingStep l) (h : s.step c l = some s') :
    s'.GoodBusy c ∧ s'.potential c < s.potential c := by
  have hgood : s.GoodStep c l := by
    cases l with
    | worker w k => exact (hs.good.inv w).checksHold_of_busy (hs.busy w) hadv
    | completion w j res => exact hadv
  obtain ⟨hnew, hlt⟩ := hs.good.step hgood h
  refine ⟨⟨hnew, fun v => ?_⟩, hlt⟩
  cases l with
  | worker w k =>
      obtain ⟨x', ⟨hturn, hworkers⟩⟩ := takesTurn_of_workerStep h
      rw [hworkers]
      by_cases hv : v = w
      · rw [hv, Function.update_self]
        exact hturn.busy (hs.good.inv w) (hs.busy w) (hs.good.within w) hrange
      · rw [Function.update_of_ne hv]
        exact hs.busy v
  | completion w j res =>
      obtain ⟨op, hop, -, rfl⟩ := completionStep_eq_some h
      show ((Function.update s.workers w _) v).Busy
      by_cases hv : v = w
      · rw [hv, Function.update_self]
        have hbusy := hs.busy w
        unfold Worker.Busy at hbusy ⊢
        rw [outstanding_completed hop]
        exact hbusy
      · rw [Function.update_of_ne hv]
        exact hs.busy v

lemma State.goodBusy_start (c : Call β) : (State.start c.array).GoodBusy c :=
  ⟨State.good_start c, fun _ => trivial⟩

/-- The slots of two open reads do not overlap. -/
lemma Worker.slots_apart {x : Worker β} {op op' : ReadOp} (h : x.Intact c op) (h' : x.Intact c op')
    (hne : op.ticket ≠ op'.ticket) :
    op.request.alignedReadBuffer + (c.array.alignedLength + c.array.blockSize) ≤
        op'.request.alignedReadBuffer ∨
      op'.request.alignedReadBuffer + (c.array.alignedLength + c.array.blockSize) ≤
        op.request.alignedReadBuffer := by
  have hmod := h.mod_ne h' hne
  rw [h.buffer_eq, h'.buffer_eq, slotStart, slotStart]
  generalize c.array.alignedLength + c.array.blockSize = m
  rcases Nat.lt_or_gt_of_ne hmod with hlt | hlt
  · exact Or.inl ((Nat.mul_succ m _).symm.le.trans (Nat.mul_le_mul_left m hlt))
  · exact Or.inr ((Nat.mul_succ m _).symm.le.trans (Nat.mul_le_mul_left m hlt))

/-- **Reads of rows**: with all indices in range and at the start of their memory (as they are in
a contiguous tensor), a run in which each completion brings its read on and no check fails for
short reads is bounded, and where it cannot go on the call has returned the rows of the file.  The
reads that are open never share a slot, and each fits its own. -/
theorem reads_rows_of_indices (c : Call β) (hdata : c.tensor.data = c.tensor.elements)
    (hrange : ∀ id ∈ c.tensor.elements, c.array.InRange id)
    {labels : List (Label c.array.numThread)} {s : State β c.array.numThread}
    (hrun : RunOf c State.AdvancingStep (State.start c.array) labels s) :
    labels.length ≤ c.stepBound ∧
      ((∀ l, s.step c l = none) →
        ∃ result, s.callEnd = some (.returned result) ∧
          ∀ i (hi : i < c.tensor.elements.length), ∀ k < c.array.featureSize,
            result (c.array.featureSize * i + k) =
              some (c.array.rowByte (c.array.rowNumber c.tensor.elements[i]) k)) ∧
      ∀ w,
        ((s.workers w).live (s.workers w).phase.swept).Pairwise (fun op op' =>
          op.request.alignedReadBuffer + (c.array.alignedLength + c.array.blockSize) ≤
              op'.request.alignedReadBuffer ∨
            op'.request.alignedReadBuffer + (c.array.alignedLength + c.array.blockSize) ≤
              op.request.alignedReadBuffer) ∧
        ∀ op ∈ (s.workers w).live (s.workers w).phase.swept,
          op.request.alignedReadSize ≤ c.array.alignedLength + c.array.blockSize := by
  simp only [← hdata] at hrange ⊢
  obtain ⟨⟨hs, -⟩, hle⟩ := hrun.induct_measure (P := State.GoodBusy c) (m := State.potential c)
    (fun t l t' ht hl hstep => ht.step hrange hl hstep) (State.goodBusy_start c)
  rw [State.potential_start] at hle
  refine ⟨(Nat.le_add_right _ _).trans hle, fun hstuck => ?_, fun w => ⟨?_, fun op hop => ?_⟩⟩
  · have hend := hs.callEnd_returned c.array.numThread_pos (hs.finished_of_stuck hstuck) hrange
    exact ⟨s.result, hend⟩
  · have hnodup := (hs.inv w).core.nodup
    rw [List.Nodup, List.pairwise_map] at hnodup
    refine hnodup.imp_of_mem fun hop hop' hne => ?_
    exact slots_apart ((hs.inv w).core.intact _ hop) ((hs.inv w).core.intact _ hop') hne
  · have hrow := ((hs.inv w).core.intact op hop).forRow
    have hsize := ReadRequest.alignedReadSize_le hrow.blockSize_pow hrow.readLen_le
    rwa [hrow.1] at hsize

/-- Two rows are read, the second index counted from the end; the first read is short. -/
def readingLabels : List (Label smallArray.numThread) :=
  List.replicate 4 (.worker smallThread 0) ++ List.replicate 2 (.worker smallThread 2) ++
    [.completion smallThread 1 4096, .completion smallThread 0 134] ++
    List.replicate 10 (.worker smallThread 1) ++ [.completion smallThread 0 4096] ++
    List.replicate 5 (.worker smallThread 0)

theorem reads_rows_of_indices_small :
    ∃ s, RunOf (smallCall [1, -2]) State.AdvancingStep (State.start smallArray) readingLabels s ∧
      ((∀ l, s.step (smallCall [1, -2]) l = none) →
        ∃ result, s.callEnd = some (.returned result) ∧ ∀ k < 4, result k = some (132 + k)) := by
  have hsome : ((State.start smallArray).runAdvancing (smallCall [1, -2]) readingLabels).isSome =
      true := by
    decide +kernel
  obtain ⟨s, hs⟩ := Option.isSome_iff_exists.1 hsome
  have hrun := State.runOf_of_runAdvancing hs
  have hdata : (smallCall [1, -2]).tensor.data = (smallCall [1, -2]).tensor.elements :=
    (IndexTensor.isContiguous_contiguous [1, -2]).data_eq
  have hrange : ∀ id ∈ (smallCall [1, -2]).tensor.elements, smallArray.InRange id := by
    intro id hid
    rcases List.mem_cons.1 hid with rfl | hid
    · exact ⟨by decide, by decide⟩
    · rw [List.mem_singleton.1 hid]
      exact ⟨by decide, by decide⟩
  have h := reads_rows_of_indices (smallCall [1, -2]) hdata hrange hrun
  refine ⟨s, hrun, fun hstuck => ?_⟩
  obtain ⟨result, hend, hrows⟩ := h.2.1 hstuck
  refine ⟨result, hend, fun k hk => ?_⟩
  have hrow := hrows 0 (by decide) k hk
  rw [Nat.mul_zero, Nat.zero_add] at hrow
  exact hrow

end OnDiskNpyArray

end DglAscend.Graphbolt
