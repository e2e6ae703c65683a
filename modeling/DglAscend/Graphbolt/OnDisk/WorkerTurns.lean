import DglAscend.Graphbolt.OnDisk.IndexSelectIOUring

/-!
# What the steps of a read can do

`Turn` lists the steps of a worker with what they do to it and to the variables that the workers
share.  Every completion that the kernel has posted stays in the completion queue of its worker
until the worker has gone past it, and no worker goes past a failed read.
-/

namespace DglAscend.Graphbolt

namespace OnDiskNpyArray

variable {β : Type} {n : ℕ}

/-- Where the loop of `submit_fn` returns to. -/
def Phase.returnsTo : Phase → Option Phase
  | .submitIssue b i e => some (.issue b i e)
  | .flush b e => some (.wait b e)
  | .requeue b e seen useful => some (.copy b e seen useful)
  | _ => none

/-- What `io_uring_submit` does when the kernel takes `k` entries. -/
def Worker.submitted (x : Worker β) (k : ℕ) : Worker β :=
  { x with
    numSubmitted := x.numSubmitted + k
    readQueue := x.readQueue.popN k
    sq := x.sq.drop k
    inFlight := x.inFlight ++ x.sq.take k }

/-- The test that ends the loop of a worker. -/
def Worker.AtEnd (c : Call β) (s : State β n) (x : Worker β) : Prop :=
  (c.index.length ≤ s.workQueue ∧ x.readQueue.isEmpty = true ∧ x.numSubmitted ≤ x.numCompleted) ∨
    1 < s.errorFlag

/-- The check of `io_uring_wait_cqe_nr` for no completion. -/
def Worker.WaitsForNothing (c : Call β) (x : Worker β) : Prop :=
  x.numSubmitted - x.numCompleted = 0 ∧ x.cq = [] ∧ c.waitNothing ≠ 0

/-- A step of a worker, with `work_queue`, `error_flag`, the result and the worker after it. -/
inductive Turn (c : Call β) (s : State β n) (x : Worker β) :
    ℕ → ℤ → (ℕ → Option β) → Worker β → Prop where
  | finish (hphase : x.phase = .top) (hend : x.AtEnd c s) :
      Turn c s x (s.workQueue + x.numRequestedItems) s.errorFlag s.result
        { x with phase := .finished }
  | take (hphase : x.phase = .top) (hend : ¬x.AtEnd c s) :
      Turn c s x (s.workQueue + x.numRequestedItems) s.errorFlag s.result
        { x with
          phase := .issue s.workQueue s.workQueue
            (min (s.workQueue + x.numRequestedItems) c.index.length) }
  | skip {b i e : ℕ} (hphase : x.phase = .issue b i e) (hi : i < e)
      (hid : c.array.featureId? (c.index.getD i 0) = none) :
      Turn c s x s.workQueue 1 s.result { x with phase := .issue b (i + 1) e }
  | issue {b i e featureId : ℕ} (hphase : x.phase = .issue b i e) (hi : i < e)
      (hid : c.array.featureId? (c.index.getD i 0) = some featureId) :
      Turn c s x s.workQueue s.errorFlag s.result (x.issueRead c.array b i e featureId)
  | flush {b i e : ℕ} (hphase : x.phase = .issue b i e) (hi : ¬i < e) :
      Turn c s x s.workQueue s.errorFlag s.result (x.submitFn 1 (.flush b e) (.wait b e))
  | submitDone {after : Phase} (hphase : x.phase.returnsTo = some after)
      (hempty : x.readQueue.isEmpty = true) :
      Turn c s x s.workQueue s.errorFlag s.result { x with phase := after }
  | submit {after : Phase} {k : ℕ} (hphase : x.phase.returnsTo = some after)
      (hempty : ¬x.readQueue.isEmpty = true) (hpos : 0 < k) (hle : k ≤ x.sq.length) :
      Turn c s x s.workQueue s.errorFlag s.result (x.submitted k)
  | waitFailed {b e : ℕ} (hphase : x.phase = .wait b e)
      (hcheck : 2 * kGroupSize < x.numSubmitted - x.numCompleted ∨ x.WaitsForNothing c) :
      Turn c s x s.workQueue s.errorFlag s.result { x with phase := .failed }
  | waited {b e : ℕ} (hphase : x.phase = .wait b e)
      (hcheck : x.numSubmitted - x.numCompleted ≤ 2 * kGroupSize)
      (hready : x.numSubmitted - x.numCompleted ≤ x.cq.length) (hsome : ¬x.WaitsForNothing c) :
      Turn c s x s.workQueue s.errorFlag s.result { x with phase := .sweep b e 0 }
  | sweepEnd {b e seen : ℕ} (hphase : x.phase = .sweep b e seen) (hcqe : x.cq[seen]? = none) :
      Turn c s x s.workQueue s.errorFlag s.result (x.advance seen)
  | sweepError {b e seen : ℕ} {op : ReadOp} {res : ℤ} (hphase : x.phase = .sweep b e seen)
      (hcqe : x.cq[seen]? = some (op, res)) (hres : res < 0) :
      Turn c s x s.workQueue res s.result (x.advance seen)
  | sweepRead {b e seen : ℕ} {op : ReadOp} {res : ℤ} {req : ReadRequest}
      (hphase : x.phase = .sweep b e seen) (hcqe : x.cq[seen]? = some (op, res)) (hres : 0 ≤ res)
      (hreq : x.readQueue.data[op.userData]? = some req) :
      Turn c s x s.workQueue s.errorFlag s.result (x.sweepRead c.array b e seen req res.toNat)
  | copy {b e seen useful : ℕ} {op : ReadOp} {res : ℤ} {req : ReadRequest}
      (hphase : x.phase = .copy b e seen useful) (hcqe : x.cq[seen]? = some (op, res))
      (hreq : x.readQueue.data[op.userData]? = some req) :
      Turn c s x s.workQueue s.errorFlag
        (copyCells x.buffer req.readBuffer useful s.result req.destination)
        { x with phase := .sweep b e (seen + 1) }

/-- The loop of `submit_fn`. -/
lemma Turn.of_submitLoop {c : Call β} {s : State β n} {x x' : Worker β} {k : ℕ} {after : Phase}
    (hphase : x.phase.returnsTo = some after) (h : x.submitLoop k after = some x') :
    Turn c s x s.workQueue s.errorFlag s.result x' := by
  unfold Worker.submitLoop at h
  split at h
  · cases h
    exact .submitDone hphase ‹_›
  · split at h
    · rename_i hempty hk
      cases h
      simp only [Bool.and_eq_true, decide_eq_true_eq] at hk
      exact .submit hphase hempty hk.1 hk.2
    · cases h

/-- The worker `w` takes a turn, and the others stay as they are. -/
structure TakesTurn (c : Call β) (s : State β n) (w : Fin n) (s' : State β n) (x' : Worker β) :
    Prop where
  turn : Turn c s (s.workers w) s'.workQueue s'.errorFlag s'.result x'
  workers_eq : s'.workers = Function.update s.workers w x'

/-- **What a step of a worker does.** -/
theorem takesTurn_of_workerStep {c : Call β} {s s' : State β n} {w : Fin n} {k : ℕ}
    (h : s.workerStep c w k = some s') : ∃ x', TakesTurn c s w s' x' := by
  unfold State.workerStep at h
  dsimp only at h
  split at h
  · rename_i hphase
    obtain rfl : s.takeItems c.index.length w = s' := Option.some.inj h
    unfold State.takeItems
    dsimp only
    split
    · rename_i hend
      simp only [Bool.or_eq_true, Bool.and_eq_true, decide_eq_true_eq, and_assoc] at hend
      exact ⟨_, .finish hphase hend, rfl⟩
    · rename_i hend
      simp only [Bool.or_eq_true, Bool.and_eq_true, decide_eq_true_eq, and_assoc] at hend
      exact ⟨_, .take hphase hend, rfl⟩
  · rename_i b i e hphase
    split at h
    · rename_i hi
      split at h
      · rename_i hid
        cases h
        exact ⟨_, .skip hphase hi hid, rfl⟩
      · rename_i featureId hid
        cases h
        exact ⟨_, .issue hphase hi hid, rfl⟩
    · rename_i hi
      cases h
      exact ⟨_, .flush hphase hi, rfl⟩
  · rename_i b i e hphase
    obtain ⟨x', hx', rfl⟩ := Option.map_eq_some_iff.1 h
    exact ⟨x', .of_submitLoop (by rw [hphase]; rfl) hx', rfl⟩
  · rename_i b e hphase
    obtain ⟨x', hx', rfl⟩ := Option.map_eq_some_iff.1 h
    exact ⟨x', .of_submitLoop (by rw [hphase]; rfl) hx', rfl⟩
  · rename_i b e hphase
    split at h
    · rename_i hcheck
      split at h
      · rename_i hready
        split at h
        · rename_i hnone
          cases h
          simp only [Bool.and_eq_true, decide_eq_true_eq, List.isEmpty_iff, ne_eq, and_assoc] at hnone
          exact ⟨_, .waitFailed hphase (Or.inr hnone), rfl⟩
        · rename_i hnone
          cases h
          simp only [Bool.and_eq_true, decide_eq_true_eq, List.isEmpty_iff, ne_eq, and_assoc] at hnone
          exact ⟨_, .waited hphase hcheck hready hnone, rfl⟩
      · cases h
    · rename_i hcheck
      cases h
      exact ⟨_, .waitFailed hphase (Or.inl (Nat.not_le.1 hcheck)), rfl⟩
  · rename_i b e seen hphase
    split at h
    · rename_i hcqe
      cases h
      exact ⟨_, .sweepEnd hphase hcqe, rfl⟩
    · rename_i op res hcqe
      split at h
      · rename_i hres
        cases h
        exact ⟨_, .sweepError hphase hcqe hres, rfl⟩
      · rename_i hres
        obtain ⟨req, hreq, rfl⟩ := Option.map_eq_some_iff.1 h
        exact ⟨_, .sweepRead hphase hcqe (not_lt.1 hres) hreq, rfl⟩
  · rename_i b e seen useful hphase
    obtain ⟨x', hx', rfl⟩ := Option.map_eq_some_iff.1 h
    exact ⟨x', .of_submitLoop (by rw [hphase]; rfl) hx', rfl⟩
  · rename_i b e seen useful hphase
    obtain ⟨⟨op, res⟩, hcqe, hrest⟩ := Option.bind_eq_some_iff.1 h
    obtain ⟨req, hreq, rfl⟩ := Option.map_eq_some_iff.1 hrest
    exact ⟨_, .copy hphase hcqe hreq, rfl⟩
  · cases h
  · cases h

/-- The worker behind a completion of the read `j`. -/
def Worker.completed (a : OnDiskNpyArray β) (x : Worker β) (op : ReadOp) (j : ℕ) (res : ℤ) :
    Worker β :=
  { x with
    inFlight := x.inFlight.eraseIdx j
    cq := x.cq ++ [(op, res)]
    buffer := copyCells (fun p => some (a.file p)) op.request.alignedOffset res.toNat x.buffer
      op.request.alignedReadBuffer }

lemma completionStep_eq_some {a : OnDiskNpyArray β} {s s' : State β n} {w : Fin n} {j : ℕ} {res : ℤ}
    (h : s.completionStep a w j res = some s') :
    ∃ op, (s.workers w).inFlight[j]? = some op ∧ res ≤ op.request.alignedReadSize ∧
      s' = s.setWorker w ((s.workers w).completed a op j res) := by
  obtain ⟨op, hop, hrest⟩ := Option.bind_eq_some_iff.1 h
  split at hrest
  · cases hrest
    exact ⟨op, hop, ‹_›, rfl⟩
  · cases hrest

end OnDiskNpyArray

end DglAscend.Graphbolt
