import DglAscend.Graphbolt.Cache.CircularQueue
import DglAscend.Graphbolt.OnDisk.ReadRequest
import Mathlib.Data.Fintype.Basic

/-!
# Reading rows from disk (`graphbolt/src/cnumpy.cc`)

`OnDiskNpyArray::IndexSelectIOUringImpl` runs `num_thread_` workers.  They take indices from a
shared counter, and each of them reads rows through an `io_uring` of its own: it fills the
submission queue, submits it, waits until the kernel has completed all its reads, and goes
through the completion queue.  A read that comes back short is followed by one for the rest.

The kernel is the environment: it completes the submitted reads in any order and at any time.
`step` is one step of a worker or of the kernel, and a run is a list of labels of steps.
-/

namespace DglAscend.Graphbolt

/-- The members of `OnDiskNpyArray` that a call reads, as its constructor leaves them, and the
bytes of the file. -/
structure OnDiskNpyArray (β : Type) where
  /-- `feature_dim_[0]` -/
  numRows : ℕ
  featureSize : ℕ
  prefixLen : ℕ
  blockSize : ℕ
  numThread : ℕ
  file : ℕ → β
  blockSize_pow : ∃ k, blockSize = 2 ^ k
  numThread_pos : 0 < numThread

namespace OnDiskNpyArray

def kGroupSize : ℕ := 256

/-- A submitted read: the cell of `read_queue` that its user data points to, and the request
from which `io_uring_prep_read` took buffer, size and offset.  `ticket` is the number of the
request, which the kernel does not know. -/
structure ReadOp where
  userData : ℕ
  request : ReadRequest
  ticket : ℕ
deriving DecidableEq, Repr

/-- Where a worker is in its loop; `b` and `e` stand for `begin` and `end`. -/
inductive Phase where
  /-- at the head of the loop -/
  | top
  /-- before index `i` -/
  | issue (b i e : ℕ)
  /-- in the loop of `submit_fn`, which returns to index `i` -/
  | submitIssue (b i e : ℕ)
  /-- in the loop of `submit_fn` behind the last index -/
  | flush (b e : ℕ)
  | wait (b e : ℕ)
  /-- before the completion `seen` -/
  | sweep (b e seen : ℕ)
  /-- in the loop of `submit_fn`, which returns to the completion `seen` -/
  | requeue (b e seen useful : ℕ)
  /-- before the `memcpy` of the completion `seen` -/
  | copy (b e seen useful : ℕ)
  | finished
  /-- a `TORCH_CHECK` has thrown -/
  | failed
deriving DecidableEq, Repr

structure Worker (β : Type) where
  phase : Phase
  readQueue : CircularQueue ReadRequest
  numSubmitted : ℕ
  numCompleted : ℕ
  readBufferSlot : ℕ
  /-- the entries of the submission queue -/
  sq : List ReadOp
  /-- what the kernel has taken and not completed -/
  inFlight : List ReadOp
  /-- the completion queue, with the results -/
  cq : List (ReadOp × ℤ)
  buffer : ℕ → Option β

structure State (β : Type) (numThread : ℕ) where
  workQueue : ℕ
  errorFlag : ℤ
  result : ℕ → Option β
  workers : Fin numThread → Worker β

inductive Label (numThread : ℕ) where
  /-- a step of a worker; in the loop of `submit_fn`, the kernel takes `k` entries -/
  | worker (w : Fin numThread) (k : ℕ)
  /-- the kernel completes the read `j` of those in flight with the result `res` -/
  | completion (w : Fin numThread) (j : ℕ) (res : ℤ)
deriving DecidableEq

/-- A tensor of indices: the ids in `memory` from `data_ptr()` on, and where the sizes and strides
place each element. -/
structure IndexTensor where
  memory : ℕ → ℤ
  places : List ℕ

namespace IndexTensor

variable (t : IndexTensor)

def elements : List ℤ := t.places.map t.memory

/-- The first `numel()` ids from `data_ptr()` on. -/
def data : List ℤ := (List.range t.places.length).map t.memory

def IsContiguous : Prop := t.places = List.range t.places.length

def contiguous (elements : List ℤ) : IndexTensor :=
  ⟨fun p => elements.getD p 0, List.range elements.length⟩

variable {t} in
lemma IsContiguous.data_eq (h : t.IsContiguous) : t.data = t.elements := by
  rw [data, elements, ← h]

lemma isContiguous_contiguous (elements : List ℤ) : (contiguous elements).IsContiguous := by
  simp [IsContiguous, contiguous]

end IndexTensor

/-- A call of `IndexSelectIOUringImpl(index)`.  `waitNothing` is what `io_uring_wait_cqe_nr`
returns if it is to wait for no completion and there is none. -/
structure Call (β : Type) where
  array : OnDiskNpyArray β
  tensor : IndexTensor
  waitNothing : ℤ

/-- `index.data_ptr<index_t>()`: the call never looks at the strides. -/
def Call.index {β : Type} (c : Call β) : List ℤ := c.tensor.data

/-- How a call ends. -/
inductive CallEnd (β : Type) where
  | returned (result : ℕ → Option β)
  /-- `std::out_of_range("IndexError: Index out of range.")` -/
  | outOfRange
  /-- `std::runtime_error("io_uring error with errno: " + …)` -/
  | runtimeError (errno : ℤ)
  /-- the exception of a `TORCH_CHECK` of a worker -/
  | checkFailed

variable {β : Type} (a : OnDiskNpyArray β)

/-- `aligned_length_` -/
def alignedLength : ℕ := andNot (a.featureSize + a.blockSize - 1) (a.blockSize - 1)

/-- The start of a slot of the read buffer. -/
def slotStart (slot : ℕ) : ℕ := (a.alignedLength + a.blockSize) * (slot % (8 * kGroupSize))

/-- The row that an index selects, if it is in range. -/
def featureId? (id : ℤ) : Option ℕ :=
  let featureId := if id < 0 then id + a.numRows else id
  if featureId < 0 || (a.numRows : ℤ) ≤ featureId then none else some featureId.toNat

namespace Worker

variable {a} (w : Worker β)

/-- Take a slot of the read buffer, and put a read into `read_queue` and the submission queue. -/
def queueRead (a : OnDiskNpyArray β) (destination readLen offset : ℕ) : Worker β :=
  let req : ReadRequest :=
    ⟨destination, readLen, offset, a.blockSize, a.slotStart w.readBufferSlot⟩
  { w with
    readQueue := w.readQueue.push req
    sq := w.sq ++ [⟨w.readQueue.tail, req, w.readBufferSlot⟩]
    readBufferSlot := w.readBufferSlot + 1 }

/-- `io_uring_get_sqe` has an entry to give. -/
def hasSqe : Bool := w.sq.length < 2 * kGroupSize

/-- The checks of `submit_fn`. -/
def submitChecks : Bool :=
  w.readQueue.size ≤ 2 * kGroupSize &&
    w.readQueue.size + (w.numSubmitted - w.numCompleted) ≤ 4 * kGroupSize

/-- `submit_fn(minimum)` up to its loop, which it enters in the phase `loop`. -/
def submitFn (minimum : ℕ) (loop after : Phase) : Worker β :=
  if w.readQueue.size < minimum then { w with phase := after }
  else if w.submitChecks then { w with phase := loop }
  else { w with phase := .failed }

/-- One iteration of the loop of `submit_fn`, in which the kernel takes `k` entries. -/
def submitLoop (k : ℕ) (after : Phase) : Option (Worker β) :=
  if w.readQueue.isEmpty then some { w with phase := after }
  else if 0 < k && k ≤ w.sq.length then
    some { w with
      numSubmitted := w.numSubmitted + k
      readQueue := w.readQueue.popN k
      sq := w.sq.drop k
      inFlight := w.inFlight ++ w.sq.take k }
  else none

/-- `io_uring_cq_advance` behind the loop over the completion queue. -/
def advance (seen : ℕ) : Worker β :=
  { w with cq := w.cq.drop seen, numCompleted := w.numCompleted + seen, phase := .top }

/-- `num_requested_items` -/
def numRequestedItems : ℕ :=
  min (2 * kGroupSize - (w.readQueue.size + (w.numSubmitted - w.numCompleted)))
    (kGroupSize - w.readQueue.size)

/-- The index `i` of the loop over `[begin, end)`, if it is in range. -/
def issueRead (a : OnDiskNpyArray β) (b i e featureId : ℕ) : Worker β :=
  if w.hasSqe then
    (w.queueRead a (a.featureSize * i) a.featureSize
      (featureId * a.featureSize + a.prefixLen)).submitFn kGroupSize (.submitIssue b (i + 1) e)
      (.issue b (i + 1) e)
  else { w with phase := .failed }

/-- The body of the loop over the completion queue up to the `memcpy`, for a read of `actual`
bytes of the request `req`. -/
def sweepRead (a : OnDiskNpyArray β) (b e seen : ℕ) (req : ReadRequest) (actual : ℕ) : Worker β :=
  let useful := req.usefulReadLen actual
  if req.remainingReadLen actual ≠ 0 then
    if w.hasSqe then
      (w.queueRead a (req.destination + useful) (req.remainingUsefulReadLen actual)
        (req.offset + useful)).submitFn kGroupSize (.requeue b e seen useful) (.copy b e seen useful)
    else { w with phase := .failed }
  else { w with phase := .copy b e seen useful }

end Worker

/-- `memcpy` of `len` cells. -/
def copyCells {α : Type} (source : ℕ → α) (src len : ℕ) (target : ℕ → α) (dst : ℕ) : ℕ → α :=
  fun p => if dst ≤ p ∧ p < dst + len then source (src + (p - dst)) else target p

namespace State

variable {a}

def setWorker {n : ℕ} (s : State β n) (w : Fin n) (x : Worker β) : State β n :=
  { s with workers := Function.update s.workers w x }

/-- The head of the loop: `fetch_add` and the test for the end. -/
def takeItems {n : ℕ} (numel : ℕ) (s : State β n) (w : Fin n) : State β n :=
  let x := s.workers w
  let b := s.workQueue
  let s := { s with workQueue := b + x.numRequestedItems }
  if (numel ≤ b && x.readQueue.isEmpty && x.numSubmitted ≤ x.numCompleted) || 1 < s.errorFlag then
    s.setWorker w { x with phase := .finished }
  else s.setWorker w { x with phase := .issue b b (min (b + x.numRequestedItems) numel) }

/-- A step of the worker `w`.  It waits for the kernel if there is none. -/
def workerStep (c : Call β) {n : ℕ} (s : State β n) (w : Fin n) (k : ℕ) :
    Option (State β n) :=
  let x := s.workers w
  match x.phase with
  | .top => some (s.takeItems c.index.length w)
  | .issue b i e =>
    if i < e then
      match c.array.featureId? (c.index.getD i 0) with
      | none => some (State.setWorker { s with errorFlag := 1 } w
          { x with phase := .issue b (i + 1) e })
      | some featureId => some (s.setWorker w (x.issueRead c.array b i e featureId))
    else some (s.setWorker w (x.submitFn 1 (.flush b e) (.wait b e)))
  | .submitIssue b i e => (x.submitLoop k (.issue b i e)).map (s.setWorker w)
  | .flush b e => (x.submitLoop k (.wait b e)).map (s.setWorker w)
  | .wait b e =>
    let waitNr := x.numSubmitted - x.numCompleted
    if waitNr ≤ 2 * kGroupSize then
      if waitNr ≤ x.cq.length then
        if waitNr = 0 && x.cq.isEmpty && c.waitNothing ≠ 0 then
          some (s.setWorker w { x with phase := .failed })
        else some (s.setWorker w { x with phase := .sweep b e 0 })
      else none
    else some (s.setWorker w { x with phase := .failed })
  | .sweep b e seen =>
    match x.cq[seen]? with
    | none => some (s.setWorker w (x.advance seen))
    | some (op, res) =>
      if res < 0 then
        some (State.setWorker { s with errorFlag := res } w (x.advance seen))
      else (x.readQueue.data[op.userData]?).map fun req =>
        s.setWorker w (x.sweepRead c.array b e seen req res.toNat)
  | .requeue b e seen useful => (x.submitLoop k (.copy b e seen useful)).map (s.setWorker w)
  | .copy b e seen useful =>
    (x.cq[seen]?).bind fun (op, _) => (x.readQueue.data[op.userData]?).map fun req =>
      State.setWorker
        { s with result := copyCells x.buffer req.readBuffer useful s.result req.destination } w
        { x with phase := .sweep b e (seen + 1) }
  | .finished => none
  | .failed => none

/-- The kernel completes a read: a result that is not negative is the number of bytes it has
read, at most as many as it was asked for. -/
def completionStep (a : OnDiskNpyArray β) {n : ℕ} (s : State β n) (w : Fin n) (j : ℕ) (res : ℤ) :
    Option (State β n) :=
  let x := s.workers w
  (x.inFlight[j]?).bind fun op =>
    if res ≤ op.request.alignedReadSize then
      some (s.setWorker w { x with
        inFlight := x.inFlight.eraseIdx j
        cq := x.cq ++ [(op, res)]
        buffer := copyCells (fun p => some (a.file p)) op.request.alignedOffset res.toNat x.buffer
          op.request.alignedReadBuffer })
    else none

def step (c : Call β) {n : ℕ} (s : State β n) : Label n → Option (State β n)
  | .worker w k => s.workerStep c w k
  | .completion w j res => s.completionStep c.array w j res

/-- The state that a list of steps leads to. -/
def run (c : Call β) {n : ℕ} (s : State β n) (labels : List (Label n)) : Option (State β n) :=
  labels.foldlM (fun s l => s.step c l) s

/-- How the call ends, when no worker runs any more. -/
def callEnd {n : ℕ} (s : State β n) : Option (CallEnd β) :=
  if ∀ w, (s.workers w).phase = .finished ∨ (s.workers w).phase = .failed then
    if ∃ w, (s.workers w).phase = .failed then some .checkFailed
    else if s.errorFlag = 0 then some (.returned s.result)
    else if s.errorFlag = 1 then some .outOfRange
    else some (.runtimeError (-s.errorFlag))
  else none

end State

/-- A worker at its start. -/
def Worker.start (β : Type) : Worker β where
  phase := .top
  readQueue := .create (8 * kGroupSize) ⟨0, 0, 0, 0, 0⟩
  numSubmitted := 0
  numCompleted := 0
  readBufferSlot := 0
  sq := []
  inFlight := []
  cq := []
  buffer := fun _ => none

/-- The start of a call. -/
def State.start (a : OnDiskNpyArray β) : State β a.numThread where
  workQueue := 0
  errorFlag := 0
  result := fun _ => none
  workers := fun _ => .start β

end OnDiskNpyArray

end DglAscend.Graphbolt
