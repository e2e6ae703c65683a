import Mathlib.Data.Finset.Card
import Mathlib.Data.Int.Order.Basic
import Mathlib.Algebra.Ring.Int.Defs
import Mathlib.Algebra.BigOperators.Group.List.Basic
import Mathlib.Algebra.Order.BigOperators.Group.List

/-!
# The message queue

`MessageQueue` of `rpc/network/msg_queue.cc`, called by any number of threads.  A call is a sequence of
atomic sections: what it does from taking the lock to waiting or to returning, and what it does from
the end of the wait on, which comes only when the condition that it waits for holds.
-/

namespace DglAscend.Network

/-- `Message`; the deallocator is named by a number. -/
structure Message where
  data : ℕ
  size : ℤ
  receiverId : ℤ
  deallocator : Option ℕ
  deriving DecidableEq, Repr

/-- The status codes of calls that have not moved a message. -/
inductive Status
  | msgGtSize
  | msgLeZero
  | queueClose
  | queueFull
  | queueEmpty
  deriving DecidableEq, Repr

/-- `MessageQueue` -/
structure MessageQueue where
  queue : List Message
  queueSize : ℤ
  freeSize : ℤ
  numProducers : ℕ
  finishedProducers : Finset ℤ
  exitFlag : Bool

/-- How a section ends: with `ADD_SUCCESS`, with `REMOVE_SUCCESS`, with another status, in a wait, at the
end of `SignalFinished`, or reading the front of an empty queue. -/
inductive Outcome
  | added (msg : Message)
  | removed (msg : Message)
  | failed (status : Status)
  | waits
  | signalled
  | outOfBounds
  deriving DecidableEq, Repr

namespace MessageQueue

variable (q : MessageQueue)

/-- The constructor. -/
def create (queueSize numProducers : ℤ) : Option MessageQueue :=
  if 0 ≤ queueSize ∧ 0 ≤ numProducers then
    some ⟨[], queueSize, queueSize, numProducers.toNat, ∅, false⟩
  else none

/-- `finished_producers_.size() >= num_producers_` -/
def noMoreAdd : Bool := q.numProducers ≤ q.finishedProducers.card

/-- What `Add` returns before it waits. -/
def addRefusal (msg : Message) (isBlocking : Bool) : Option Status :=
  if msg.size > q.queueSize then some .msgGtSize
  else if msg.size ≤ 0 then some .msgLeZero
  else if q.noMoreAdd then some .queueClose
  else if msg.size > q.freeSize ∧ isBlocking = false then some .queueFull
  else none

/-- The end of `Add`. -/
def push (msg : Message) : MessageQueue :=
  { q with queue := q.queue ++ [msg], freeSize := q.freeSize - msg.size }

/-- What `Remove` returns before it waits. -/
def removeRefusal (isBlocking : Bool) : Option Status :=
  if q.queue = [] then
    if isBlocking = false then some .queueEmpty
    else if q.noMoreAdd then some .queueClose
    else none
  else none

/-- What `Remove` waits for. -/
def canRemove : Bool := q.queue ≠ [] ∨ q.exitFlag = true

/-- The end of `Remove`. -/
def pop : Outcome × MessageQueue :=
  if q.noMoreAdd = true ∧ q.queue = [] then (.failed .queueClose, q)
  else match q.queue with
    | [] => (.outOfBounds, q)
    | msg :: rest => (.removed msg, { q with queue := rest, freeSize := q.freeSize + msg.size })

/-- `SignalFinished` -/
def signalFinished (producerId : ℤ) : MessageQueue :=
  let finished := insert producerId q.finishedProducers
  { q with
    finishedProducers := finished
    exitFlag := q.exitFlag || decide (q.numProducers ≤ finished.card) }

/-- `Empty` -/
def empty : Bool := q.queue.length = 0

/-- `EmptyAndNoMoreAdd` -/
def emptyAndNoMoreAdd : Bool := q.queue.length = 0 ∧ q.noMoreAdd = true

end MessageQueue

/-! ## Threads -/

/-- Where a thread is: outside of calls, or in the wait of `Add` or of `Remove`. -/
inductive Thread
  | idle
  | adding (msg : Message)
  | removing
  deriving DecidableEq, Repr

/-- An atomic section of a thread. -/
inductive Event
  | add (thread : ℕ) (msg : Message) (isBlocking : Bool)
  | resumeAdd (thread : ℕ)
  | remove (thread : ℕ) (isBlocking : Bool)
  | resumeRemove (thread : ℕ)
  | signalFinished (thread : ℕ) (producerId : ℤ)

/-- The queue and its threads. -/
structure System where
  mq : MessageQueue
  threads : ℕ → Thread

namespace System

variable (s : System)

/-- A section, when the thread can take it. -/
def step : Event → Option (Outcome × System)
  | .add t msg isBlocking =>
    if s.threads t ≠ .idle then none
    else match s.mq.addRefusal msg isBlocking with
      | some status => some (.failed status, s)
      | none =>
        if msg.size ≤ s.mq.freeSize then some (.added msg, ⟨s.mq.push msg, s.threads⟩)
        else some (.waits, ⟨s.mq, Function.update s.threads t (.adding msg)⟩)
  | .resumeAdd t =>
    match s.threads t with
    | .adding msg =>
      if msg.size ≤ s.mq.freeSize then
        some (.added msg, ⟨s.mq.push msg, Function.update s.threads t .idle⟩)
      else none
    | _ => none
  | .remove t isBlocking =>
    if s.threads t ≠ .idle then none
    else match s.mq.removeRefusal isBlocking with
      | some status => some (.failed status, s)
      | none =>
        if s.mq.canRemove then some (s.mq.pop.1, ⟨s.mq.pop.2, s.threads⟩)
        else some (.waits, ⟨s.mq, Function.update s.threads t .removing⟩)
  | .resumeRemove t =>
    match s.threads t with
    | .removing =>
      if s.mq.canRemove then
        some (s.mq.pop.1, ⟨s.mq.pop.2, Function.update s.threads t .idle⟩)
      else none
    | _ => none
  | .signalFinished t producerId =>
    if s.threads t ≠ .idle then none
    else some (.signalled, ⟨s.mq.signalFinished producerId, s.threads⟩)

/-- Some sections, one after the other. -/
def exec : System → List Event → Option (List (Event × Outcome) × System)
  | s, [] => some ([], s)
  | s, e :: es => (s.step e).bind fun r => (exec r.2 es).map fun x => ((e, r.1) :: x.1, x.2)

end System

/-- The message for which `Add` returns `ADD_SUCCESS`. -/
def Outcome.accepted : Outcome → Option Message
  | .added msg => some msg
  | _ => none

/-- The message for which `Remove` returns `REMOVE_SUCCESS`. -/
def Outcome.delivered : Outcome → Option Message
  | .removed msg => some msg
  | _ => none

/-- The messages that have been accepted, in this order. -/
def accepted (trace : List (Event × Outcome)) : List Message :=
  trace.filterMap fun x => x.2.accepted

/-- The messages that have left the queue, in this order. -/
def delivered (trace : List (Event × Outcome)) : List Message :=
  trace.filterMap fun x => x.2.delivered

/-- The section is one of `Remove`. -/
def Event.isRemove : Event → Bool
  | .remove _ _ => true
  | .resumeRemove _ => true
  | _ => false

/-! ## What a section can do -/

namespace System

variable {s s' : System} {e : Event} {o : Outcome}

/-- The same calls of `Add` wait. -/
def SameAdding (threads threads' : ℕ → Thread) : Prop :=
  ∀ t msg, threads' t = .adding msg ↔ threads t = .adding msg

/-- What a section does to the queue and to the calls of `Add` that wait. -/
inductive Effect (s : System) (e : Event) : Outcome → System → Prop
  | added (msg : Message) (hopen : s.mq.noMoreAdd = false)
      (hfits : 0 < msg.size ∧ msg.size ≤ s.mq.queueSize) (hfree : msg.size ≤ s.mq.freeSize) :
      Effect s e (.added msg) ⟨s.mq.push msg, s.threads⟩
  | resumed (t : ℕ) (msg : Message) (hthread : s.threads t = .adding msg)
      (hfree : msg.size ≤ s.mq.freeSize) :
      Effect s e (.added msg) ⟨s.mq.push msg, Function.update s.threads t .idle⟩
  | waitsToAdd (t : ℕ) (msg : Message) (hopen : s.mq.noMoreAdd = false)
      (hfits : 0 < msg.size ∧ msg.size ≤ s.mq.queueSize) :
      Effect s e .waits ⟨s.mq, Function.update s.threads t (.adding msg)⟩
  | removed (msg : Message) (rest : List Message) (threads : ℕ → Thread)
      (hqueue : s.mq.queue = msg :: rest) (hsame : SameAdding s.threads threads) :
      Effect s e (.removed msg)
        ⟨{ s.mq with queue := rest, freeSize := s.mq.freeSize + msg.size }, threads⟩
  | failed (status : Status) (threads : ℕ → Thread) (hsame : SameAdding s.threads threads)
      (hclose : e.isRemove = true → status = .queueClose →
        s.mq.noMoreAdd = true ∧ s.mq.queue = []) :
      Effect s e (.failed status) ⟨s.mq, threads⟩
  | waitsToRemove (threads : ℕ → Thread) (hsame : SameAdding s.threads threads) :
      Effect s e .waits ⟨s.mq, threads⟩
  | signalled (producerId : ℤ) :
      Effect s e .signalled ⟨s.mq.signalFinished producerId, s.threads⟩
  | outOfBounds (threads : ℕ → Thread) (hflag : s.mq.exitFlag = true)
      (hopen : s.mq.noMoreAdd = false) : Effect s e .outOfBounds ⟨s.mq, threads⟩

variable {threads : ℕ → Thread}

lemma sameAdding_update {t : ℕ} {th : Thread} (hold : ∀ msg, threads t ≠ .adding msg)
    (hnew : ∀ msg, th ≠ .adding msg) : SameAdding threads (Function.update threads t th) := by
  intro u msg
  by_cases hu : u = t
  · rw [hu, Function.update_self]
    exact iff_of_false (hnew msg) (hold msg)
  · rw [Function.update_of_ne hu]

/-- The end of `Remove`. -/
lemma effect_pop (hcan : s.mq.canRemove = true) (hsame : SameAdding s.threads threads) :
    Effect s e s.mq.pop.1 ⟨s.mq.pop.2, threads⟩ := by
  rw [MessageQueue.pop]
  by_cases hclosed : s.mq.noMoreAdd = true ∧ s.mq.queue = []
  · rw [if_pos hclosed]
    exact .failed _ _ hsame fun _ _ => hclosed
  · rw [if_neg hclosed]
    cases hqueue : s.mq.queue with
    | nil =>
        have hflag : s.mq.exitFlag = true := (of_decide_eq_true hcan).resolve_left (· hqueue)
        have hopen : s.mq.noMoreAdd = false := by
          rw [← Bool.not_eq_true]
          exact fun hno => hclosed ⟨hno, hqueue⟩
        exact .outOfBounds _ hflag hopen
    | cons msg rest => exact .removed msg rest _ hqueue hsame

variable {q : MessageQueue} {msg : Message}

/-- What `Add` passes before it waits. -/
lemma of_addRefusal {isBlocking : Bool} (h : q.addRefusal msg isBlocking = none) :
    q.noMoreAdd = false ∧ 0 < msg.size ∧ msg.size ≤ q.queueSize := by
  rw [MessageQueue.addRefusal] at h
  split_ifs at h with h1 h2 h3 h4
  exact ⟨Bool.not_eq_true _ ▸ h3, not_le.1 h2, not_lt.1 h1⟩

/-- What makes `Remove` return `QUEUE_CLOSE` before it waits. -/
lemma of_removeRefusal {isBlocking : Bool} (h : q.removeRefusal isBlocking = some .queueClose) :
    q.noMoreAdd = true ∧ q.queue = [] := by
  rw [MessageQueue.removeRefusal] at h
  by_cases hempty : q.queue = []
  · rw [if_pos hempty] at h
    by_cases hblocking : isBlocking = false
    · rw [if_pos hblocking] at h
      cases h
    · rw [if_neg hblocking] at h
      by_cases hclosed : q.noMoreAdd = true
      · exact ⟨hclosed, hempty⟩
      · rw [if_neg hclosed] at h
        cases h
  · rw [if_neg hempty] at h
    cases h

/-- **A section** has one of the effects. -/
theorem effect_of_step (h : s.step e = some (o, s')) : Effect s e o s' := by
  cases e with
  | add t msg isBlocking =>
      rw [step] at h
      by_cases hidle : s.threads t ≠ .idle
      · rw [if_pos hidle] at h
        cases h
      rw [if_neg hidle] at h
      cases hrefusal : s.mq.addRefusal msg isBlocking with
      | some status =>
          rw [hrefusal] at h
          cases h
          exact .failed _ _ (fun _ _ => .rfl) nofun
      | none =>
          obtain ⟨hopen, hfits⟩ := of_addRefusal hrefusal
          rw [hrefusal] at h
          by_cases hfree : msg.size ≤ s.mq.freeSize
          · rw [if_pos hfree] at h
            cases h
            exact .added msg hopen hfits hfree
          · rw [if_neg hfree] at h
            cases h
            exact .waitsToAdd t msg hopen hfits
  | resumeAdd t =>
      rw [step] at h
      cases hthread : s.threads t with
      | adding msg =>
          simp only [hthread] at h
          by_cases hfree : msg.size ≤ s.mq.freeSize
          · rw [if_pos hfree] at h
            cases h
            exact .resumed t msg hthread hfree
          · rw [if_neg hfree] at h
            cases h
      | idle => rw [hthread] at h; cases h
      | removing => rw [hthread] at h; cases h
  | remove t isBlocking =>
      rw [step] at h
      by_cases hbusy : s.threads t ≠ .idle
      · rw [if_pos hbusy] at h
        cases h
      have hidle : s.threads t = .idle := not_not.1 hbusy
      rw [if_neg hbusy] at h
      cases hrefusal : s.mq.removeRefusal isBlocking with
      | some status =>
          rw [hrefusal] at h
          cases h
          exact .failed _ _ (fun _ _ => .rfl) fun _ hclose => of_removeRefusal (hclose ▸ hrefusal)
      | none =>
          rw [hrefusal] at h
          by_cases hcan : s.mq.canRemove = true
          · rw [if_pos hcan] at h
            cases h
            exact effect_pop hcan fun _ _ => .rfl
          · rw [if_neg hcan] at h
            cases h
            exact .waitsToRemove _ (sameAdding_update (fun _ => by rw [hidle]; nofun) nofun)
  | resumeRemove t =>
      rw [step] at h
      cases hthread : s.threads t with
      | removing =>
          rw [hthread] at h
          by_cases hcan : s.mq.canRemove = true
          · rw [if_pos hcan] at h
            cases h
            exact effect_pop hcan (sameAdding_update (fun _ => by rw [hthread]; nofun) nofun)
          · rw [if_neg hcan] at h
            cases h
      | idle => rw [hthread] at h; cases h
      | adding msg => rw [hthread] at h; cases h
  | signalFinished t producerId =>
      rw [step] at h
      by_cases hidle : s.threads t ≠ .idle
      · rw [if_pos hidle] at h
        cases h
      · rw [if_neg hidle] at h
        cases h
        exact .signalled producerId

/-- Producers do not take back that they have finished. -/
lemma noMoreAdd_signalFinished (producerId : ℤ) (h : q.noMoreAdd = true) :
    (q.signalFinished producerId).noMoreAdd = true := by
  have hle : q.numProducers ≤ q.finishedProducers.card := of_decide_eq_true h
  exact decide_eq_true (hle.trans (Finset.card_le_card (Finset.subset_insert _ _)))

/-! ## Invariants -/

/-- What holds of the queue and its threads at any time. -/
structure Inv (s : System) : Prop where
  bytes : s.mq.freeSize + (s.mq.queue.map Message.size).sum = s.mq.queueSize
  free_nonneg : 0 ≤ s.mq.freeSize
  waiting : ∀ t msg, s.threads t = .adding msg → 0 < msg.size ∧ msg.size ≤ s.mq.queueSize
  flag : s.mq.exitFlag = true → s.mq.noMoreAdd = true
  sizes : ∀ msg ∈ s.mq.queue, 0 < msg.size

lemma inv_create {queueSize numProducers : ℤ}
    (h : MessageQueue.create queueSize numProducers = some q) : Inv ⟨q, fun _ => .idle⟩ := by
  rw [MessageQueue.create] at h
  split_ifs at h with hnonneg
  cases h
  exact ⟨add_zero _, hnonneg.1, nofun, nofun, nofun⟩

lemma Inv.push (h : s.Inv) (hpos : 0 < msg.size) (hfree : msg.size ≤ s.mq.freeSize)
    (hthreads : ∀ t m, threads t = .adding m → s.threads t = .adding m) :
    Inv ⟨s.mq.push msg, threads⟩ where
  bytes := by
    have hbytes := h.bytes
    simp only [MessageQueue.push, List.map_append, List.sum_append, List.map_cons, List.map_nil,
      List.sum_singleton]
    omega
  free_nonneg := Int.sub_nonneg_of_le hfree
  waiting t m hm := h.waiting t m (hthreads t m hm)
  flag := h.flag
  sizes m hm := by
    rcases List.mem_append.1 hm with hm | hm
    · exact h.sizes m hm
    · rw [List.mem_singleton.1 hm]
      exact hpos

/-- **One section** keeps the invariant, and does not read outside of the queue. -/
theorem Inv.of_effect (h : s.Inv) (heffect : Effect s e o s') :
    s'.Inv ∧ s'.mq.queueSize = s.mq.queueSize ∧ o ≠ .outOfBounds := by
  cases heffect with
  | added msg hopen hfits hfree => exact ⟨h.push hfits.1 hfree fun _ _ => id, rfl, nofun⟩
  | resumed t msg hthread hfree =>
      refine ⟨h.push (h.waiting t msg hthread).1 hfree fun u m hm => ?_, rfl, nofun⟩
      by_cases hu : u = t
      · rw [hu, Function.update_self] at hm
        cases hm
      · rwa [Function.update_of_ne hu] at hm
  | waitsToAdd t msg hopen hfits =>
      refine ⟨⟨h.bytes, h.free_nonneg, fun u m hm => ?_, h.flag, h.sizes⟩, rfl, nofun⟩
      by_cases hu : u = t
      · have hm : Function.update s.threads t (Thread.adding msg) u = .adding m := hm
        rw [hu, Function.update_self] at hm
        cases hm
        exact hfits
      · have hm : Function.update s.threads t (Thread.adding msg) u = .adding m := hm
        rw [Function.update_of_ne hu] at hm
        exact h.waiting u m hm
  | removed msg rest threads hqueue hsame =>
      have hbytes := h.bytes
      have hsizes := h.sizes
      rw [hqueue] at hbytes hsizes
      rw [List.map_cons, List.sum_cons] at hbytes
      have hpos := hsizes msg List.mem_cons_self
      have hfree := h.free_nonneg
      refine ⟨⟨?_, ?_, fun t m hm => h.waiting t m ((hsame t m).1 hm), h.flag,
        fun m hm => hsizes m (List.mem_cons_of_mem _ hm)⟩, rfl, nofun⟩
      · show s.mq.freeSize + msg.size + (rest.map Message.size).sum = s.mq.queueSize
        omega
      · show 0 ≤ s.mq.freeSize + msg.size
        omega
  | failed status threads hsame hclose =>
      exact ⟨⟨h.bytes, h.free_nonneg, fun t m hm => h.waiting t m ((hsame t m).1 hm), h.flag, h.sizes⟩,
        rfl, nofun⟩
  | waitsToRemove threads hsame =>
      exact ⟨⟨h.bytes, h.free_nonneg, fun t m hm => h.waiting t m ((hsame t m).1 hm), h.flag, h.sizes⟩,
        rfl, nofun⟩
  | signalled producerId =>
      refine ⟨⟨h.bytes, h.free_nonneg, h.waiting, fun hflag => ?_, h.sizes⟩, rfl, nofun⟩
      rcases Bool.or_eq_true _ _ ▸ hflag with hflag | hflag
      · exact noMoreAdd_signalFinished producerId (h.flag hflag)
      · exact hflag
  | outOfBounds threads hflag hopen =>
      have hclosed := h.flag hflag
      rw [hopen] at hclosed
      cases hclosed

/-- What a section takes from the queue or puts into it. -/
lemma queue_of_effect (heffect : Effect s e o s') :
    s.mq.queue ++ o.accepted.toList = o.delivered.toList ++ s'.mq.queue := by
  cases heffect with
  | added msg hopen hfits hfree => rfl
  | resumed t msg hthread hfree => rfl
  | waitsToAdd t msg hopen hfits => exact List.append_nil _
  | removed msg rest threads hqueue hsame => rw [hqueue]; exact List.append_nil _
  | failed status threads hsame hclose => exact List.append_nil _
  | waitsToRemove threads hsame => exact List.append_nil _
  | signalled producerId => exact List.append_nil _
  | outOfBounds threads hflag hopen => exact List.append_nil _

variable {events : List Event} {trace : List (Event × Outcome)}

lemma exec_cons (h : exec s (e :: events) = some (trace, s')) :
    ∃ o s₁ trace', s.step e = some (o, s₁) ∧
      exec s₁ events = some (trace', s') ∧ trace = (e, o) :: trace' := by
  rw [exec] at h
  obtain ⟨⟨o, s₁⟩, hstep, h⟩ := Option.bind_eq_some_iff.1 h
  obtain ⟨⟨trace', s₂⟩, hexec, heq⟩ := Option.map_eq_some_iff.1 h
  cases heq
  exact ⟨o, s₁, trace', hstep, hexec, rfl⟩

lemma accepted_cons (x : Event × Outcome) (trace : List (Event × Outcome)) :
    accepted (x :: trace) = x.2.accepted.toList ++ accepted trace := by
  rw [accepted, List.filterMap_cons]
  cases x.2.accepted with
  | none => rfl
  | some msg => rfl

lemma delivered_cons (x : Event × Outcome) (trace : List (Event × Outcome)) :
    delivered (x :: trace) = x.2.delivered.toList ++ delivered trace := by
  rw [delivered, List.filterMap_cons]
  cases x.2.delivered with
  | none => rfl
  | some msg => rfl

/-- **Every run** keeps the invariant, and hands on the messages in their order. -/
theorem Inv.of_exec (h : s.Inv) (hexec : exec s events = some (trace, s')) :
    s'.Inv ∧ s'.mq.queueSize = s.mq.queueSize ∧ (∀ x ∈ trace, x.2 ≠ .outOfBounds) ∧
      s.mq.queue ++ accepted trace = delivered trace ++ s'.mq.queue := by
  induction events generalizing s trace with
  | nil =>
      cases hexec
      exact ⟨h, rfl, nofun, List.append_nil _⟩
  | cons e events ih =>
      obtain ⟨o, s₁, trace', hstep, hrest, rfl⟩ := exec_cons hexec
      have heffect := effect_of_step hstep
      obtain ⟨hinv, hsize, hbounds⟩ := h.of_effect heffect
      obtain ⟨hinv', hsize', hbounds', hqueue⟩ := ih hinv hrest
      refine ⟨hinv', hsize'.trans hsize, fun x hx => ?_, ?_⟩
      · rcases List.mem_cons.1 hx with rfl | hx
        · exact hbounds
        · exact hbounds' x hx
      · rw [accepted_cons, delivered_cons, ← List.append_assoc, queue_of_effect heffect,
          List.append_assoc, hqueue, List.append_assoc]

/-! ## Closing -/

/-- Nothing can be added any more. -/
structure Closed (s : System) : Prop where
  noMoreAdd : s.mq.noMoreAdd = true
  queue : s.mq.queue = []
  notAdding : ∀ t msg, s.threads t ≠ .adding msg

lemma Closed.of_effect (h : s.Closed) (heffect : Effect s e o s') :
    s'.Closed ∧ o.accepted = none ∧ o.delivered = none := by
  have hclosed := h.noMoreAdd
  cases heffect with
  | added msg hopen hfits hfree => rw [hopen] at hclosed; cases hclosed
  | resumed t msg hthread hfree => exact absurd hthread (h.notAdding t msg)
  | waitsToAdd t msg hopen hfits => rw [hopen] at hclosed; cases hclosed
  | removed msg rest threads hqueue hsame => rw [h.queue] at hqueue; cases hqueue
  | failed status threads hsame hclose =>
      exact ⟨⟨hclosed, h.queue, fun t m hm => h.notAdding t m ((hsame t m).1 hm)⟩, rfl, rfl⟩
  | waitsToRemove threads hsame =>
      exact ⟨⟨hclosed, h.queue, fun t m hm => h.notAdding t m ((hsame t m).1 hm)⟩, rfl, rfl⟩
  | signalled producerId =>
      exact ⟨⟨noMoreAdd_signalFinished producerId hclosed, h.queue, h.notAdding⟩, rfl, rfl⟩
  | outOfBounds threads hflag hopen => rw [hopen] at hclosed; cases hclosed

lemma Closed.of_exec (h : s.Closed) (hexec : exec s events = some (trace, s')) :
    accepted trace = [] ∧ delivered trace = [] := by
  induction events generalizing s trace with
  | nil =>
      cases hexec
      exact ⟨rfl, rfl⟩
  | cons e events ih =>
      obtain ⟨o, s₁, trace', hstep, hrest, rfl⟩ := exec_cons hexec
      obtain ⟨hclosed, haccepted, hdelivered⟩ := h.of_effect (effect_of_step hstep)
      obtain ⟨haccepted', hdelivered'⟩ := ih hclosed hrest
      rw [accepted_cons, delivered_cons, haccepted, hdelivered, haccepted', hdelivered']
      exact ⟨rfl, rfl⟩

/-- After `Remove` has returned `QUEUE_CLOSE` nothing is added, if no call of `Add` waits. -/
lemma closed_of_remove (hremove : e.isRemove = true) (hstep : s.step e = some (.failed .queueClose, s'))
    (hquiet : ∀ t msg, s.threads t ≠ .adding msg) : s'.Closed := by
  cases effect_of_step hstep with
  | failed status threads hsame hclose =>
      obtain ⟨hno, hempty⟩ := hclose hremove rfl
      exact ⟨hno, hempty, fun t m hm => hquiet t m ((hsame t m).1 hm)⟩

/-- A call of `Add` that waits when `Remove` returns `QUEUE_CLOSE` can go on. -/
lemma Inv.resumes (h : s.Inv) (hremove : e.isRemove = true)
    (hstep : s.step e = some (.failed .queueClose, s')) {t : ℕ}
    (hthread : s.threads t = .adding msg) :
    ∃ s'', exec s' [.resumeAdd t] = some ([(.resumeAdd t, .added msg)], s'') := by
  cases effect_of_step hstep with
  | failed status threads hsame hclose =>
      obtain ⟨-, hempty⟩ := hclose hremove rfl
      have hbytes := h.bytes
      rw [hempty, List.map_nil, List.sum_nil, add_zero] at hbytes
      have hfree : msg.size ≤ s.mq.freeSize := hbytes ▸ (h.waiting t msg hthread).2
      have hthread' : threads t = .adding msg := (hsame t msg).2 hthread
      have hresume : step ⟨s.mq, threads⟩ (.resumeAdd t) =
          some (.added msg, ⟨s.mq.push msg, Function.update threads t .idle⟩) := by
        simp only [step, hthread']
        exact if_pos hfree
      refine ⟨⟨s.mq.push msg, Function.update threads t .idle⟩, ?_⟩
      rw [exec, hresume]
      rfl

/-- **The queue accounts for its bytes and its messages** in every run of the threads: the messages leave
in the order in which they were accepted, each once, and `Remove` returns `QUEUE_CLOSE` only when the
queue is closed and empty.  Nothing is accepted afterwards, and so nothing is lost, if and only if no
call of `Add` waits at that time. -/
theorem exec_create {queueSize numProducers : ℤ} {q : MessageQueue}
    (hcreate : MessageQueue.create queueSize numProducers = some q) {events : List Event}
    {trace : List (Event × Outcome)} {s : System}
    (hexec : exec ⟨q, fun _ => .idle⟩ events = some (trace, s)) :
    s.mq.freeSize + (s.mq.queue.map Message.size).sum = queueSize ∧ 0 ≤ s.mq.freeSize ∧
      accepted trace = delivered trace ++ s.mq.queue ∧ (∀ x ∈ trace, x.2 ≠ .outOfBounds) ∧
      ∀ (e : Event) (s' : System), e.isRemove = true → s.step e = some (.failed .queueClose, s') →
        (s.mq.noMoreAdd = true ∧ s.mq.queue = []) ∧
        ((∀ (events' : List Event) (trace' : List (Event × Outcome)) (s'' : System),
            exec s' events' = some (trace', s'') → (∀ x ∈ trace', x.2.accepted = none) ∧
              accepted (trace ++ trace') = delivered (trace ++ trace')) ↔
          ∀ t msg, s.threads t ≠ .adding msg) := by
  obtain ⟨hinv, hsize, hbounds, hqueue⟩ := (inv_create hcreate).of_exec hexec
  have hcreate' : q.queueSize = queueSize ∧ q.queue = [] := by
    rw [MessageQueue.create] at hcreate
    split_ifs at hcreate
    cases hcreate
    exact ⟨rfl, rfl⟩
  have horder : accepted trace = delivered trace ++ s.mq.queue := by
    rw [← hqueue, hcreate'.2, List.nil_append]
  refine ⟨?_, hinv.free_nonneg, horder, hbounds, fun e s' hremove hstep => ?_⟩
  · rw [hinv.bytes, hsize, hcreate'.1]
  have hclosed : s.mq.noMoreAdd = true ∧ s.mq.queue = [] := by
    cases effect_of_step hstep with
    | failed status threads hsame hclose => exact hclose hremove rfl
  refine ⟨hclosed, fun hnone t msg hthread => ?_, fun hquiet events' trace' s'' hexec' => ?_⟩
  · obtain ⟨s'', hresume⟩ := hinv.resumes hremove hstep hthread
    have haccepted := (hnone _ _ _ hresume).1 _ List.mem_cons_self
    cases haccepted
  · obtain ⟨haccepted, hdelivered⟩ := (closed_of_remove hremove hstep hquiet).of_exec hexec'
    have happend : accepted (trace ++ trace') = accepted trace ++ accepted trace' :=
      List.filterMap_append
    have happend' : delivered (trace ++ trace') = delivered trace ++ delivered trace' :=
      List.filterMap_append
    refine ⟨fun x hx => List.filterMap_eq_nil_iff.1 haccepted x hx, ?_⟩
    rw [happend, happend', haccepted, hdelivered, horder, hclosed.2, List.append_nil]

/-! ## A message that is lost -/

/-- A message of one byte. -/
def oneByte (data : ℕ) : Message := ⟨data, 1, 0, none⟩

/-- A call of `Add` waits for room, the only producer finishes, and the queue is emptied. -/
def closesTooSoon : List Event :=
  [.add 0 (oneByte 0) true, .add 1 (oneByte 1) true, .signalFinished 0 0, .remove 2 true,
    .remove 2 true]

/-- The waiting call adds its message although `Remove` has returned `QUEUE_CLOSE`. -/
theorem exec_closesTooSoon : ∃ q, MessageQueue.create 1 1 = some q ∧ ∃ s,
    exec ⟨q, fun _ => .idle⟩ (closesTooSoon ++ [.resumeAdd 1]) = some (
      [(.add 0 (oneByte 0) true, .added (oneByte 0)), (.add 1 (oneByte 1) true, .waits),
        (.signalFinished 0 0, .signalled), (.remove 2 true, .removed (oneByte 0)),
        (.remove 2 true, .failed .queueClose), (.resumeAdd 1, .added (oneByte 1))], s) ∧
    s.mq.queue = [oneByte 1] := by
  refine ⟨_, rfl, _, rfl, rfl⟩

/-- A producer that finishes after its calls. -/
theorem exec_oneMessage : ∃ q s, MessageQueue.create 1 1 = some q ∧
    exec ⟨q, fun _ => .idle⟩
        [.remove 2 true, .add 0 (oneByte 0) true, .signalFinished 0 0, .resumeRemove 2] = some (
      [(.remove 2 true, .waits), (.add 0 (oneByte 0) true, .added (oneByte 0)),
        (.signalFinished 0 0, .signalled), (.resumeRemove 2, .removed (oneByte 0))], s) ∧
    s.mq.freeSize + (s.mq.queue.map Message.size).sum = 1 ∧
    ∃ s', s.step (.remove 2 true) = some (.failed .queueClose, s') ∧ s.mq.queue = [] := by
  have hcreate : MessageQueue.create 1 1 = some ⟨[], 1, 1, 1, ∅, false⟩ := rfl
  obtain ⟨s, hexec⟩ : ∃ s, exec ⟨⟨[], 1, 1, 1, ∅, false⟩, fun _ => .idle⟩
      [.remove 2 true, .add 0 (oneByte 0) true, .signalFinished 0 0, .resumeRemove 2] = some (
        [(.remove 2 true, .waits), (.add 0 (oneByte 0) true, .added (oneByte 0)),
          (.signalFinished 0 0, .signalled), (.resumeRemove 2, .removed (oneByte 0))], s) := ⟨_, rfl⟩
  obtain ⟨hbytes, -, -, -, hclose⟩ := exec_create hcreate hexec
  cases hexec
  exact ⟨_, _, hcreate, rfl, hbytes, _, rfl, (hclose (.remove 2 true) _ rfl rfl).1.2⟩

end System

end DglAscend.Network
