import Mathlib.Algebra.BigOperators.Intervals
import DglAscend.Network.SocketReceiver

/-!
# Delivery

`SocketReceiver` with the threads of `RecvLoop`, the queues of all senders, the semaphore that counts the
messages in them, and one thread that calls `Recv`, until `Finalize`.

In every run `Recv` gives the messages of each sender whole, once, and in the order in which they were sent.
The semaphore does not count right: `RecvLoop` goes on to `Add` and `Post` with the size `0` of an end
signal, and with the size `-1` of a socket that was not ready.  What is left of it when all is delivered
lets a call of `Recv` pass that never comes back (`SocketReceiver.exec_delivers`).
-/

namespace DglAscend.Network

/-- The senders, the threads of `RecvLoop`, and the order in which the queues are visited. -/
structure Sockets where
  numSender : ℕ
  maxThreadCount : ℕ
  order : List ℕ

/-- Where `Recv` is: not called, behind the semaphore, or at the next buffer of a message, before or behind
the semaphore. -/
inductive Reader
  | idle
  | scanning
  | reading (claimed : Bool) (sendId : ℕ) (blob : List UInt8) (count : ℕ)
    (buffers : List (List UInt8))
  deriving DecidableEq

/-- `SocketReceiver`; `warnings` are those of `Add`, and `results` what `Recv` returned with success. -/
structure SocketReceiver where
  channels : ℕ → Channel
  loops : ℕ → Loop
  sem : ℕ
  warnings : ℕ
  mqIter : ℕ
  reader : Reader
  results : List (ℕ × RpcMessage)

/-- A thread of `RecvLoop` gets a socket, calls `Receive`, enters or leaves `Add`, or calls `Post`; or the
thread of `Recv` waits for the semaphore, looks at the next queue, or takes the next buffer. -/
inductive SocketEvent
  | activate (sender : ℕ)
  | receive (thread : ℕ) (bytes : Option ℕ)
  | add (thread : ℕ)
  | resumeAdd (thread : ℕ)
  | post (thread : ℕ)
  | timedWait (timedOut : Bool)
  | scan
  | fetch

namespace SocketReceiver

variable (net : Sockets) (s : SocketReceiver)

/-- `RemoveSocket` returns `0`. -/
def lastSocket (sender : ℕ) : Bool :=
  decide (∀ j < net.numSender, j ≠ sender → j % net.maxThreadCount = sender % net.maxThreadCount →
    (s.channels j).opened = false)

/-- What a thread of `RecvLoop` has done on a socket. -/
def put (thread sender : ℕ) (r : Channel × Loop) : SocketReceiver :=
  { s with
    channels := Function.update s.channels sender r.1
    loops := Function.update s.loops thread r.2 }

/-- The bytes of a message. -/
def content (sender : ℕ) (msg : Message) : List UInt8 :=
  ((s.channels sender).memory.getD msg.data []).take msg.size.toNat

/-- `Remove` has taken a message. -/
def putQueue (sender : ℕ) (mq : MessageQueue) : SocketReceiver :=
  { s with channels := Function.update s.channels sender { s.channels sender with mq := mq } }

/-- The loop over the buffers in `Recv`, and its end. -/
def nextBuffer (sendId : ℕ) (blob : List UInt8) (count : ℕ) (buffers : List (List UInt8)) :
    SocketReceiver :=
  if buffers.length < count then { s with reader := .reading false sendId blob count buffers }
  else { s with reader := .idle, results := s.results ++ [(sendId, ⟨blob, buffers⟩)] }

/-- The meta message has been received. -/
def gotMeta (sendId : ℕ) (data : List UInt8) : Option SocketReceiver :=
  let count := Codec.ofBytes (data.drop (data.length - 4))
  if data.length < 4 ∨ 2 ^ 31 ≤ count then none
  else some (s.nextBuffer sendId (data.take (data.length - 4)) count [])

/-- One step, when the thread can take it. -/
def step : SocketEvent → Option SocketReceiver
  | .activate sender =>
    let thread := sender % net.maxThreadCount
    if sender < net.numSender ∧ (s.channels sender).opened = true ∧
      s.loops thread = .getActiveSocket then
      some (s.put thread sender ((s.channels sender).activate sender (s.lastSocket net sender)))
    else none
  | .receive thread bytes =>
    match s.loops thread with
    | .busy sender stage =>
      ((s.channels sender).receive sender (s.lastSocket net sender) stage bytes).map
        (s.put thread sender)
    | _ => none
  | .add thread =>
    match s.loops thread with
    | .busy sender (.adding msg) =>
      let r := (s.channels sender).add sender msg
      some { s.put thread sender (r.1, r.2.1) with warnings := s.warnings + r.2.2 }
    | _ => none
  | .resumeAdd thread =>
    match s.loops thread with
    | .busy sender (.waiting msg) => ((s.channels sender).resumeAdd msg).map (s.put thread sender)
    | _ => none
  | .post thread =>
    if s.loops thread = .posting then
      some { s with sem := s.sem + 1, loops := Function.update s.loops thread .getActiveSocket }
    else none
  | .timedWait timedOut =>
    match s.reader, timedOut with
    -- a wait times out only if it could not go on at once
    | .idle, true => if s.sem = 0 then some s else none
    | .idle, false =>
      if s.sem = 0 then none else some { s with sem := s.sem - 1, reader := .scanning }
    | .reading false _ _ _ _, true => if s.sem = 0 then some s else none
    | .reading false sendId blob count buffers, false =>
      if s.sem = 0 then none
      else some { s with sem := s.sem - 1, reader := .reading true sendId blob count buffers }
    | _, _ => none
  | .scan =>
    match s.reader with
    | .scanning =>
      match net.order[s.mqIter]? with
      | none => some { s with mqIter := 0 }
      | some sender =>
        match (s.channels sender).mq.removeRefusal false with
        | some _ => some { s with mqIter := s.mqIter + 1 }
        | none =>
          match (s.channels sender).mq.pop with
          | (.removed msg, mq) =>
            ({ s.putQueue sender mq with mqIter := s.mqIter + 1 }).gotMeta sender
              (s.content sender msg)
          | _ => none
    | _ => none
  | .fetch =>
    match s.reader with
    | .reading true sendId blob count buffers =>
      match (s.channels sendId).mq.removeRefusal true with
      | some _ => none
      | none =>
        if (s.channels sendId).mq.canRemove then
          match (s.channels sendId).mq.pop with
          | (.removed msg, mq) =>
            some ((s.putQueue sendId mq).nextBuffer sendId blob count (buffers ++ [s.content sendId msg]))
          | _ => none
        else none
    | _ => none

/-- The thread waits for the first byte of a size. -/
def atSize : Loop → Bool
  | .busy _ (.sizing []) => true
  | _ => false

/-- The step is a call of `Receive` for the first byte of a size, and the socket is not ready. -/
def notReady : SocketEvent → ℕ
  | .receive thread bytes => if atSize (s.loops thread) = true ∧ bytes = none then 1 else 0
  | _ => 0

/-- A run, with the number of times that a socket was not ready for a size. -/
def exec : SocketReceiver → List SocketEvent → Option (ℕ × SocketReceiver)
  | s, [] => some (0, s)
  | s, e :: es => do
    let s' ← s.step net e
    let r ← exec s' es
    pure (s.notReady e + r.1, r.2)

/-- The receiver behind `Wait`, with what each sender writes to its socket. -/
def create (mq : MessageQueue) (streams : ℕ → List UInt8) : SocketReceiver where
  channels i := ⟨streams i, true, ⟨-1, 0, 0⟩, [], mq⟩
  loops _ := .getActiveSocket
  sem := 0
  warnings := 0
  mqIter := 0
  reader := .idle
  results := []

/-- The messages of a sender that `Recv` returned. -/
def delivered (sender : ℕ) : List RpcMessage :=
  s.results.filterMap fun x => if x.1 = sender then some x.2 else none

end SocketReceiver

/-- What `Recv` has of a message that is not complete. -/
def Reader.held : Reader → ℕ → List (List UInt8)
  | .reading _ sendId blob count buffers, i =>
    if sendId = i then (blob ++ Codec.bytes 4 count) :: buffers else []
  | _, _ => []

@[simp] lemma Reader.held_idle (i : ℕ) : Reader.idle.held i = [] := rfl

@[simp] lemma Reader.held_scanning (i : ℕ) : Reader.scanning.held i = [] := rfl

@[simp] lemma Reader.held_reading (claimed : Bool) (sendId : ℕ) (blob : List UInt8) (count : ℕ)
    (buffers : List (List UInt8)) (i : ℕ) :
    (Reader.reading claimed sendId blob count buffers).held i =
      if sendId = i then (blob ++ Codec.bytes 4 count) :: buffers else [] := rfl

/-- `Recv` is behind the semaphore, and has not taken a message for it. -/
def Reader.claims : Reader → ℕ
  | .scanning => 1
  | .reading true _ _ _ _ => 1
  | _ => 0

namespace SocketReceiver

variable {net : Sockets} {sent : ℕ → List RpcMessage} {s s' : SocketReceiver}

/-! ## Invariants -/

/-- What has been taken from the queue of a sender. -/
def taken (s : SocketReceiver) (sender : ℕ) : List (List UInt8) :=
  (s.delivered sender).flatMap RpcMessage.messages ++ s.reader.held sender

/-- What holds of a channel, of which some messages have left the queue. -/
structure ChannelOk (queueSize : ℤ) (messages : List (List UInt8)) (taken : ℕ)
    (stage : Option Stage)
    (ch : Channel) : Prop where
  reads : ch.Reads messages (taken + ch.mq.queue.length) stage
  bound : taken + ch.mq.queue.length ≤ messages.length
  received : 0 ≤ ch.ctx.receivedBytes
  queue : ch.mq.queue = (List.range' taken ch.mq.queue.length).map (messageOf messages)
  size : ch.mq.queueSize = queueSize
  opened : ch.mq.noMoreAdd = false

/-- What holds of `Recv`: it has returned messages as they were sent, and is in the next of one sender. -/
structure ReaderOk (net : Sockets) (sent : ℕ → List RpcMessage) (s : SocketReceiver) : Prop where
  delivered : ∀ i < net.numSender, s.delivered i <+: sent i
  reading : ∀ claimed i blob count buffers, s.reader = .reading claimed i blob count buffers →
    i < net.numSender ∧ buffers.length < count ∧ ∃ m, s.delivered i ++ [m] <+: sent i ∧
      blob = m.blob ∧ count = m.buffers.length ∧ buffers <+: m.buffers

/-- What holds at any time. -/
structure Inv (net : Sockets) (queueSize : ℤ) (sent : ℕ → List RpcMessage) (notReady : ℕ)
    (s : SocketReceiver) : Prop where
  channel : ∀ i < net.numSender, ChannelOk queueSize ((sent i).flatMap RpcMessage.messages)
    (s.taken i).length ((s.loops (i % net.maxThreadCount)).stage i) (s.channels i)
  stages : ∀ t i, (s.loops t).stage i ≠ none → i < net.numSender ∧ i % net.maxThreadCount = t
  threads : ∀ t, s.loops t ≠ .getActiveSocket → t < net.maxThreadCount
  returned : ∀ t < net.maxThreadCount, s.loops t = .returned ↔
    ∀ i < net.numSender, i % net.maxThreadCount = t → (s.channels i).opened = false
  reader : s.ReaderOk net sent
  sem : s.sem + s.reader.claims + ∑ t ∈ Finset.range net.maxThreadCount, (s.loops t).posts =
    ∑ i ∈ Finset.range net.numSender, (s.channels i).mq.queue.length + s.warnings
  idles : s.warnings + ∑ t ∈ Finset.range net.maxThreadCount, (s.loops t).idles +
    ∑ i ∈ Finset.range net.numSender, (s.channels i).opened.toNat = notReady + net.numSender

lemma sum_range_update {α : Type} {n i : ℕ} (hi : i < n) (f : ℕ → α) (x : α) (g : α → ℕ) :
    ∑ j ∈ Finset.range n, g (Function.update f i x j) + g (f i) = ∑ j ∈ Finset.range n, g (f j) +
      g x := by
  have hmem := Finset.mem_range.2 hi
  rw [← Finset.sum_erase_add _ _ hmem, ← Finset.sum_erase_add _ (fun j => g (f j)) hmem,
    Function.update_self]
  have hrest : ∑ j ∈ (Finset.range n).erase i, g (Function.update f i x j) =
      ∑ j ∈ (Finset.range n).erase i, g (f j) := by
    refine Finset.sum_congr rfl fun j hj => ?_
    rw [Function.update_of_ne (Finset.ne_of_mem_erase hj)]
  omega

variable {queueSize : ℤ} {notReady nr w pushed i : ℕ} {ch ch' : Channel}
  {messages : List (List UInt8)}

lemma ChannelOk.step {taken i : ℕ} {stage : Option Stage} {l l' : Loop} {last : Bool}
    (h : ChannelOk queueSize messages taken stage ch)
    (hsteps : Channel.Steps messages (taken + ch.mq.queue.length) ch l i last nr w pushed ch' l')
    (hlen : ch'.mq.queue.length = ch.mq.queue.length + pushed) :
    ChannelOk queueSize messages taken (l'.stage i) ch' where
  reads := by
    rw [hlen, ← add_assoc]
    exact hsteps.reads
  bound := by
    have hbound := h.bound
    rcases hsteps.bound with hpushed | hpushed <;> omega
  received := hsteps.received
  queue := by
    rw [hlen, List.range'_append_1.symm, List.map_append, ← h.queue, hsteps.queue]
  size := hsteps.sizes.trans h.size
  opened := hsteps.closed.trans h.opened

lemma ReaderOk.same (h : s.ReaderOk net sent) (hresults : s'.results = s.results)
    (hreader : s'.reader = s.reader) : s'.ReaderOk net sent := by
  have hdelivered (i : ℕ) : s'.delivered i = s.delivered i := by
    rw [SocketReceiver.delivered, SocketReceiver.delivered, hresults]
  refine ⟨fun i hi => ?_, fun claimed i blob count buffers hreading => ?_⟩
  · rw [hdelivered]
    exact h.delivered i hi
  · rw [hreader] at hreading
    rw [hdelivered]
    exact h.reading claimed i blob count buffers hreading

/-- **A step of `RecvLoop`** on a socket keeps the invariant. -/
lemma Inv.put {l' : Loop} (h : Inv net queueSize sent notReady s) (hT : 0 < net.maxThreadCount)
    (hi : i < net.numSender) (hothers : ∀ j ≠ i, (s.loops (i % net.maxThreadCount)).stage j = none)
    (hposts : (s.loops (i % net.maxThreadCount)).posts = 0)
    (hsteps : Channel.Steps ((sent i).flatMap RpcMessage.messages)
      ((s.taken i).length + (s.channels i).mq.queue.length) (s.channels i)
      (s.loops (i % net.maxThreadCount)) i (s.lastSocket net i) nr w pushed ch' l') :
    Inv net queueSize sent (notReady + nr)
      { s.put (i % net.maxThreadCount) i (ch', l') with warnings := s.warnings + w } := by
  have ht : i % net.maxThreadCount < net.maxThreadCount := Nat.mod_lt i hT
  have hok := h.channel i hi
  have hlen : ch'.mq.queue.length = (s.channels i).mq.queue.length + pushed := by
    rw [hsteps.queue, List.length_append, List.length_map, List.length_range']
  refine ⟨fun j hj => ?_, fun t j hstage => ?_, fun t hbusy => ?_, fun t htT => ?_,
    h.reader.same rfl rfl,
    ?_, ?_⟩
  · change ChannelOk queueSize _ (s.taken j).length ((Function.update s.loops _ l' _).stage j)
      (Function.update s.channels i ch' j)
    by_cases hji : j = i
    · subst hji
      rw [Function.update_self, Function.update_self]
      exact hok.step hsteps hlen
    · rw [Function.update_of_ne hji]
      by_cases hthread : j % net.maxThreadCount = i % net.maxThreadCount
      · have hold := h.channel j hj
        rw [hthread, hothers j hji] at hold
        rwa [hthread, Function.update_self, hsteps.only j hji]
      · rw [Function.update_of_ne hthread]
        exact h.channel j hj
  · change (Function.update s.loops _ l' t).stage j ≠ none at hstage
    by_cases hthread : t = i % net.maxThreadCount
    · rw [hthread, Function.update_self] at hstage
      obtain rfl : j = i := not_not.1 fun hne => hstage (hsteps.only j hne)
      exact ⟨hi, hthread.symm⟩
    · rw [Function.update_of_ne hthread] at hstage
      exact h.stages t j hstage
  · change Function.update s.loops _ l' t ≠ .getActiveSocket at hbusy
    by_cases hthread : t = i % net.maxThreadCount
    · rwa [hthread]
    · rw [Function.update_of_ne hthread] at hbusy
      exact h.threads t hbusy
  · change Function.update s.loops _ l' t = .returned ↔
      ∀ j < net.numSender, j % net.maxThreadCount = t →
        (Function.update s.channels i ch' j).opened = false
    by_cases hthread : t = i % net.maxThreadCount
    · rw [hthread, Function.update_self, hsteps.returned, lastSocket, decide_eq_true_iff]
      constructor
      · rintro ⟨hclosed, hlast⟩ j hj hmod
        by_cases hji : j = i
        · rw [hji, Function.update_self]
          exact hclosed
        · rw [Function.update_of_ne hji]
          exact hlast j hj hji hmod
      · intro hall
        refine ⟨by simpa using hall i hi rfl, fun j hj hji hmod => ?_⟩
        simpa [Function.update_of_ne hji] using hall j hj hmod
    · rw [Function.update_of_ne hthread, h.returned t htT]
      refine forall₃_congr fun j hj hmod => ?_
      have hji : j ≠ i := fun heq => hthread (heq ▸ hmod.symm)
      rw [Function.update_of_ne hji]
  · have hp := sum_range_update ht s.loops l' Loop.posts
    have hq := sum_range_update hi s.channels ch' fun ch => ch.mq.queue.length
    have hold := h.sem
    have hnew := hsteps.posts
    simp only [SocketReceiver.put]
    omega
  · have hp := sum_range_update ht s.loops l' Loop.idles
    have hq := sum_range_update hi s.channels ch' fun ch => ch.opened.toNat
    have hold := h.idles
    have hnew := hsteps.idles
    simp only [SocketReceiver.put]
    omega

/-- `Post` -/
lemma Inv.post {notReady t : ℕ} (h : Inv net queueSize sent notReady s) (ht : s.loops t = .posting) :
    Inv net queueSize sent notReady
      { s with sem := s.sem + 1, loops := Function.update s.loops t .getActiveSocket } := by
  have htT : t < net.maxThreadCount := h.threads t (by simp [ht])
  have hstage (u i : ℕ) : (Function.update s.loops t .getActiveSocket u).stage i = (s.loops u).stage i := by
    by_cases hu : u = t
    · rw [hu, Function.update_self, ht]
      rfl
    · rw [Function.update_of_ne hu]
  refine ⟨fun i hi => ?_, fun u i hne => ?_, fun u hbusy => ?_, fun u hu => ?_,
    h.reader.same rfl rfl, ?_, ?_⟩
  · have hold := h.channel i hi
    rwa [← hstage] at hold
  · rw [hstage] at hne
    exact h.stages u i hne
  · by_cases hut : u = t
    · rwa [hut]
    · simp only [Function.update_of_ne hut] at hbusy
      exact h.threads u hbusy
  · rw [← h.returned u hu]
    simp only
    by_cases hut : u = t
    · rw [hut, Function.update_self, ht]
      exact iff_of_false Loop.noConfusion Loop.noConfusion
    · rw [Function.update_of_ne hut]
  · have hp := sum_range_update htT s.loops .getActiveSocket Loop.posts
    have hold := h.sem
    rw [ht] at hp
    simp only [Loop.posts] at hp ⊢
    simp only [Loop.posts] at hold
    omega
  · have hp := sum_range_update htT s.loops .getActiveSocket Loop.idles
    have hold := h.idles
    rw [ht] at hp
    simp only [Loop.idles] at hp hold ⊢
    omega

/-- `Recv` passes the semaphore, or is not let through in time. -/
lemma Inv.claim {notReady sem : ℕ} {reader : Reader} (h : Inv net queueSize sent notReady s)
    (hsem : sem + reader.claims = s.sem + s.reader.claims) (hheld : reader.held = s.reader.held)
    (hreader : ReaderOk net sent { s with sem := sem, reader := reader }) :
    Inv net queueSize sent notReady { s with sem := sem, reader := reader } := by
  refine ⟨fun i hi => ?_, h.stages, h.threads, h.returned, hreader, ?_, h.idles⟩
  · have htaken : taken { s with sem := sem, reader := reader } i = s.taken i := by
      rw [taken, taken, hheld]
      rfl
    rw [htaken]
    exact h.channel i hi
  · have hold := h.sem
    simp only
    omega

variable {mq : MessageQueue}

lemma ChannelOk.pop {taken : ℕ} {stage : Option Stage} {msg : Message}
    (h : ChannelOk queueSize messages taken stage ch) (hpop : ch.mq.pop = (.removed msg, mq)) :
    ChannelOk queueSize messages (taken + 1) stage { ch with mq := mq } ∧
      ch.mq.queue.length = mq.queue.length + 1 ∧ taken < messages.length ∧
      (ch.memory.getD msg.data []).take msg.size.toNat = messages.getD taken [] := by
  obtain ⟨rest, hqueue, rfl⟩ : ∃ rest, ch.mq.queue = msg :: rest ∧
      mq = { ch.mq with queue := rest, freeSize := ch.mq.freeSize + msg.size } := by
    rw [MessageQueue.pop, if_neg (by simp [h.opened])] at hpop
    cases hqueue : ch.mq.queue with
    | nil => simp [hqueue] at hpop
    | cons first rest =>
        rw [hqueue] at hpop
        simp only [Prod.mk.injEq, Outcome.removed.injEq] at hpop
        obtain ⟨rfl, rfl⟩ := hpop
        exact ⟨rest, rfl, rfl⟩
  have hlist := h.queue
  have hbound := h.bound
  rw [hqueue, List.length_cons] at hbound
  rw [hqueue, List.length_cons, List.range'_succ, List.map_cons, List.cons.injEq] at hlist
  obtain ⟨rfl, hrest⟩ := hlist
  have hlt : taken < messages.length := by omega
  refine ⟨⟨?_, ?_, h.received, hrest, h.size, h.opened⟩, by rw [hqueue, List.length_cons], hlt, ?_⟩
  · have hreads := h.reads
    rw [hqueue, List.length_cons] at hreads
    have hmq := hreads.of_mq
        { ch.mq with queue := rest, freeSize := ch.mq.freeSize + (messageOf messages taken).size }
    rwa [add_right_comm, add_assoc]
  · simp only
    omega
  · have hmemory := h.reads.memory (k := taken) (by rw [hqueue, List.length_cons]; omega)
    rw [messageOf_eq (List.getElem?_eq_getElem hlt)]
    simp only
    rw [hmemory, List.getD_eq_getElem?_getD, List.getElem?_eq_getElem hlt, Option.getD_some,
      Int.toNat_natCast,
      List.take_length]

/-! ## Messages with their buffers -/

lemma delivered_concat (s : SocketReceiver) (r : Reader) (i j : ℕ) (m : RpcMessage) :
    delivered { s with reader := r, results := s.results ++ [(i, m)] } j =
      s.delivered j ++ if i = j then [m] else [] := by
  rw [delivered, delivered, List.filterMap_append]
  by_cases hij : i = j <;> simp [hij]

/-- What `Recv` has when it has some of the buffers of a message. -/
def held (i : ℕ) (m : RpcMessage) (buffers : List (List UInt8)) (j : ℕ) : List (List UInt8) :=
  if i = j then (m.blob ++ Codec.bytes 4 m.buffers.length) :: buffers else []

variable {buffers : List (List UInt8)} {m : RpcMessage}

/-- The next buffer of a message, or its end. -/
lemma nextBuffer_ok (hi : i < net.numSender)
    (hdelivered : ∀ j < net.numSender, s.delivered j <+: sent j)
    (hnext : s.delivered i ++ [m] <+: sent i) (hbuffers : buffers <+: m.buffers) :
    (s.nextBuffer i m.blob m.buffers.length buffers).ReaderOk net sent ∧
      (s.nextBuffer i m.blob m.buffers.length buffers).reader.claims = 0 ∧
      ∀ j, (s.nextBuffer i m.blob m.buffers.length buffers).taken j =
        (s.delivered j).flatMap RpcMessage.messages ++ held i m buffers j := by
  by_cases hlt : buffers.length < m.buffers.length
  · rw [nextBuffer, if_pos hlt]
    refine ⟨⟨hdelivered, fun claimed j blob count bufs hreading => ?_⟩, rfl, fun j => rfl⟩
    simp only [Reader.reading.injEq] at hreading
    obtain ⟨-, rfl, rfl, rfl, rfl⟩ := hreading
    exact ⟨hi, hlt, m, hnext, rfl, rfl, hbuffers⟩
  · obtain rfl : buffers = m.buffers := hbuffers.eq_of_length_le (not_lt.1 hlt)
    rw [nextBuffer, if_neg hlt]
    refine ⟨⟨fun j hj => ?_, by simp⟩, rfl, fun j => ?_⟩
    · rw [delivered_concat]
      by_cases hij : i = j
      · subst hij
        rwa [if_pos rfl]
      · rw [if_neg hij, List.append_nil]
        exact hdelivered j hj
    · rw [taken, delivered_concat, held]
      by_cases hij : i = j <;> simp [hij, Reader.held, RpcMessage.messages]

/-- A message of a sender has left its queue, and `Recv` has it. -/
lemma Inv.popped (mqIter : ℕ) {msg : Message} (h : Inv net queueSize sent notReady s)
    (hi : i < net.numSender) (hpop : (s.channels i).mq.pop = (.removed msg, mq))
    (hclaims : s.reader.claims = 1) (hnext : s.delivered i ++ [m] <+: sent i)
    (hbuffers : buffers <+: m.buffers)
    (htaken : ∀ j, (held i m buffers j).length = (s.reader.held j).length + if i = j then 1 else 0) :
    Inv net queueSize sent notReady
      (({ s.putQueue i mq with mqIter := mqIter }).nextBuffer i m.blob m.buffers.length buffers) := by
  obtain ⟨hok, hlen, -, -⟩ := (h.channel i hi).pop hpop
  obtain ⟨hreader, hclaimed, htakes⟩ :=
    nextBuffer_ok (s := { s.putQueue i mq with mqIter := mqIter })
    hi h.reader.delivered hnext hbuffers
  have hfields : ∀ s' : SocketReceiver, (s'.nextBuffer i m.blob m.buffers.length buffers).channels =
    s'.channels ∧
      (s'.nextBuffer i m.blob m.buffers.length buffers).loops = s'.loops ∧
      (s'.nextBuffer i m.blob m.buffers.length buffers).sem = s'.sem ∧
      (s'.nextBuffer i m.blob m.buffers.length buffers).warnings = s'.warnings := by
    intro s'
    rw [nextBuffer]
    split_ifs <;> exact ⟨rfl, rfl, rfl, rfl⟩
  obtain ⟨hchannels, hloops, hsem, hwarnings⟩ := hfields { s.putQueue i mq with mqIter := mqIter }
  have hlength (j : ℕ) :
      ((({ s.putQueue i mq with mqIter := mqIter }).nextBuffer i m.blob m.buffers.length buffers).taken j).length =
        (s.taken j).length + if i = j then 1 else 0 := by
    rw [htakes, List.length_append, htaken, taken, List.length_append, add_assoc]
    rfl
  refine ⟨fun j hj => ?_, ?_, ?_, ?_, hreader, ?_, ?_⟩
  · rw [hlength, hchannels, hloops]
    change ChannelOk queueSize _ _ _ (Function.update s.channels i _ j)
    by_cases hij : j = i
    · subst hij
      rw [if_pos rfl, Function.update_self]
      exact hok
    · rw [if_neg (Ne.symm hij), Function.update_of_ne hij]
      exact h.channel j hj
  · rw [hloops]
    exact h.stages
  · rw [hloops]
    exact h.threads
  · rw [hloops, hchannels]
    intro t ht
    refine (h.returned t ht).trans (forall₃_congr fun j _ _ => ?_)
    change _ ↔ (Function.update s.channels i _ j).opened = false
    by_cases hij : j = i
    · rw [hij, Function.update_self]
    · rw [Function.update_of_ne hij]
  · have hq := sum_range_update hi s.channels { s.channels i with mq := mq } fun ch => ch.mq.queue.length
    have hold := h.sem
    rw [hclaimed, hsem, hloops, hchannels, hwarnings]
    simp only [putQueue] at hq ⊢
    omega
  · have hq := sum_range_update hi s.channels { s.channels i with mq := mq } fun ch => ch.opened.toNat
    have hold := h.idles
    rw [hloops, hchannels, hwarnings]
    simp only [putQueue] at hq ⊢
    omega

/-- No thread is without a socket, the messages fit the queues, and their numbers the types. -/
structure Sendable (net : Sockets) (queueSize : ℤ) (sent : ℕ → List RpcMessage) : Prop where
  threads : 0 < net.maxThreadCount ∧ net.maxThreadCount ≤ net.numSender
  order : ∀ i ∈ net.order, i < net.numSender
  queueSize_nonneg : 0 ≤ queueSize
  queueSize_lt : queueSize < 2 ^ 63
  fits : ∀ i < net.numSender, ∀ m ∈ (sent i).flatMap RpcMessage.messages,
    0 < m.length ∧ (m.length : ℤ) ≤ queueSize
  count : ∀ i < net.numSender, ∀ m ∈ sent i, m.buffers.length < 2 ^ 31

/-- The meta message of the next message of a sender. -/
lemma getD_flatMap_messages {done sent : List RpcMessage} (hdone : done <+: sent)
    (hlt : (done.flatMap RpcMessage.messages).length < (sent.flatMap RpcMessage.messages).length) :
    ∃ m, done ++ [m] <+: sent ∧ (sent.flatMap RpcMessage.messages).getD
      (done.flatMap RpcMessage.messages).length [] = m.blob ++ Codec.bytes 4 m.buffers.length := by
  obtain ⟨rest, rfl⟩ := hdone
  cases rest with
  | nil => simp at hlt
  | cons m rest =>
      refine ⟨m, ⟨rest, by simp⟩, ?_⟩
      rw [List.flatMap_append, List.getD_eq_getElem?_getD, List.getElem?_append_right le_rfl,
        Nat.sub_self,
        List.flatMap_cons]
      rfl

lemma getD_flatMap_buffers {done sent : List RpcMessage} (hdone : done ++ [m] <+: sent)
    (hbuffers : buffers <+: m.buffers) (hlt : buffers.length < m.buffers.length) :
    buffers ++ [(sent.flatMap RpcMessage.messages).getD
      ((done.flatMap RpcMessage.messages).length + (buffers.length + 1)) []] <+: m.buffers := by
  obtain ⟨rest, rfl⟩ := hdone
  obtain ⟨left, hleft⟩ := hbuffers
  have hget : ((done ++ [m] ++ rest).flatMap RpcMessage.messages)[(done.flatMap RpcMessage.messages).length +
      (buffers.length + 1)]? = m.buffers[buffers.length]? := by
    rw [List.append_assoc, List.flatMap_append, List.getElem?_append_right (Nat.le_add_right _ _),
      Nat.add_sub_cancel_left, List.singleton_append, List.flatMap_cons, RpcMessage.messages,
        List.cons_append,
      List.getElem?_cons_succ, List.getElem?_append_left hlt]
  rw [List.getD_eq_getElem?_getD, hget, ← hleft, List.getElem?_append_right le_rfl, Nat.sub_self]
  cases left with
  | nil =>
      rw [List.append_nil] at hleft
      rw [hleft] at hlt
      exact absurd hlt (lt_irrefl _)
  | cons b left => exact ⟨left, by simp⟩

/-- The meta message has been taken: `Recv` knows the blob and the number of buffers. -/
lemma gotMeta_eq (hcount : m.buffers.length < 2 ^ 31) :
    s.gotMeta i (m.blob ++ Codec.bytes 4 m.buffers.length) =
      some (s.nextBuffer i m.blob m.buffers.length []) := by
  have hlen : (m.blob ++ Codec.bytes 4 m.buffers.length).length = m.blob.length + 4 := by
    rw [List.length_append, Codec.length_bytes]
  have hword : Codec.ofBytes (Codec.bytes 4 m.buffers.length) = m.buffers.length :=
    Codec.ofBytes_bytes (hcount.trans (by norm_num))
  rw [gotMeta, hlen, Nat.add_sub_cancel, List.drop_left, List.take_left, hword]
  exact if_neg (by omega)

lemma Inv.scan (h : Inv net queueSize sent notReady s) (hsend : Sendable net queueSize sent)
    (hstep : s.step net .scan = some s') : Inv net queueSize sent notReady s' := by
  have hiter (k : ℕ) : Inv net queueSize sent notReady { s with mqIter := k } :=
    ⟨h.channel, h.stages, h.threads, h.returned, h.reader.same rfl rfl, h.sem, h.idles⟩
  rw [step] at hstep
  cases hreader : s.reader with
  | idle => simp [hreader] at hstep
  | reading claimed i blob count buffers => simp [hreader] at hstep
  | scanning =>
      simp only [hreader] at hstep hiter
      cases horder : net.order[s.mqIter]? with
      | none =>
          simp only [horder, Option.some.injEq] at hstep
          exact hstep ▸ hiter 0
      | some i =>
          have hi := hsend.order i (List.mem_of_getElem? horder)
          simp only [horder] at hstep
          cases hrefusal : (s.channels i).mq.removeRefusal false with
          | some status =>
              simp only [hrefusal, Option.some.injEq] at hstep
              exact hstep ▸ hiter (s.mqIter + 1)
          | none =>
              simp only [hrefusal] at hstep
              cases hpop : (s.channels i).mq.pop with
              | mk outcome mq =>
                  rw [hpop] at hstep
                  cases outcome with
                  | removed msg =>
                      obtain ⟨-, -, hlt, hcontent⟩ := (h.channel i hi).pop hpop
                      have htaken : s.taken i = (s.delivered i).flatMap RpcMessage.messages := by
                        rw [taken, hreader, Reader.held_scanning, List.append_nil]
                      rw [htaken] at hlt hcontent
                      obtain ⟨m, hnext, hmeta⟩ :=
                        getD_flatMap_messages (h.reader.delivered i hi) hlt
                      have hm : m ∈ sent i := hnext.subset (by simp)
                      simp only [content, hcontent, hmeta, gotMeta_eq (hsend.count i hi m hm),
                        Option.some.injEq] at hstep
                      rw [← hstep]
                      have hpopped := h.popped (s.mqIter + 1) hi hpop (by rw [hreader]; rfl) hnext
                        (List.nil_prefix) (fun j => by rw [hreader, held, Reader.held_scanning]; split_ifs <;> simp)
                      exact hpopped
                  | _ => simp at hstep

lemma Inv.fetch (h : Inv net queueSize sent notReady s) (hstep : s.step net .fetch = some s') :
    Inv net queueSize sent notReady s' := by
  rw [step] at hstep
  cases hreader : s.reader with
  | idle => simp [hreader] at hstep
  | scanning => simp [hreader] at hstep
  | reading claimed i blob count buffers =>
      cases claimed with
      | false => simp [hreader] at hstep
      | true =>
          simp only [hreader] at hstep
          obtain ⟨hi, hlt, m, hnext, rfl, rfl, hbuffers⟩ := h.reader.reading _ _ _ _ _ hreader
          cases hrefusal : (s.channels i).mq.removeRefusal true with
          | some status => simp [hrefusal] at hstep
          | none =>
              simp only [hrefusal] at hstep
              split_ifs at hstep with hcan
              cases hpop : (s.channels i).mq.pop with
              | mk outcome mq =>
                  rw [hpop] at hstep
                  cases outcome with
                  | removed msg =>
                      obtain ⟨-, -, -, hcontent⟩ := (h.channel i hi).pop hpop
                      have htaken : (s.taken i).length =
                          ((s.delivered i).flatMap RpcMessage.messages).length +
                            (buffers.length + 1) := by
                        rw [taken, hreader, Reader.held_reading, if_pos rfl, List.length_append,
                          List.length_cons]
                      have hbuffers' := getD_flatMap_buffers hnext hbuffers hlt
                      rw [← htaken, ← hcontent] at hbuffers'
                      simp only [Option.some.injEq] at hstep
                      rw [← hstep]
                      have hpopped := h.popped s.mqIter hi hpop (by rw [hreader]; rfl) hnext hbuffers'
                        (fun j => by rw [hreader, held, Reader.held_reading]; split_ifs <;> simp)
                      exact hpopped
                  | _ => simp at hstep

/-! ## Runs -/

lemma atSize_busy (i : ℕ) (stage : Stage) : atSize (.busy i stage) = true ↔ stage = .sizing [] := by
  cases stage with
  | sizing got => cases got <;> simp [atSize]
  | _ => simp [atSize]

/-- A thread in its work on a socket that it has removed has another one. -/
lemma Inv.lastSocket_eq_false (h : Inv net queueSize sent notReady s)
    (hthreads : 0 < net.maxThreadCount) (hloop : s.loops (i % net.maxThreadCount) ≠ .returned)
    (hclosed : (s.channels i).opened = false) : s.lastSocket net i = false := by
  refine decide_eq_false fun hall => hloop ?_
  rw [h.returned _ (Nat.mod_lt i hthreads)]
  intro j hj hmod
  by_cases hji : j = i
  · rwa [hji]
  · exact hall j hj hji hmod

/-- A step without a warning, of the thread that has the socket of a sender. -/
lemma Inv.put_quiet {l : Loop} {r : Channel × Loop} (h : Inv net queueSize sent notReady s)
    (hthreads : 0 < net.maxThreadCount) (hi : i < net.numSender)
    (hloop : s.loops (i % net.maxThreadCount) = l) (hothers : ∀ j ≠ i, l.stage j = none)
    (hposts : l.posts = 0)
    (hsteps : Channel.Steps ((sent i).flatMap RpcMessage.messages)
      ((s.taken i).length + (s.channels i).mq.queue.length) (s.channels i) l i
      (s.lastSocket net i) nr 0 pushed r.1 r.2) :
    Inv net queueSize sent (notReady + nr) (s.put (i % net.maxThreadCount) i r) := by
  subst hloop
  exact h.put hthreads hi hothers hposts hsteps

/-- **Step lemma.** -/
theorem Inv.step {e : SocketEvent} (h : Inv net queueSize sent notReady s)
    (hsend : Sendable net queueSize sent) (hstep : s.step net e = some s') :
    Inv net queueSize sent (notReady + s.notReady e) s' := by
  have hthreads := hsend.threads.1
  cases e with
  | activate i =>
      simp only [SocketReceiver.step] at hstep
      split_ifs at hstep with hguard
      obtain ⟨hi, hopen, hloop⟩ := hguard
      cases hstep
      have hok := h.channel i hi
      have hreads := hok.reads
      rw [hloop] at hreads
      exact h.put_quiet hthreads hi hloop (fun _ _ => rfl) rfl
        (hreads.activate hopen hok.received hok.opened)
  | receive t bytes =>
      simp only [SocketReceiver.step] at hstep
      cases hloop : s.loops t with
      | busy i stage =>
          simp only [hloop] at hstep
          obtain ⟨r, hr, rfl⟩ := Option.map_eq_some_iff.1 hstep
          obtain ⟨hi, rfl⟩ := h.stages t i (by simp [hloop])
          have hok := h.channel i hi
          have hreads := hok.reads
          rw [hloop, Loop.stage_busy] at hreads
          have hsizes : ∀ m ∈ (sent i).flatMap RpcMessage.messages, 0 < m.length ∧ m.length < 2 ^ 63 := by
            intro m hm
            obtain ⟨hpos, hle⟩ := hsend.fits i hi m hm
            have hlt := hsend.queueSize_lt
            exact ⟨hpos, by exact_mod_cast hle.trans_lt hlt⟩
          have hsteps := hreads.receive hok.bound hsizes hok.received hr
          have hput := h.put_quiet hthreads hi hloop (fun j hj => Loop.stage_busy_of_ne hj stage)
            (by cases stage <;> rfl) hsteps
          simp only [SocketReceiver.notReady, hloop, atSize_busy]
          exact hput
      | _ => simp [hloop] at hstep
  | add t =>
      simp only [SocketReceiver.step] at hstep
      split at hstep
      · rename_i i msg hloop
        cases hstep
        obtain ⟨hi, rfl⟩ := h.stages t i (by simp [hloop])
        have hok := h.channel i hi
        have hreads := hok.reads
        rw [hloop, Loop.stage_busy] at hreads
        have hlast := h.lastSocket_eq_false hthreads (by rw [hloop]; exact Loop.noConfusion)
        obtain ⟨pushed, hsteps⟩ : ∃ pushed,
          Channel.Steps _ _ _ _ i (s.lastSocket net i) 0 _ pushed _ _ :=
          hreads.add (by rw [hok.size]; exact hsend.fits i hi) hok.received
            (by rw [hok.size]; exact hsend.queueSize_nonneg)
          hok.opened hlast
        rw [← hloop] at hsteps
        exact h.put hthreads hi (fun j hj => by rw [hloop]; exact Loop.stage_busy_of_ne hj _)
          (by rw [hloop]; rfl) hsteps
      · cases hstep
  | resumeAdd t =>
      simp only [SocketReceiver.step] at hstep
      split at hstep
      · rename_i i msg hloop
        obtain ⟨r, hr, rfl⟩ := Option.map_eq_some_iff.1 hstep
        obtain ⟨hi, rfl⟩ := h.stages t i (by simp [hloop])
        have hok := h.channel i hi
        have hreads := hok.reads
        rw [hloop, Loop.stage_busy] at hreads
        exact h.put_quiet hthreads hi hloop (fun j hj => Loop.stage_busy_of_ne hj _) rfl
          (hreads.resumeAdd (fun m hm => (hsend.fits i hi m hm).1) hok.received hr)
      · cases hstep
  | post t =>
      simp only [SocketReceiver.step] at hstep
      split_ifs at hstep with hloop
      cases hstep
      exact h.post hloop
  | timedWait timedOut =>
      simp only [SocketReceiver.step] at hstep
      split at hstep
      · split_ifs at hstep
        cases hstep
        exact h
      · rename_i hreader
        split_ifs at hstep with hsem
        cases hstep
        refine h.claim (by rw [hreader]; simp only [Reader.claims]; omega) ?_ ⟨h.reader.delivered,
          by simp⟩
        rw [hreader]
        rfl
      · split_ifs at hstep
        cases hstep
        exact h
      · rename_i i blob count buffers hreader
        split_ifs at hstep with hsem
        cases hstep
        refine h.claim (by rw [hreader]; simp only [Reader.claims]; omega) ?_ ⟨h.reader.delivered,
          ?_⟩
        · rw [hreader]
          rfl
        · intro claimed i' blob' count' buffers' hreading
          cases hreading
          exact h.reader.reading _ _ _ _ _ hreader
      · cases hstep
  | scan => exact h.scan hsend hstep
  | fetch => exact h.fetch hstep

/-- **Run lemma.** -/
theorem Inv.exec {notReady₀ notReady : ℕ} {es : List SocketEvent}
    (h : Inv net queueSize sent notReady₀ s) (hsend : Sendable net queueSize sent)
    (hrun : s.exec net es = some (notReady, s')) :
    Inv net queueSize sent (notReady₀ + notReady) s' := by
  induction es generalizing s notReady₀ notReady with
  | nil =>
      cases hrun
      exact h
  | cons e es ih =>
      obtain ⟨s₁, hstep, rest, s₂, hrest, heq⟩ : ∃ s₁, s.step net e = some s₁ ∧
          ∃ rest s₂, s₁.exec net es = some (rest, s₂) ∧
            (s.notReady e + rest, s₂) = (notReady, s') := by
        simpa [SocketReceiver.exec, Option.bind_eq_some_iff] using hrun
      cases heq
      rw [← add_assoc]
      exact ih (h.step hsend hstep) hrest

lemma inv_create {streams : ℕ → List UInt8} (hmq : MessageQueue.create queueSize 1 = some mq)
    (hsend : Sendable net queueSize sent)
    (hwritten : ∀ i < net.numSender, Written ((sent i).flatMap RpcMessage.messages) (streams i)) :
    Inv net queueSize sent 0 (create mq streams) := by
  obtain ⟨hqueue, hsize, hopen⟩ : mq.queue = [] ∧ mq.queueSize = queueSize ∧ mq.noMoreAdd = false := by
    rw [MessageQueue.create] at hmq
    split_ifs at hmq
    cases hmq
    exact ⟨rfl, rfl, rfl⟩
  have htaken (i : ℕ) : taken (create mq streams) i = [] := rfl
  refine ⟨fun i hi => ?_, fun t i hne => absurd rfl hne, fun t hne => absurd rfl hne,
    fun t ht => ?_,
    ⟨fun i _ => List.nil_prefix, by simp [create]⟩, ?_, ?_⟩
  · rw [htaken]
    refine ⟨?_, by simp [create, hqueue], le_rfl, by simp [create, hqueue], hsize, hopen⟩
    simp only [create, hqueue, (hwritten i hi).eq_wire]
    exact .between rfl
  · refine iff_of_false Loop.noConfusion fun hall => ?_
    exact absurd (hall t (ht.trans_le hsend.threads.2) (Nat.mod_eq_of_lt ht)) (by simp [create])
  · simp [create, hqueue, Reader.claims, Loop.posts]
  · simp [create, Loop.idles]

/-- A prefix with all messages is everything. -/
lemma eq_of_prefix_of_messages {done all : List RpcMessage} (hdone : done <+: all)
    (hlen : (done.flatMap RpcMessage.messages).length = (all.flatMap RpcMessage.messages).length) :
    done = all := by
  obtain ⟨rest, rfl⟩ := hdone
  cases rest with
  | nil => rw [List.append_nil]
  | cons m rest =>
      rw [List.flatMap_append, List.length_append, List.flatMap_cons, List.length_append,
        RpcMessage.messages, List.length_cons] at hlen
      omega

/-- All threads have returned, and all queues are empty. -/
lemma Inv.delivered_eq (h : Inv net queueSize sent notReady s) (hthreads : 0 < net.maxThreadCount)
    (hi : i < net.numSender) (hloops : ∀ t < net.maxThreadCount, s.loops t = .returned)
    (hreader : s.reader = .idle) (hqueue : (s.channels i).mq.queue = []) :
    s.delivered i = sent i := by
  have ht := Nat.mod_lt i hthreads
  have hclosed := (h.returned _ ht).1 (hloops _ ht) i hi rfl
  have hok := h.channel i hi
  have hreads := hok.reads
  have htaken : s.taken i = (s.delivered i).flatMap RpcMessage.messages := by
    rw [taken, hreader, Reader.held_idle, List.append_nil]
  rw [hqueue, List.length_nil, add_zero, htaken] at hreads
  refine eq_of_prefix_of_messages (h.reader.delivered i hi) ?_
  generalize s.channels i = ch at hreads hclosed
  generalize Loop.stage _ i = stage at hreads
  cases hreads with
  | ending hend => exact hend
  | ended hend => exact hend
  | _ => cases hclosed

/-- Nothing is on the way, and `Recv` is behind the semaphore. -/
structure Starved (net : Sockets) (s : SocketReceiver) : Prop where
  reader : s.reader = .scanning
  loops : ∀ t, s.loops t = .getActiveSocket ∨ s.loops t = .returned
  returned : ∀ i < net.numSender, s.loops (i % net.maxThreadCount) = .returned
  queues : ∀ i ∈ net.order, (s.channels i).mq.queue = []

/-- All that happens is that `Recv` looks at the next queue. -/
lemma Starved.step {e : SocketEvent} (h : s.Starved net) (hstep : s.step net e = some s') :
    ∃ k, s' = { s with mqIter := k } := by
  cases e with
  | activate i =>
      rw [SocketReceiver.step] at hstep
      split_ifs at hstep with hready
      rw [h.returned i hready.1] at hready
      cases hready.2.2
  | scan =>
      simp only [SocketReceiver.step, h.reader] at hstep
      cases horder : net.order[s.mqIter]? with
      | none =>
          simp only [horder, Option.some.injEq] at hstep
          exact ⟨0, by rw [← hstep, h.reader]⟩
      | some i =>
          have hempty := h.queues i (List.mem_of_getElem? horder)
          have hrefusal : (s.channels i).mq.removeRefusal false = some .queueEmpty := by
            rw [MessageQueue.removeRefusal, if_pos hempty, if_pos rfl]
          simp only [horder, hrefusal, Option.some.injEq] at hstep
          exact ⟨s.mqIter + 1, by rw [← hstep, h.reader]⟩
  | timedWait timedOut => simp [SocketReceiver.step, h.reader] at hstep
  | fetch => simp [SocketReceiver.step, h.reader] at hstep
  | receive t | add t | resumeAdd t | post t =>
      rcases h.loops t with hloop | hloop <;> simp [SocketReceiver.step, hloop] at hstep

lemma Starved.exec {es : List SocketEvent} (h : s.Starved net)
    (hrun : s.exec net es = some (notReady, s')) : ∃ k, s' = { s with mqIter := k } := by
  induction es generalizing s notReady with
  | nil =>
      cases hrun
      exact ⟨_, rfl⟩
  | cons e es ih =>
      obtain ⟨s₁, hstep, rest, s₂, hrest, heq⟩ : ∃ s₁, s.step net e = some s₁ ∧
          ∃ rest s₂, s₁.exec net es = some (rest, s₂) ∧
            (s.notReady e + rest, s₂) = (notReady, s') := by
        simpa [SocketReceiver.exec, Option.bind_eq_some_iff] using hrun
      cases heq
      obtain ⟨k, rfl⟩ := h.step hstep
      have hnext : Starved net { s with mqIter := k } := ⟨h.reader, h.loops, h.returned, h.queues⟩
      obtain ⟨l, hl⟩ := ih hnext hrest
      exact ⟨l, hl⟩

/-- **The messages of each sender** are delivered whole, once and in order, whatever the network does; the
semaphore counts them, and the sizes that were no messages.  If it is not at `0` when all is delivered,
the next `Recv` does not time out, and never comes back. -/
theorem exec_delivers {queueSize : ℤ} {mq : MessageQueue} {streams : ℕ → List UInt8} {notReady : ℕ}
    {es : List SocketEvent} (hmq : MessageQueue.create queueSize 1 = some mq)
    (hsend : Sendable net queueSize sent)
    (hwritten : ∀ i < net.numSender, Written ((sent i).flatMap RpcMessage.messages) (streams i))
    (hrun : (create mq streams).exec net es = some (notReady, s)) :
    (∀ i < net.numSender, s.delivered i <+: sent i) ∧
    s.sem + s.reader.claims + ∑ t ∈ Finset.range net.maxThreadCount, (s.loops t).posts =
      ∑ i ∈ Finset.range net.numSender, (s.channels i).mq.queue.length + s.warnings ∧
    s.warnings + ∑ t ∈ Finset.range net.maxThreadCount, (s.loops t).idles +
      ∑ i ∈ Finset.range net.numSender, (s.channels i).opened.toNat = notReady + net.numSender ∧
    ((∀ t < net.maxThreadCount, s.loops t = .returned) → s.reader = .idle →
      (∀ i < net.numSender, (s.channels i).mq.queue = []) →
      (∀ i < net.numSender, s.delivered i = sent i) ∧
        s.sem + net.maxThreadCount = notReady + net.numSender ∧
        (net.maxThreadCount < notReady + net.numSender →
          s.step net (.timedWait true) = none ∧ ∃ s', s.step net (.timedWait false) = some s' ∧
            ∀ es' notReady' s'', s'.exec net es' = some (notReady', s'') →
              s''.reader = .scanning ∧ s''.results = s.results)) := by
  have hthreads := hsend.threads.1
  have h : Inv net queueSize sent notReady s := by
    have hinv := (inv_create hmq hsend hwritten).exec hsend hrun
    rwa [Nat.zero_add] at hinv
  refine ⟨h.reader.delivered, h.sem, h.idles, fun hloops hreader hqueues => ?_⟩
  have hposts : ∑ t ∈ Finset.range net.maxThreadCount, (s.loops t).posts = 0 :=
    Finset.sum_eq_zero fun t ht => by rw [hloops t (Finset.mem_range.1 ht)]; rfl
  have hidles : ∑ t ∈ Finset.range net.maxThreadCount, (s.loops t).idles = net.maxThreadCount := by
    rw [Finset.sum_congr rfl fun t ht => by rw [hloops t (Finset.mem_range.1 ht)]]
    simp [Loop.idles]
  have hqueue : ∑ i ∈ Finset.range net.numSender, (s.channels i).mq.queue.length = 0 :=
    Finset.sum_eq_zero fun i hi => by rw [hqueues i (Finset.mem_range.1 hi)]; rfl
  have hopened : ∑ i ∈ Finset.range net.numSender, (s.channels i).opened.toNat = 0 := by
    refine Finset.sum_eq_zero fun i hi => ?_
    have ht := Nat.mod_lt i hthreads
    rw [(h.returned _ ht).1 (hloops _ ht) i (Finset.mem_range.1 hi) rfl]
    rfl
  have hsem := h.sem
  have hcount := h.idles
  rw [hreader, hposts, hqueue] at hsem
  rw [hidles, hopened] at hcount
  simp only [Reader.claims] at hsem
  have hcount : s.sem + net.maxThreadCount = notReady + net.numSender := by omega
  refine ⟨fun i hi => h.delivered_eq hthreads hi hloops hreader (hqueues i hi), hcount, fun hmore => ?_⟩
  have hpos : s.sem ≠ 0 := by omega
  refine ⟨by simp only [step, hreader, if_neg hpos],
    { s with sem := s.sem - 1, reader := .scanning }, by simp only [step, hreader, if_neg hpos], ?_⟩
  have hstarved : Starved net { s with sem := s.sem - 1, reader := .scanning } := by
    refine ⟨rfl, fun t => ?_, fun i _ => hloops _ (Nat.mod_lt i hthreads), fun i hi =>
      hqueues i (hsend.order i hi)⟩
    by_cases ht : s.loops t = .getActiveSocket
    · exact .inl ht
    · exact .inr (hloops t (h.threads t ht))
  intro es' notReady' s'' hrun'
  obtain ⟨k, rfl⟩ := hstarved.exec hrun'
  exact ⟨rfl, rfl⟩

/-- Two senders and one thread: the first sends a message without buffers, the second nothing. -/
def twoSenders : Sockets := ⟨2, 1, [0, 1]⟩

/-- The message, the end signal of the first sender, and that of the second. -/
def oneDelivery : List SocketEvent :=
  [.activate 0, .receive 0 (some 3), .receive 0 (some 8), .receive 0 (some 1), .receive 0 none, .activate 0,
    .receive 0 (some 9), .add 0, .post 0, .timedWait false, .scan, .activate 0, .receive 0 (some 8),
      .add 0,
    .post 0, .activate 1, .receive 0 (some 8)]

/-- A queue of 100 bytes. -/
def emptyQueue : MessageQueue := ⟨[], 100, 100, 1, ∅, false⟩

/-- What the first of two senders sends. -/
def oneMessage (i : ℕ) : List RpcMessage := if i = 0 then [⟨[7], []⟩] else []

/-- What the two write: the first message is taken from the queue of its thread and sent in two pieces. -/
def twoStreams (i : ℕ) : List UInt8 :=
  if i = 0 then Codec.bytes 8 5 ++ [7, 0, 0, 0, 0] ++ Codec.bytes 8 0 else Codec.bytes 8 0

/-- The semaphore is left at `1`, with nothing in the queues: the next `Recv` never comes back. -/
lemma exec_delivers_once :
    ∃ s, (create emptyQueue twoStreams).exec twoSenders oneDelivery = some (0, s) ∧
    s.delivered 0 = [⟨[7], []⟩] ∧ s.sem = 1 ∧ s.step twoSenders (.timedWait true) = none ∧
    ∃ s', s.step twoSenders (.timedWait false) = some s' ∧
      ∀ es n s'', s'.exec twoSenders es = some (n, s'') →
        s''.reader = .scanning ∧ s''.results = s.results := by
  have hsend : Sendable twoSenders 100 oneMessage :=
    ⟨by decide, by decide, by decide, by norm_num, by decide, by decide⟩
  have hwritten : ∀ i < twoSenders.numSender,
      Written ((oneMessage i).flatMap RpcMessage.messages) (twoStreams i) := by
    intro i hi
    have hlt : i < 2 := hi
    obtain rfl | rfl : i = 0 ∨ i = 1 := by omega
    · exact ⟨[((0, [7, 0, 0, 0, 0]), [8], [2, 3])], fun _ => [8], 0, by decide, by decide⟩
    · exact ⟨[], fun _ => [3, 5], 1, by decide, by decide⟩
  have hend : ((create emptyQueue twoStreams).exec twoSenders oneDelivery).map (fun r =>
      (r.1, r.2.loops 0, r.2.reader, (r.2.channels 0).mq.queue, (r.2.channels 1).mq.queue)) =
        some (0, .returned, .idle, [], []) := by decide
  obtain ⟨⟨notReady, s⟩, hrun, heq⟩ := Option.map_eq_some_iff.1 hend
  simp only [Prod.mk.injEq] at heq
  obtain ⟨rfl, hloop, hreader, hfirst, hsecond⟩ := heq
  obtain ⟨-, -, -, hall⟩ := exec_delivers rfl hsend hwritten hrun
  obtain ⟨hdelivered, hsem, hnext⟩ := hall (by simpa [twoSenders] using hloop) hreader fun i hi => by
    have hlt : i < 2 := hi
    obtain rfl | rfl : i = 0 ∨ i = 1 := by omega
    · exact hfirst
    · exact hsecond
  refine ⟨s, hrun, hdelivered 0 (by decide), ?_, hnext (by decide)⟩
  simp only [twoSenders] at hsem
  omega

end SocketReceiver

end DglAscend.Network
