import DglAscend.Lib.Codec
import DglAscend.Network.MessageQueue

/-!
# Messages over sockets

`SocketSender` writes the size of each message and then its bytes, in as many calls of `Send` as the
network needs, and a size of `0` at the end.  `SocketReceiver::RecvLoop` reads the sockets of some senders,
in any order, each as far as there is something to read, and keeps what it has of a message in the
`RecvContext` of the sender.

Wherever the loop stands, what has been read and what has not are together what was sent
(`Channel.Reads`), and each step of the loop keeps this.
-/

namespace DglAscend.Network

/-! ## What is sent -/

/-- An `RPCMessage` in a `StreamWithBuffer`: what is written, and the buffers. -/
structure RpcMessage where
  blob : List UInt8
  buffers : List (List UInt8)
  deriving DecidableEq

/-- The messages that `SocketSender::Send` makes of it: the number of buffers is behind the blob. -/
def RpcMessage.messages (m : RpcMessage) : List (List UInt8) :=
  (m.blob ++ Codec.bytes 4 m.buffers.length) :: m.buffers

/-- The loops of `SendCore`: what is written by calls of `Send` that take so many bytes. -/
def sendBytes : List UInt8 → List ℕ → Option (List UInt8)
  | [], [] => some []
  | data, tmp :: sends =>
    if data = [] ∨ data.length < tmp then none
    else (sendBytes (data.drop tmp) sends).map (data.take tmp ++ ·)
  | _ :: _, [] => none

/-- `SendCore` -/
def sendCore (data : List UInt8) (sizeSends dataSends : List ℕ) : Option (List UInt8) := do
  let size ← sendBytes (Codec.bytes 8 data.length) sizeSends
  let bytes ← sendBytes data dataSends
  pure (size ++ bytes)

/-- A message with its size in front of it. -/
def frame (data : List UInt8) : List UInt8 := Codec.bytes 8 data.length ++ data

/-- What `SendLoop` writes to a socket: its messages, and the end signal. -/
def wire (messages : List (List UInt8)) : List UInt8 := messages.flatMap frame ++ frame []

lemma sendBytes_eq {data out : List UInt8} {sends : List ℕ} (h : sendBytes data sends = some out) :
    out = data := by
  induction sends generalizing data out with
  | nil =>
      cases data with
      | nil => simpa [sendBytes] using h.symm
      | cons b bs => simp [sendBytes] at h
  | cons tmp sends ih =>
      rw [sendBytes] at h
      split_ifs at h with hend
      obtain ⟨rest, hrest, rfl⟩ := Option.map_eq_some_iff.1 h
      rw [ih hrest, List.take_append_drop]

/-- **`SendCore`** writes the frame of the message, however many bytes each call of `Send` takes. -/
lemma sendCore_eq {data out : List UInt8} {sizeSends dataSends : List ℕ}
    (h : sendCore data sizeSends dataSends = some out) : out = frame data := by
  obtain ⟨size, hsize, bytes, hbytes, hout⟩ : ∃ size,
    sendBytes (Codec.bytes 8 data.length) sizeSends =
      some size ∧ ∃ bytes, sendBytes data dataSends = some bytes ∧ size ++ bytes = out := by
    simpa [sendCore, Option.bind_eq_some_iff] using h
  rw [← hout, sendBytes_eq hsize, sendBytes_eq hbytes, frame]

/-- `SendLoop` of a thread with some sockets: the messages that it removes from its queue, with their
receivers, and the writes of each `SendCore`; what each socket gets. -/
def sendLoop (removed : List ((ℕ × List UInt8) × List ℕ × List ℕ)) (ends : ℕ → List ℕ)
    (receiver : ℕ) :
    Option (List UInt8) := do
  let frames ← (removed.filter (·.1.1 = receiver)).mapM fun x => sendCore x.1.2 x.2.1 x.2.2
  let last ← sendCore [] (ends receiver) []
  pure (frames.flatten ++ last)

variable {removed : List ((ℕ × List UInt8) × List ℕ × List ℕ)}

lemma flatten_sendCore {frames : List (List UInt8)}
    (h : (removed.mapM fun x => sendCore x.1.2 x.2.1 x.2.2) = some frames) :
    frames.flatten = removed.flatMap fun x => frame x.1.2 := by
  induction removed generalizing frames with
  | nil =>
      obtain rfl : frames = [] := by simpa using h.symm
      rfl
  | cons x l ih =>
      obtain ⟨first, hfirst, rest, hrest, rfl⟩ : ∃ first, sendCore x.1.2 x.2.1 x.2.2 = some first ∧
          ∃ rest, (l.mapM fun x => sendCore x.1.2 x.2.1 x.2.2) = some rest ∧
            first :: rest = frames := by
        simpa [List.mapM_cons, Option.bind_eq_some_iff] using h
      rw [List.flatten_cons, List.flatMap_cons, ih hrest, sendCore_eq hfirst]

/-- **`SendLoop`** writes to each socket its messages, in the order in which they left the queue. -/
theorem sendLoop_eq {ends : ℕ → List ℕ} {receiver : ℕ} {out : List UInt8}
    (h : sendLoop removed ends receiver = some out) :
    out = wire ((removed.filter (·.1.1 = receiver)).map (·.1.2)) := by
  obtain ⟨frames, hframes, last, hlast, rfl⟩ : ∃ frames,
      ((removed.filter (·.1.1 = receiver)).mapM fun x => sendCore x.1.2 x.2.1 x.2.2) = some frames ∧
      ∃ last, sendCore [] (ends receiver) [] = some last ∧ frames.flatten ++ last = out := by
    simpa [sendLoop, Option.bind_eq_some_iff] using h
  rw [flatten_sendCore hframes, sendCore_eq hlast, wire, List.flatMap_map]

/-- `SendLoop` has written some messages to a socket, and the end signal. -/
def Written (messages : List (List UInt8)) (stream : List UInt8) : Prop :=
  ∃ removed ends receiver, sendLoop removed ends receiver = some stream ∧
    (removed.filter (·.1.1 = receiver)).map (·.1.2) = messages

lemma Written.eq_wire {messages : List (List UInt8)} {stream : List UInt8}
    (h : Written messages stream) : stream = wire messages := by
  obtain ⟨removed, ends, receiver, hloop, rfl⟩ := h
  exact sendLoop_eq hloop

/-! ## The loop of the receiver -/

/-- `RecvContext`; the buffers of a sender are numbered as they are allocated. -/
structure RecvContext where
  dataSize : ℤ
  receivedBytes : ℤ
  buffer : ℕ
  deriving DecidableEq

/-- What the receiver has for one sender: the socket, with the bytes that have not been read, the context,
the buffers, and the queue. -/
structure Channel where
  unread : List UInt8
  opened : Bool
  ctx : RecvContext
  memory : List (List UInt8)
  mq : MessageQueue

/-- Where the loop is in its work on a socket: in `RecvDataSize`, in `RecvData`, at `Add`, or in its wait. -/
inductive Stage
  | sizing (got : List UInt8)
  | receiving
  | adding (msg : Message)
  | waiting (msg : Message)
  deriving DecidableEq

/-- Where a thread is in `RecvLoop`. -/
inductive Loop
  | getActiveSocket
  | busy (sender : ℕ) (stage : Stage)
  | posting
  | returned
  deriving DecidableEq

/-- An `int64_t` -/
def toInt64 (n : ℕ) : ℤ := if n < 2 ^ 63 then n else n - 2 ^ 64

namespace Channel

variable (ch : Channel) (sender : ℕ)

/-- The condition of `RecvData`, and what follows when it has returned with all bytes. -/
def recvData : Loop :=
  if ch.ctx.receivedBytes < ch.ctx.dataSize then .busy sender .receiving
  else .busy sender (.adding ⟨ch.ctx.buffer, ch.ctx.dataSize, -1, some 0⟩)

/-- `RemoveSocket`, and what follows; `last` says that the thread has no other socket. -/
def removeSocket (last : Bool) (next : Loop) : Channel × Loop :=
  ({ ch with opened := false }, if last then .returned else next)

/-- What follows on `RecvDataSize`. -/
def gotDataSize (last : Bool) (dataSize : ℤ) : Channel × Loop :=
  if 0 < dataSize then
    let ch := { ch with ctx := ⟨dataSize, 0, ch.memory.length⟩, memory := ch.memory ++ [[]] }
    (ch, ch.recvData sender)
  else
    let ch := { ch with ctx := { ch.ctx with dataSize := dataSize } }
    -- the loop goes on behind the end signal, unless this was the last socket
    if dataSize = 0 then ch.removeSocket last (ch.recvData sender)
    else (ch, ch.recvData sender)

/-- The loop gets the socket. -/
def activate (last : Bool) : Channel × Loop :=
  if ch.mq.emptyAndNoMoreAdd then ch.removeSocket last .getActiveSocket
  else if ch.ctx.dataSize = -1 then (ch, .busy sender (.sizing []))
  else (ch, ch.recvData sender)

/-- One call of `Receive`: `none` is `-1`, and `some k` reads `k` bytes at most. -/
def receive (last : Bool) : Stage → Option ℕ → Option (Channel × Loop)
  | .sizing got, none =>
    if got = [] then some (ch.gotDataSize sender last (-1)) else some (ch, .busy sender (.sizing got))
  | .sizing got, some k =>
    let tmp := min k (8 - got.length)
    let got := got ++ ch.unread.take tmp
    if ch.unread.take tmp = [] then none
    else
      let ch := { ch with unread := ch.unread.drop tmp }
      if got.length < 8 then some (ch, .busy sender (.sizing got))
      else some (ch.gotDataSize sender last (toInt64 (Codec.ofBytes got)))
  | .receiving, none => some (ch, .getActiveSocket)
  | .receiving, some k =>
    let tmp := min k (ch.ctx.dataSize - ch.ctx.receivedBytes).toNat
    let bytes := ch.unread.take tmp
    if bytes = [] then none
    else
      let ch := { ch with
        unread := ch.unread.drop tmp
        memory := ch.memory.modify ch.ctx.buffer (· ++ bytes)
        ctx := { ch.ctx with receivedBytes := ch.ctx.receivedBytes + bytes.length } }
      some (ch, ch.recvData sender)
  | _, _ => none

/-- What follows on `Add`, whatever it returned. -/
def added : Channel := { ch with ctx := { ch.ctx with dataSize := -1 } }

/-- The first section of `Add`, and the number of warnings that it logs. -/
def add (msg : Message) : Channel × Loop × ℕ :=
  match ch.mq.addRefusal msg true with
  | some status => (ch.added, .posting, if status = .queueClose then 0 else 1)
  | none =>
    if msg.size ≤ ch.mq.freeSize then ({ ch with mq := ch.mq.push msg }.added, .posting, 0)
    else (ch, .busy sender (.waiting msg), 0)

/-- The end of the wait of `Add`. -/
def resumeAdd (msg : Message) : Option (Channel × Loop) :=
  if msg.size ≤ ch.mq.freeSize then some ({ ch with mq := ch.mq.push msg }.added, .posting) else none

end Channel

/-! ## Where a channel is -/

/-- What the loop does on the socket of a sender. -/
def Loop.stage : Loop → ℕ → Option Stage
  | .busy i stage, j => if i = j then some stage else none
  | _, _ => none

/-- The message that is made of the buffer with some number. -/
def messageOf (messages : List (List UInt8)) (buffer : ℕ) : Message :=
  ⟨buffer, (messages.getD buffer []).length, -1, some 0⟩

/-- A channel, of which some messages have been put in the queue.  What the context and the stage have of
the next message, and what is still unread, are together the rest of what is sent. -/
inductive Channel.Reads (messages : List (List UInt8)) (published : ℕ) :
    Channel → Option Stage → Prop
  | between {ctx : RecvContext} {mq} (hsize : ctx.dataSize = -1) :
      Reads messages published
        ⟨wire (messages.drop published), true, ctx, messages.take published, mq⟩ none
  | sizing {unread got} {ctx : RecvContext} {mq} (hsize : ctx.dataSize = -1) (hgot : got.length < 8)
      (hstream : got ++ unread = wire (messages.drop published)) :
      Reads messages published ⟨unread, true, ctx, messages.take published, mq⟩ (some (.sizing got))
  | receiving {got rest stage} {ctx : RecvContext} {mq}
    (hmessage : messages[published]? = some (got ++ rest))
      (hrest : rest ≠ []) (hstage : stage = none ∨ stage = some .receiving)
      (hsize : ctx.dataSize = (got ++ rest).length) (hreceived : ctx.receivedBytes = got.length)
      (hbuffer : ctx.buffer = published) :
      Reads messages published ⟨rest ++ wire (messages.drop (published + 1)), true, ctx,
        messages.take published ++ [got], mq⟩ stage
  | full {ctx mq stage} (hlt : published < messages.length)
      (hstage : stage = .adding (messageOf messages published) ∨
        stage = .waiting (messageOf messages published)) :
      Reads messages published ⟨wire (messages.drop (published + 1)), true, ctx,
        messages.take (published + 1), mq⟩ (some stage)
  | notReady {ctx mq msg} (hsize : msg.size = -1) :
      Reads messages published
        ⟨wire (messages.drop published), true, ctx, messages.take published, mq⟩
        (some (.adding msg))
  | ending {ctx mq msg} (hend : published = messages.length) (hsize : msg.size = 0) :
      Reads messages published ⟨[], false, ctx, messages, mq⟩ (some (.adding msg))
  | ended {ctx mq} (hend : published = messages.length) :
      Reads messages published ⟨[], false, ctx, messages, mq⟩ none

/-- The loop at `Add` with a size of `0` or `-1`, or at its end. -/
def Loop.idles : Loop → ℕ
  | .busy _ (.adding msg) => if msg.size ≤ 0 then 1 else 0
  | .returned => 1
  | _ => 0

/-- The loop at `Post`. -/
def Loop.posts : Loop → ℕ
  | .posting => 1
  | _ => 0

lemma wire_drop {messages : List (List UInt8)} {k : ℕ} {m : List UInt8}
    (hm : messages[k]? = some m) :
    wire (messages.drop k) = Codec.bytes 8 m.length ++ (m ++ wire (messages.drop (k + 1))) := by
  obtain ⟨hk, rfl⟩ := List.getElem?_eq_some_iff.1 hm
  rw [wire, wire, List.drop_eq_getElem_cons hk, List.flatMap_cons, frame]
  simp only [List.append_assoc]

lemma wire_nil : wire [] = Codec.bytes 8 0 := rfl

lemma toInt64_ofBytes {n : ℕ} (hn : n < 2 ^ 63) :
    toInt64 (Codec.ofBytes (Codec.bytes 8 n)) = n := by
  rw [Codec.ofBytes_bytes (hn.trans (by norm_num)), toInt64, if_pos hn]

/-- What a step of the loop on a channel does, and what it keeps. -/
structure Channel.Steps (messages : List (List UInt8)) (published : ℕ) (ch : Channel) (l : Loop)
    (sender : ℕ) (last : Bool) (notReady warnings pushed : ℕ) (ch' : Channel)
    (l' : Loop) : Prop where
  reads : Channel.Reads messages (published + pushed) ch' (l'.stage sender)
  only : ∀ j ≠ sender, l'.stage j = none
  bound : pushed = 0 ∨ published + pushed ≤ messages.length
  received : 0 ≤ ch'.ctx.receivedBytes
  queue : ch'.mq.queue = ch.mq.queue ++ (List.range' published pushed).map (messageOf messages)
  sizes : ch'.mq.queueSize = ch.mq.queueSize
  closed : ch'.mq.noMoreAdd = ch.mq.noMoreAdd
  posts : l'.posts = pushed + warnings
  idles : warnings + l'.idles + ch'.opened.toNat = notReady + l.idles + ch.opened.toNat
  returned : l' = .returned ↔ ch'.opened = false ∧ last = true

section Steps

variable {messages : List (List UInt8)} {published sender : ℕ} {ch : Channel} {last : Bool}

@[simp] lemma Loop.stage_busy (i : ℕ) (stage : Stage) : (Loop.busy i stage).stage i = some stage :=
  if_pos rfl

lemma Loop.stage_busy_of_ne {i j : ℕ} (h : j ≠ i) (stage : Stage) :
    (Loop.busy i stage).stage j = none :=
  if_neg h.symm

lemma Channel.recvData_of_lt (h : ch.ctx.receivedBytes < ch.ctx.dataSize) :
    ch.recvData sender = .busy sender .receiving := if_pos h

lemma Channel.recvData_of_le (h : ch.ctx.dataSize ≤ ch.ctx.receivedBytes) :
    ch.recvData sender = .busy sender (.adding ⟨ch.ctx.buffer, ch.ctx.dataSize, -1, some 0⟩) :=
  if_neg h.not_gt

variable {ch' : Channel} {stage : Stage} {l : Loop}

/-- A step that stays with the socket and leaves the queue alone. -/
lemma Channel.Steps.busy {notReady : ℕ} (hreads : ch'.Reads messages published (some stage))
    (hreceived : 0 ≤ ch'.ctx.receivedBytes) (hmq : ch'.mq = ch.mq)
    (hidles : (Loop.busy sender stage).idles + ch'.opened.toNat = notReady + l.idles + ch.opened.toNat)
    (hlast : ch'.opened = false → last = false) :
    Channel.Steps messages published ch l sender last notReady 0 0 ch' (.busy sender stage) where
  reads := by rwa [Loop.stage_busy]
  only j hj := Loop.stage_busy_of_ne hj stage
  bound := .inl rfl
  received := hreceived
  queue := by simp [hmq]
  sizes := by rw [hmq]
  closed := by rw [hmq]
  posts := rfl
  idles := by rw [Nat.zero_add, hidles]
  returned := by
    refine iff_of_false Loop.noConfusion fun h => ?_
    rw [hlast h.1] at h
    exact Bool.false_ne_true h.2

lemma Channel.Reads.activate (h : ch.Reads messages published none) (hopen : ch.opened = true)
    (hreceived : 0 ≤ ch.ctx.receivedBytes) (hmq : ch.mq.noMoreAdd = false) :
    Channel.Steps messages published ch .getActiveSocket sender last 0 0 0
      (ch.activate sender last).1 (ch.activate sender last).2 := by
  have hempty : ch.mq.emptyAndNoMoreAdd = false := by simp [MessageQueue.emptyAndNoMoreAdd, hmq]
  rw [Channel.activate, if_neg (by simp [hempty])]
  cases h with
  | between hsize =>
      rw [if_pos hsize]
      exact .busy (.sizing hsize (by simp) (List.nil_append _)) hreceived rfl rfl (by simp)
  | @receiving got rest _ ctx mq hmessage hrest hstage hsize hrec hbuffer =>
      have hpos := List.length_pos_iff.2 hrest
      have hlt : ctx.receivedBytes < ctx.dataSize := by
        rw [hsize, hrec, List.length_append]
        omega
      have hne : ctx.dataSize ≠ -1 := by omega
      rw [if_neg hne, Channel.recvData_of_lt hlt]
      exact .busy (.receiving hmessage hrest (.inr rfl) hsize hrec hbuffer) hreceived rfl rfl
        (by simp)
  | ended hend => cases hopen

/-- The size of the next message, or the end signal, has been read. -/
lemma Channel.gotDataSize_steps (ch : Channel) (sender : ℕ) (last : Bool) {unread : List UInt8}
    {ctx : RecvContext} {mq : MessageQueue} {got : List UInt8} (hle : published ≤ messages.length)
    (hmessages : ∀ m ∈ messages, 0 < m.length ∧ m.length < 2 ^ 63)
    (hreceived : 0 ≤ ctx.receivedBytes) (hgot : got.length = 8)
    (hstream : got ++ unread = wire (messages.drop published)) (hmq : mq = ch.mq)
    (hopen : ch.opened = true) (hl : l.idles = 0) :
    let r := Channel.gotDataSize ⟨unread, true, ctx, messages.take published, mq⟩ sender last
      (toInt64 (Codec.ofBytes got))
    Channel.Steps messages published ch l sender last 0 0 0 r.1 r.2 := by
  rcases hle.lt_or_eq with hlt | rfl
  · have hm : messages[published]? = some messages[published] := List.getElem?_eq_getElem hlt
    obtain ⟨hpos, hbound⟩ := hmessages _ (List.getElem_mem hlt)
    rw [wire_drop hm] at hstream
    obtain ⟨rfl, rfl⟩ := List.append_inj hstream (by rw [hgot, Codec.length_bytes])
    have hpos' : (0 : ℤ) < messages[published].length := by exact_mod_cast hpos
    rw [toInt64_ofBytes hbound, Channel.gotDataSize, if_pos hpos']
    simp only
    rw [Channel.recvData_of_lt hpos']
    have hbuffer : (messages.take published).length = published := List.length_take_of_le hle
    exact .busy (.receiving (by rw [List.nil_append, hm]) (List.length_pos_iff.1 hpos) (.inr rfl) rfl rfl hbuffer)
      le_rfl hmq (by rw [hl, hopen]; rfl) (by simp)
  · rw [List.drop_length, wire_nil] at hstream
    have hnil : unread = [] := by
      have hlen := congrArg List.length hstream
      rw [List.length_append, hgot, Codec.length_bytes] at hlen
      exact List.length_eq_zero_iff.1 (by omega)
    subst hnil
    rw [List.append_nil] at hstream
    rw [hstream, toInt64_ofBytes (by norm_num), Channel.gotDataSize, if_neg (by simp)]
    simp only [Nat.cast_zero, if_true, Channel.removeSocket, List.take_length]
    cases last with
    | true =>
        rw [if_pos rfl]
        exact ⟨.ended rfl, fun _ _ => rfl, .inl rfl, hreceived, by simp [hmq], by rw [hmq],
          by rw [hmq], rfl,
          by rw [hl, hopen]; rfl, by simp⟩
    | false =>
        rw [if_neg (by simp), Channel.recvData_of_le hreceived]
        exact .busy (.ending rfl rfl) hreceived hmq (by rw [hl, hopen]; rfl) (by simp)

lemma modify_concat {α : Type} (l : List α) (a : α) (f : α → α) :
    (l ++ [a]).modify l.length f = l ++ [f a] := by
  induction l with
  | nil => rfl
  | cons b l ih => rw [List.cons_append, List.length_cons, List.modify_succ_cons, ih, List.cons_append]

lemma messageOf_eq {m : List UInt8} (hm : messages[published]? = some m) :
    messageOf messages published = ⟨published, m.length, -1, some 0⟩ := by
  rw [messageOf, List.getD_eq_getElem?_getD, hm, Option.getD_some]

variable {msg : Message}

lemma Loop.idles_adding (i : ℕ) (h : 0 < msg.size) : (Loop.busy i (.adding msg)).idles = 0 :=
  if_neg h.not_ge

/-- One call of `Receive`. -/
lemma Channel.Reads.receive {k : Option ℕ} {l' : Loop}
    (h : ch.Reads messages published (some stage)) (hle : published ≤ messages.length)
    (hmessages : ∀ m ∈ messages, 0 < m.length ∧ m.length < 2 ^ 63)
    (hreceived : 0 ≤ ch.ctx.receivedBytes) (hstep : ch.receive sender last stage k = some (ch', l')) :
    Channel.Steps messages published ch (.busy sender stage) sender last
      (if stage = .sizing [] ∧ k = none then 1 else 0) 0 0 ch' l' := by
  cases h with
  | @sizing unread got ctx mq hsize hgot hstream =>
      cases k with
      | none =>
          rw [Channel.receive] at hstep
          by_cases hnil : got = []
          · subst hnil
            rw [if_pos rfl, Option.some.injEq, Channel.gotDataSize, if_neg (by simp),
              if_neg (by simp),
              Channel.recvData_of_le ((by norm_num : (-1 : ℤ) ≤ 0).trans hreceived)] at hstep
            cases hstep
            rw [List.nil_append] at hstream
            subst hstream
            rw [if_pos ⟨rfl, rfl⟩]
            exact .busy (.notReady rfl) hreceived rfl rfl (by simp)
          · rw [if_neg hnil] at hstep
            cases hstep
            rw [if_neg (by simp [hnil])]
            exact .busy (.sizing hsize hgot hstream) hreceived rfl rfl (by simp)
      | some k =>
          rw [if_neg (by simp)]
          rw [Channel.receive] at hstep
          simp only at hstep
          have hsplit : got ++ unread.take (min k (8 - got.length)) ++ unread.drop
            (min k (8 - got.length)) =
              wire (messages.drop published) := by
            rw [List.append_assoc, List.take_append_drop, hstream]
          have hlen : (got ++ unread.take (min k (8 - got.length))).length ≤ 8 := by
            rw [List.length_append, List.length_take]
            omega
          generalize got ++ unread.take (min k (8 - got.length)) = got' at hstep hsplit hlen
          generalize unread.drop (min k (8 - got.length)) = unread' at hstep hsplit
          by_cases hread : unread.take (min k (8 - got.length)) = []
          · rw [if_pos hread] at hstep
            cases hstep
          · rw [if_neg hread] at hstep
            by_cases hshort : got'.length < 8
            · rw [if_pos hshort] at hstep
              cases hstep
              exact .busy (.sizing hsize hshort hsplit) hreceived rfl rfl (by simp)
            · rw [if_neg hshort, Option.some.injEq] at hstep
              have hsteps := Channel.gotDataSize_steps
                ⟨unread, true, ctx, messages.take published, mq⟩ sender last
                (l := .busy sender (.sizing got)) hle hmessages hreceived
                (hlen.antisymm (not_lt.1 hshort)) hsplit rfl rfl rfl
              rwa [hstep] at hsteps
  | @receiving got rest _ ctx mq hmessage hrest hstage hsize hrec hbuffer =>
      obtain rfl : stage = .receiving :=
        Option.some.inj (hstage.resolve_left (Option.some_ne_none _))
      rw [if_neg (by simp)]
      cases k with
      | none =>
          cases hstep
          refine ⟨.receiving hmessage hrest (.inl rfl) hsize hrec hbuffer, fun _ _ => rfl, .inl rfl,
            hreceived,
            by simp, rfl, rfl, rfl, rfl, by simp⟩
      | some k =>
          have hleft : (ctx.dataSize - ctx.receivedBytes).toNat = rest.length := by
            rw [hsize, hrec, List.length_append]
            omega
          rw [Channel.receive, hleft] at hstep
          simp only at hstep
          have hmin : min k rest.length ≤ rest.length := min_le_right _ _
          generalize min k rest.length = tmp at hstep hmin
          rw [List.take_append_of_le_length hmin, List.drop_append_of_le_length hmin,
            hbuffer] at hstep
          have hbytes : (rest.take tmp).length = tmp := List.length_take_of_le hmin
          have hmodify : (messages.take published ++ [got]).modify published (· ++ rest.take tmp) =
              messages.take published ++ [got ++ rest.take tmp] := by
            have hconcat := modify_concat (messages.take published) got (· ++ rest.take tmp)
            rwa [List.length_take_of_le hle] at hconcat
          have hsplit : got ++ rest.take tmp ++ rest.drop tmp = got ++ rest := by
            rw [List.append_assoc, List.take_append_drop]
          have hnow : ctx.receivedBytes + (rest.take tmp).length = (got ++ rest.take tmp).length := by
            rw [hrec, List.length_append]
            push_cast
            rfl
          rw [hmodify, hnow] at hstep
          by_cases hread : rest.take tmp = []
          · rw [if_pos hread] at hstep
            cases hstep
          rw [if_neg hread, Option.some.injEq] at hstep
          rw [← hsplit] at hmessage hsize
          by_cases hrest' : rest.drop tmp = []
          · rw [hrest', List.append_nil] at hmessage hsize
            rw [Channel.recvData_of_le (by simp [hsize])] at hstep
            cases hstep
            have hmsg : Message.mk published ctx.dataSize (-1) (some 0) = messageOf messages published := by
              rw [messageOf_eq hmessage, hsize]
            obtain ⟨hlt, hget⟩ := List.getElem?_eq_some_iff.1 hmessage
            have hpos := (hmessages _ (List.getElem_mem hlt)).1
            rw [hget] at hpos
            rw [hrest', List.nil_append, ← hget, List.take_append_getElem hlt]
            simp only [hmsg]
            refine .busy (.full hlt (.inl rfl)) (by simp) rfl ?_ (by simp)
            rw [Loop.idles_adding _ (by rw [messageOf_eq hmessage]; exact Int.natCast_pos.2 hpos)]
            rfl
          · have hlt : ((got ++ rest.take tmp).length : ℤ) < ctx.dataSize := by
              have hpos := List.length_pos_iff.2 hrest'
              have hall : (got ++ rest.take tmp ++ rest.drop tmp).length =
                (got ++ rest.take tmp).length +
                (rest.drop tmp).length := List.length_append
              rw [hsize, hall]
              omega
            rw [Channel.recvData_of_lt hlt] at hstep
            cases hstep
            exact .busy (.receiving hmessage hrest' (.inr rfl) hsize rfl rfl)
              (Int.natCast_nonneg _) rfl rfl (by simp)
  | full hlt hstage => rcases hstage with rfl | rfl <;> cases hstep
  | notReady hsize => cases hstep
  | ending hend hsize => cases hstep

/-- The end of `Add` when the message is accepted. -/
lemma Channel.Reads.push (h : ch.Reads messages published (some stage))
    (hmsg : msg = messageOf messages published) (hlt : published < messages.length)
    (hstage : stage = .adding msg ∨ stage = .waiting msg) (hpos : 0 < msg.size)
    (hreceived : 0 ≤ ch.ctx.receivedBytes) (hl : l.idles = 0) :
    Channel.Steps messages published ch l sender last 0 0 1
      { ch with mq := ch.mq.push msg }.added .posting := by
  cases h with
  | @full ctx mq _ _ _ =>
      refine ⟨?_, fun _ _ => rfl, .inr hlt, hreceived, ?_, rfl, rfl, rfl, by rw [hl]; rfl,
        by simp [Channel.added]⟩
      · exact .between rfl
      · simp [Channel.added, MessageQueue.push, hmsg]
  | sizing hsize hgot hstream => rcases hstage with hs | hs <;> cases hs
  | receiving hmessage hrest hstage' =>
      obtain rfl : stage = .receiving :=
        Option.some.inj (hstage'.resolve_left (Option.some_ne_none _))
      rcases hstage with hs | hs <;> cases hs
  | notReady hsize =>
      rcases hstage with hs | hs <;> cases hs
      omega
  | ending hend hsize =>
      rcases hstage with hs | hs <;> cases hs
      omega

/-- The first section of `Add`. -/
lemma Channel.Reads.add (h : ch.Reads messages published (some (.adding msg)))
    (hmessages : ∀ m ∈ messages, 0 < m.length ∧ (m.length : ℤ) ≤ ch.mq.queueSize)
    (hreceived : 0 ≤ ch.ctx.receivedBytes) (hqueue : 0 ≤ ch.mq.queueSize)
    (hmq : ch.mq.noMoreAdd = false) (hlast : ch.opened = false → last = false) :
    ∃ pushed, Channel.Steps messages published ch (.busy sender (.adding msg)) sender last 0
      (ch.add sender msg).2.2 pushed (ch.add sender msg).1 (ch.add sender msg).2.1 := by
  by_cases hpos : 0 < msg.size
  · -- only a whole message has a size
    obtain ⟨rfl, hlt⟩ : msg = messageOf messages published ∧ published < messages.length := by
      cases h with
      | full hlt hstage =>
          exact ⟨Stage.adding.inj (hstage.resolve_right Stage.noConfusion), hlt⟩
      | receiving hmessage hrest hstage => rcases hstage with hs | hs <;> cases hs
      | notReady hsize => omega
      | ending hend hsize => omega
    have hm := List.getElem?_eq_getElem hlt
    have hfits := (hmessages _ (List.getElem_mem hlt)).2
    have hsize : (messageOf messages published).size = messages[published].length := by
      rw [messageOf_eq hm]
    have hrefusal : ch.mq.addRefusal (messageOf messages published) true = none := by
      rw [MessageQueue.addRefusal, if_neg (by omega), if_neg (by omega), if_neg (by simp [hmq]),
        if_neg (by simp)]
    rw [Channel.add, hrefusal]
    by_cases hfree : (messageOf messages published).size ≤ ch.mq.freeSize
    · refine ⟨1, ?_⟩
      simp only [if_pos hfree]
      exact h.push rfl hlt (.inl rfl) hpos hreceived (Loop.idles_adding _ hpos)
    · refine ⟨0, ?_⟩
      simp only [if_neg hfree]
      have hwaits : ch.Reads messages published (some (.waiting (messageOf messages published))) := by
        cases h with
        | full hlt hstage => exact .full hlt (.inr rfl)
        | receiving hmessage hrest hstage => rcases hstage with hs | hs <;> cases hs
        | notReady hsize => omega
        | ending hend hsize => omega
      exact .busy hwaits hreceived rfl (by rw [Loop.idles_adding _ hpos]; rfl) hlast
  · have hle : msg.size ≤ 0 := not_lt.1 hpos
    have hrefusal : ch.mq.addRefusal msg true = some .msgLeZero := by
      rw [MessageQueue.addRefusal, if_neg (by omega), if_pos hle]
    have hidles : (Loop.busy sender (.adding msg)).idles = 1 := if_pos hle
    rw [Channel.add, hrefusal]
    refine ⟨0, ?_, fun _ _ => rfl, .inl rfl, hreceived, by simp [Channel.added], rfl, rfl, rfl, ?_,
      ?_⟩
    · cases h with
      | notReady hsize => exact .between rfl
      | ending hend hsize => exact .ended hend
      | receiving hmessage hrest hstage => rcases hstage with hs | hs <;> cases hs
      | full hlt hstage =>
          have hm := List.getElem?_eq_getElem hlt
          obtain rfl := Stage.adding.inj (hstage.resolve_right Stage.noConfusion)
          rw [messageOf_eq hm] at hle
          exact absurd (hmessages _ (List.getElem_mem hlt)).1 (by simpa using hle)
    · rw [hidles]
      simp [Channel.added, Loop.idles, add_comm]
    · refine iff_of_false Loop.noConfusion fun hclosed => ?_
      have hopen := hlast hclosed.1
      rw [hclosed.2] at hopen
      cases hopen

/-- The end of the wait of `Add`. -/
lemma Channel.Reads.resumeAdd {l' : Loop} (h : ch.Reads messages published (some (.waiting msg)))
    (hmessages : ∀ m ∈ messages, 0 < m.length) (hreceived : 0 ≤ ch.ctx.receivedBytes)
    (hstep : ch.resumeAdd msg = some (ch', l')) :
    Channel.Steps messages published ch (.busy sender (.waiting msg)) sender last 0 0 1 ch' l' := by
  rw [Channel.resumeAdd] at hstep
  split_ifs at hstep with hfree
  cases hstep
  obtain ⟨rfl, hlt⟩ : msg = messageOf messages published ∧ published < messages.length := by
    cases h with
    | full hlt hstage => exact ⟨Stage.waiting.inj (hstage.resolve_left Stage.noConfusion), hlt⟩
    | receiving hmessage hrest hstage => rcases hstage with hs | hs <;> cases hs
  refine h.push rfl hlt (.inr rfl) ?_ hreceived rfl
  rw [messageOf_eq (List.getElem?_eq_getElem hlt)]
  exact Int.natCast_pos.2 (hmessages _ (List.getElem_mem hlt))

/-- The buffers of the messages in the queue hold the messages. -/
lemma Channel.Reads.memory {stage : Option Stage} (h : ch.Reads messages published stage) {k : ℕ}
    (hk : k < published) : ch.memory.getD k [] = messages.getD k [] := by
  simp only [List.getD_eq_getElem?_getD]
  cases h with
  | receiving hmessage =>
      obtain ⟨hlt, -⟩ := List.getElem?_eq_some_iff.1 hmessage
      rw [List.getElem?_append_left (by rw [List.length_take_of_le hlt.le]; exact hk),
        List.getElem?_take_of_lt hk]
  | full hlt => rw [List.getElem?_take_of_lt (by omega)]
  | between | sizing | notReady => rw [List.getElem?_take_of_lt hk]
  | ending | ended => rfl

lemma Channel.Reads.of_mq {stage : Option Stage} (h : ch.Reads messages published stage)
    (mq : MessageQueue) :
    Channel.Reads messages published { ch with mq := mq } stage := by
  cases h with
  | between hsize => exact .between hsize
  | sizing hsize hgot hstream => exact .sizing hsize hgot hstream
  | receiving hmessage hrest hstage hsize hrec hbuffer =>
      exact .receiving hmessage hrest hstage hsize hrec hbuffer
  | full hlt hstage => exact .full hlt hstage
  | notReady hsize => exact .notReady hsize
  | ending hend hsize => exact .ending hend hsize
  | ended hend => exact .ended hend

end Steps

end DglAscend.Network
