import DglAscend.Distributed.KVPull

/-!
# Clients and servers of the store

The clients push and pull at the same time.  The requests of a client to one server, and the responses back,
come in their order; everything else happens in any order.  `push` returns when its requests are sent and the
own rows are written, and a pull waits for its responses.  A server handles one request in one step.

No request fails and no client is stuck, each row that a pull returns is the first one of its id or was pushed
for it, and, with one server on each machine, a client that alone pushes to an id pulls what it pushed last
(`KVSystem.run_pullsOwn`).  With more servers a pull can be handled before an earlier push.
-/

namespace DglAscend.Distributed

variable {κ : Type} [DecidableEq κ] {α : Type}

/-- `PullRequest` and `PushRequest`. -/
inductive Request (α : Type)
  | pull (name : String) (ids : List ℤ)
  | push (name : String) (ws : List (ℤ × α))

/-- A `push` of a client, or a `pull` with the rows it returned. -/
inductive Event (α : Type)
  | push (name : String) (ids : List ℤ) (data : List α)
  | pull (name : String) (ids : List ℤ) (rows : List α)

/-- `fast_pull` with its variables.  `asked` are the servers of the messages that were sent, and `received` are
those that `recv_cnt` counts. -/
structure PullCall (α : Type) where
  name : String
  ids : List ℤ
  found : FastPull
  unsent : List (ℕ × List ℤ)
  asked : List ℕ
  copied : Bool
  received : List ℕ
  result : List (Option α)

/-- What a client does. -/
inductive Phase (α : Type)
  | idle
  | pushing (name : String) (unsent own : List (ℕ × List (ℤ × α)))
  | pulling (call : PullCall α)

/-- The servers and the clients; `requests c s` are on the way from client `c` to server `s`, and `responses s c`
back.  Client `c` is on machine `home c`. -/
structure KVSystem (κ α : Type) where
  kv : Cluster κ α
  home : ℕ → ℕ
  phase : ℕ → Phase α
  requests : ℕ → ℕ → List (Request α)
  responses : ℕ → ℕ → List (PullResponse α)
  history : ℕ → List (Event α)

/-- What happens next: client `c` calls `push` or `pull`, sends its next message to server `s`, writes or copies
its own rows, takes a message of server `s`, or returns; or server `s` handles the next request of client `c`. -/
inductive Action (α : Type)
  | push (c : ℕ) (name : String) (ids : List ℤ) (data : List α) (argsort : Argsort)
  | pull (c : ℕ) (name : String) (ids : List ℤ)
  | send (c s : ℕ)
  | own (c : ℕ)
  | serve (c s : ℕ)
  | receive (c s : ℕ)
  | finish (c : ℕ)

/-- The client of an action. -/
def Action.client : Action α → ℕ
  | .push c _ _ _ _ => c
  | .pull c _ _ => c
  | .send c _ => c
  | .own c => c
  | .serve c _ => c
  | .receive c _ => c
  | .finish c => c

namespace KVSystem

variable (sys : KVSystem κ α)

/-- A client has gone on. -/
@[simp] def setPhase (c : ℕ) (phase : Phase α) : KVSystem κ α :=
  { sys with phase := Function.update sys.phase c phase }

/-- A client has called `push`, or a pull of it has returned. -/
@[simp] def record (c : ℕ) (e : Event α) : KVSystem κ α :=
  { sys with history := Function.update sys.history c (sys.history c ++ [e]) }

/-- The requests from a client to a server. -/
@[simp] def setRequests (c s : ℕ) (l : List (Request α)) : KVSystem κ α :=
  { sys with requests := Function.update sys.requests c (Function.update (sys.requests c) s l) }

/-- The responses from a server to a client. -/
@[simp] def setResponses (s c : ℕ) (l : List (PullResponse α)) : KVSystem κ α :=
  { sys with responses := Function.update sys.responses s (Function.update (sys.responses s) c l) }

/-- A call that does not fail. -/
def attempt {β γ : Type} (x : Except Failure β) (f : β → γ) : Option γ :=
  match x with
  | .ok y => some (f y)
  | .error _ => none

/-- `KVClient.pull` is called, for a tensor with the default handler. -/
def callPull (c : ℕ) (name : String) (ids : List ℤ) : Option (KVSystem κ α) :=
  match sys.kv.pullHandlers name with
  | some .default =>
    if name = "" then none
    else attempt (sys.kv.startPull (sys.home c) name ids) fun found => sys.setPhase c (.pulling {
      name := name
      ids := ids
      found := found
      unsent := found.messages sys.kv.machineCount
      asked := []
      copied := false
      received := []
      result := List.replicate ids.length none })
  | _ => none

/-- The next message of a client goes to server `s`. -/
def send (c s : ℕ) : Option (KVSystem κ α) :=
  match sys.phase c with
  | .pushing name ((m, ws) :: unsent) own =>
    if s / sys.kv.groupCount = m then
      some ((sys.setRequests c s (sys.requests c s ++ [.push name ws])).setPhase c (.pushing name unsent own))
    else none
  | .pulling call =>
    match call.unsent with
    | [] => none
    | (m, ids) :: unsent =>
      if s / sys.kv.groupCount = m then
        some ((sys.setRequests c s (sys.requests c s ++ [.pull call.name ids])).setPhase c
          (.pulling { call with unsent := unsent, asked := call.asked ++ [s] }))
      else none
  | _ => none

/-- A client writes or copies the rows of its machine. -/
def own (c : ℕ) : Option (KVSystem κ α) :=
  match sys.phase c with
  | .pushing name [] ((_, ws) :: own) =>
    attempt (sys.kv.localPush (sys.home c) name ws) fun kv =>
      { sys with kv := kv }.setPhase c (.pushing name [] own)
  | .pulling call =>
    if call.unsent = [] ∧ call.copied = false then
      attempt (sys.kv.copyLocal (sys.home c) call.name call.found call.result) fun result =>
        sys.setPhase c (.pulling { call with copied := true, result := result })
    else none
  | _ => none

/-- Server `s` handles the next request of a client. -/
def serve (c s : ℕ) : Option (KVSystem κ α) :=
  match sys.requests c s with
  | [] => none
  | .pull name ids :: rest =>
    attempt (sys.kv.processPull s name ids) fun response =>
      (sys.setRequests c s rest).setResponses s c (sys.responses s c ++ [response])
  | .push name ws :: rest =>
    attempt (sys.kv.processPush s name (ws.map Prod.fst) (ws.map Prod.snd)) fun kv =>
      { sys with kv := kv }.setRequests c s rest

/-- A client takes a message from server `s`. -/
def receive (c s : ℕ) : Option (KVSystem κ α) :=
  match sys.phase c, sys.responses s c with
  | .pulling call, response :: rest =>
    if call.copied = true ∧
      call.received.length < (call.found.messages sys.kv.machineCount).length then
      attempt (call.found.receive sys.kv.groupCount call.result response) fun result =>
        (sys.setResponses s c rest).setPhase c
          (.pulling { call with received := call.received ++ [response.serverId], result := result })
    else none
  | _, _ => none

/-- A call returns. -/
def finish (c : ℕ) : Option (KVSystem κ α) :=
  match sys.phase c with
  | .pushing _ [] [] => some (sys.setPhase c .idle)
  | .pulling call =>
    if call.copied = true ∧
      call.received.length = (call.found.messages sys.kv.machineCount).length then
      attempt (call.result.mapM (orRaise .memory)) fun rows =>
        (sys.record c (.pull call.name call.ids rows)).setPhase c .idle
    else none
  | _ => none

/-- One step, when it can happen. -/
def step : Action α → Option (KVSystem κ α)
  | .push c name ids data argsort =>
    match sys.phase c with
    | .idle => attempt (sys.kv.startPush (sys.home c) argsort name ids data) fun x =>
        (sys.record c (.push name ids data)).setPhase c (.pushing name x.1 x.2)
    | _ => none
  | .pull c name ids =>
    match sys.phase c with
    | .idle => sys.callPull c name ids
    | _ => none
  | .send c s => sys.send c s
  | .own c => sys.own c
  | .serve c s => sys.serve c s
  | .receive c s => sys.receive c s
  | .finish c => sys.finish c

/-- A run. -/
def run (sys : KVSystem κ α) : List (Action α) → Option (KVSystem κ α)
  | [] => some sys
  | a :: as => (sys.step a).bind fun sys' => run sys' as

end KVSystem

/-! ## The invariant -/

/-- The tensors of the store: their policies and sizes. -/
structure Tensors (κ : Type) where
  names : Set String
  policy : String → PartitionPolicy κ
  size : String → ℤ

/-- The machines have the rows of `table`, and the default handlers. -/
structure Served (T : Tensors κ) (kv : Cluster κ α) (table : String → ℤ → α) : Prop where
  group : 0 < kv.groupCount
  name_ne : ∀ name ∈ T.names, name ≠ ""
  hosts : ∀ name ∈ T.names, Hosts kv name (T.policy name) (T.size name) (table name)
  pull : ∀ name ∈ T.names, kv.pullHandlers name = some .default
  push : ∀ name ∈ T.names, ∃ order, kv.pushHandlers name = some (.default order)

/-- Ids of machine `m`. -/
structure Fits (T : Tensors κ) (machineCount m : ℕ) (name : String) (ids : List ℤ) : Prop where
  name_mem : name ∈ T.names
  machine_lt : m < machineCount
  valid : Valid (T.size name) ids
  owner : ∀ id ∈ ids, (T.policy name).owner id = m

namespace Request

/-- The ids of a request. -/
def ids : Request α → List ℤ
  | pull _ ids => ids
  | push _ ws => ws.map Prod.fst

/-- The tensor of a request. -/
def name : Request α → String
  | pull name _ => name
  | push name _ => name

/-- A `PullRequest`. -/
def isPull : Request α → Bool
  | pull _ _ => true
  | push _ _ => false

end Request

/-- A pull in progress: each server that was asked has the request, or its response is on the way, or it has
been received.  `Right` is what is known of the rows of an id. -/
structure PullCall.Ok (T : Tensors κ) (sys : KVSystem κ α) (Right : String → ℤ → α → Prop) (c : ℕ)
    (call : PullCall α) : Prop where
  name_mem : call.name ∈ T.names
  valid : Valid (T.size call.name) call.ids
  found : call.found = FastPull.found (T.policy call.name) (sys.home c) call.ids
  messages : ∃ sent, sent.map Prod.fst = call.asked.map (· / sys.kv.groupCount) ∧
    sent ++ call.unsent = call.found.messages sys.kv.machineCount
  count : ∀ s, (sys.requests c s).countP Request.isPull + (sys.responses s c).length +
    call.received.count s = call.asked.count s
  requests : ∀ s, ∀ r ∈ sys.requests c s, r.isPull = true →
    r.name = call.name ∧ r.ids = (call.found.remote (s / sys.kv.groupCount)).map Prod.fst
  responses : ∀ s, ∀ r ∈ sys.responses s c, r.serverId = s ∧ List.Forall₂ (Right call.name)
    ((call.found.remote (s / sys.kv.groupCount)).map Prod.fst) r.dataTensor
  unsent : call.copied = true → call.unsent = []
  received : call.copied = false → call.received = []
  buffer : Buffer (T.policy call.name) call.ids (Right call.name)
    {m | call.copied = true ∧ m = sys.home c ∨ ∃ s ∈ call.received, s / sys.kv.groupCount = m} call.result

/-- What a client is waiting for. -/
def Phase.Ok (T : Tensors κ) (sys : KVSystem κ α) (Right : String → ℤ → α → Prop) (c : ℕ) :
    Phase α → Prop
  | idle => ∀ s, (∀ r ∈ sys.requests c s, r.isPull = false) ∧ sys.responses s c = []
  | pushing name unsent own =>
    (∀ s, (∀ r ∈ sys.requests c s, r.isPull = false) ∧ sys.responses s c = []) ∧
      (∀ x ∈ unsent, x.1 ≠ sys.home c ∧ Fits T sys.kv.machineCount x.1 name (x.2.map Prod.fst)) ∧
      ∀ x ∈ own, x.1 = sys.home c ∧ Fits T sys.kv.machineCount x.1 name (x.2.map Prod.fst)
  | pulling call => call.Ok T sys Right c

/-- What holds in every run. -/
structure KVSystem.Inv (T : Tensors κ) (Right : ℕ → String → ℤ → α → Prop) (sys : KVSystem κ α)
    (table : String → ℤ → α) : Prop where
  served : Served T sys.kv table
  home_lt : ∀ c, sys.home c < sys.kv.machineCount
  fits : ∀ c s, ∀ r ∈ sys.requests c s, s / sys.kv.groupCount ≠ sys.home c ∧
    Fits T sys.kv.machineCount (s / sys.kv.groupCount) r.name r.ids
  last : ∀ c s pre r post, sys.requests c s = pre ++ r :: post → r.isPull = true → post = []
  phase : ∀ c, (sys.phase c).Ok T sys (Right c) c

/-- `table` after rows of one tensor were written. -/
def WroteTo (name : String) (ws : List (ℤ × α)) (table table' : String → ℤ → α) : Prop :=
  (∀ name' ≠ name, table' name' = table name') ∧ Written (table name) ws (table' name)

/-! ## What a step does -/

/-- What a step can do to the system and to the rows. -/
inductive Moves (T : Tensors κ) (sys : KVSystem κ α) (table : String → ℤ → α) :
    KVSystem κ α → (String → ℤ → α) → Prop
  | push (c : ℕ) (name : String) (ids : List ℤ) (data : List α) (parts : List (ℕ × List (ℤ × α)))
      (hphase : sys.phase c = .idle) (hlen : ids.length = data.length)
      (hfits : ∀ x ∈ parts, Fits T sys.kv.machineCount x.1 name (x.2.map Prod.fst))
      (hnodup : (parts.map Prod.fst).Nodup)
      (howner : ∀ id ∈ ids, (T.policy name).owner id ∈ parts.map Prod.fst)
      (hpart : ∀ x ∈ parts, x.2.Perm ((ids.zip data).filter fun w => (T.policy name).owner w.1 = x.1)) :
      Moves T sys table ((sys.record c (.push name ids data)).setPhase c (.pushing name
        (parts.filter fun x => x.1 ≠ sys.home c) (parts.filter fun x => x.1 = sys.home c))) table
  | pull (c : ℕ) (name : String) (ids : List ℤ) (hphase : sys.phase c = .idle)
    (hname : name ∈ T.names)
      (hids : Valid (T.size name) ids) :
      Moves T sys table (sys.setPhase c (.pulling {
        name := name
        ids := ids
        found := FastPull.found (T.policy name) (sys.home c) ids
        unsent := (FastPull.found (T.policy name) (sys.home c) ids).messages sys.kv.machineCount
        asked := []
        copied := false
        received := []
        result := List.replicate ids.length none })) table
  | sendPush (c s : ℕ) (name : String) (m : ℕ) (ws : List (ℤ × α)) (unsent own : List (ℕ × List (ℤ × α)))
      (hphase : sys.phase c = .pushing name ((m, ws) :: unsent) own)
        (hs : s / sys.kv.groupCount = m) :
      Moves T sys table ((sys.setRequests c s (sys.requests c s ++ [.push name ws])).setPhase c
        (.pushing name unsent own)) table
  | sendPull (c s : ℕ) (call : PullCall α) (m : ℕ) (ids : List ℤ) (unsent : List (ℕ × List ℤ))
      (hphase : sys.phase c = .pulling call) (hunsent : call.unsent = (m, ids) :: unsent)
      (hs : s / sys.kv.groupCount = m) :
      Moves T sys table ((sys.setRequests c s (sys.requests c s ++ [.pull call.name ids])).setPhase c
        (.pulling { call with unsent := unsent, asked := call.asked ++ [s] })) table
  | ownPush (c : ℕ) (name : String) (m : ℕ) (ws : List (ℤ × α)) (own : List (ℕ × List (ℤ × α)))
      (target : DataStore α) (table' : String → ℤ → α)
        (hphase : sys.phase c = .pushing name [] ((m, ws) :: own))
      (hserved : Served T (sys.kv.put (sys.home c) target) table')
        (hwrote : WroteTo name ws table table') :
      Moves T sys table ({ sys with kv := sys.kv.put (sys.home c) target }.setPhase c (.pushing name [] own)) table'
  | ownPull (c : ℕ) (call : PullCall α) (result : List (Option α)) (hphase : sys.phase c = .pulling call)
      (hunsent : call.unsent = []) (hcopied : call.copied = false)
      (hcopy : sys.kv.copyLocal (sys.home c) call.name call.found call.result = .ok result) :
      Moves T sys table (sys.setPhase c (.pulling { call with copied := true, result := result })) table
  | servePull (c s : ℕ) (name : String) (ids : List ℤ) (rest : List (Request α))
      (hrequests : sys.requests c s = .pull name ids :: rest) :
      Moves T sys table ((sys.setRequests c s rest).setResponses s c
        (sys.responses s c ++ [⟨s, ids.map (table name)⟩])) table
  | servePush (c s : ℕ) (name : String) (ws : List (ℤ × α)) (rest : List (Request α)) (target : DataStore α)
      (table' : String → ℤ → α) (hrequests : sys.requests c s = .push name ws :: rest)
      (hserved : Served T (sys.kv.put (s / sys.kv.groupCount) target) table')
      (hwrote : WroteTo name ws table table') :
      Moves T sys table ({ sys with kv := sys.kv.put (s / sys.kv.groupCount) target }.setRequests c s rest) table'
  | receive (c s : ℕ) (call : PullCall α) (response : PullResponse α) (rest : List (PullResponse α))
      (result : List (Option α)) (hphase : sys.phase c = .pulling call)
      (hresponses : sys.responses s c = response :: rest) (hcopied : call.copied = true)
      (hreceive : call.found.receive sys.kv.groupCount call.result response = .ok result) :
      Moves T sys table ((sys.setResponses s c rest).setPhase c
        (.pulling { call with received := call.received ++ [response.serverId], result := result })) table
  | finishPush (c : ℕ) (name : String) (hphase : sys.phase c = .pushing name [] []) :
      Moves T sys table (sys.setPhase c .idle) table
  | finishPull (c : ℕ) (call : PullCall α) (rows : List α) (hphase : sys.phase c = .pulling call)
      (hcopied : call.copied = true)
      (hlen : call.received.length = (call.found.messages sys.kv.machineCount).length)
      (hrows : call.result.mapM (orRaise .memory) = .ok rows) :
      Moves T sys table ((sys.record c (.pull call.name call.ids rows)).setPhase c .idle) table

/-- What the callers promise: ids of the tensors. -/
def Action.Allowed (T : Tensors κ) : Action α → Prop
  | .push _ name ids _ _ => name ∈ T.names ∧ Valid (T.size name) ids
  | .pull _ name ids => name ∈ T.names ∧ Valid (T.size name) ids
  | _ => True

lemma KVSystem.attempt_eq_some {β γ : Type} {x : Except Failure β} {f : β → γ} {z : γ} :
    attempt x f = some z ↔ ∃ y, x = .ok y ∧ f y = z := by
  cases x with
  | error e => simp [attempt]
  | ok y => simp [attempt]

variable {s m : ℕ} {ids : List ℤ} {name : String}

section

variable {T : Tensors κ} {kv : Cluster κ α} {table : String → ℤ → α} {ws : List (ℤ × α)}

lemma Served.put (h : Served T kv table) {target : DataStore α} {t : ℤ → α}
    (hframe : ∀ name' ≠ name, target name' = kv.dataStore m name')
    (hhosts : Hosts (kv.put m target) name (T.policy name) (T.size name) t)
    (hwritten : Written (table name) ws t) :
    Served T (kv.put m target) (Function.update table name t) ∧
      WroteTo name ws table (Function.update table name t) := by
  refine ⟨⟨h.group, h.name_ne, fun name' hname' => ?_, h.pull, h.push⟩,
    fun name' hne => Function.update_of_ne hne _ _, by rwa [Function.update_self]⟩
  by_cases hne : name' = name
  · subst hne
    rw [Function.update_self]
    exact hhosts
  · rw [Function.update_of_ne hne]
    exact (h.hosts name' hname').put_of_ne (hframe name' hne)

/-- **A request for rows is handled.** -/
lemma Served.processPull_eq (h : Served T kv table)
    (hfits : Fits T kv.machineCount (s / kv.groupCount) name ids) :
    kv.processPull s name ids = .ok ⟨s, ids.map (table name)⟩ :=
  (h.hosts name hfits.name_mem).processPull_eq (h.pull name hfits.name_mem)
    (h.hosts name hfits.name_mem).answers_default hfits.machine_lt hfits.valid hfits.owner

/-- **A request to write rows is handled.** -/
lemma Served.exists_processPush (h : Served T kv table)
    (hfits : Fits T kv.machineCount (s / kv.groupCount) name (ws.map Prod.fst)) :
    ∃ target table', kv.processPush s name (ws.map Prod.fst) (ws.map Prod.snd) =
        .ok (kv.put (s / kv.groupCount) target) ∧
      Served T (kv.put (s / kv.groupCount) target) table' ∧ WroteTo name ws table table' := by
  obtain ⟨order, hpush⟩ := h.push name hfits.name_mem
  obtain ⟨target, t, hrun, hframe, hhosts, hwritten⟩ :=
    (h.hosts name hfits.name_mem).exists_processPush hpush hfits.machine_lt hfits.valid hfits.owner
  obtain ⟨hserved, hwrote⟩ := h.put hframe hhosts hwritten
  exact ⟨target, _, hrun, hserved, hwrote⟩

lemma Served.exists_localPush (h : Served T kv table) {home : ℕ}
    (hfits : Fits T kv.machineCount home name (ws.map Prod.fst)) :
    ∃ target table', kv.localPush home name ws = .ok (kv.put home target) ∧
      Served T (kv.put home target) table' ∧ WroteTo name ws table table' := by
  obtain ⟨order, hpush⟩ := h.push name hfits.name_mem
  obtain ⟨target, t, hrun, hframe, hhosts, hwritten⟩ :=
    (h.hosts name hfits.name_mem).exists_localPush hpush hfits.machine_lt hfits.valid hfits.owner
  obtain ⟨hserved, hwrote⟩ := h.put hframe hhosts hwritten
  exact ⟨target, _, hrun, hserved, hwrote⟩

end

namespace KVSystem.Inv

variable {T : Tensors κ} {Right : ℕ → String → ℤ → α → Prop} {sys sys' : KVSystem κ α}
  {table : String → ℤ → α}

/-- **A step** is one of the moves. -/
theorem moves (h : sys.Inv T Right table) {a : Action α} (ha : a.Allowed T)
    (hstep : sys.step a = some sys') :
    ∃ table', Moves T sys table sys' table' := by
  cases a with
  | push c name ids data argsort =>
      obtain ⟨hname, hids⟩ := ha
      simp only [step] at hstep
      split at hstep
      · rename_i hphase
        obtain ⟨x, hx, rfl⟩ := attempt_eq_some.1 hstep
        have hlen : ids.length = data.length := by
          by_contra hne
          simp [Cluster.startPush, h.served.name_ne name hname, hne] at hx
        obtain ⟨parts, hparts, hnodup, hlt, howner, hpart⟩ :=
          (h.served.hosts name hname).exists_startPush (h.served.name_ne name hname)
            (h.home_lt c) argsort hlen hids
        obtain rfl := Except.ok.inj (hx.symm.trans hparts)
        refine ⟨table, .push c name ids data parts hphase hlen (fun x hx => ?_) hnodup howner hpart⟩
        have hmem (id : ℤ) (hid : id ∈ x.2.map Prod.fst) : id ∈ ids ∧ (T.policy name).owner id = x.1 := by
          obtain ⟨w, hw, rfl⟩ := List.mem_map.1 hid
          obtain ⟨hw, hown⟩ := List.mem_filter.1 ((hpart x hx).mem_iff.1 hw)
          exact ⟨(List.of_mem_zip hw).1, of_decide_eq_true hown⟩
        exact ⟨hname, hlt _ (List.mem_map_of_mem hx), fun id hid => hids id (hmem id hid).1,
          fun id hid => (hmem id hid).2⟩
      · cases hstep
  | pull c name ids =>
      obtain ⟨hname, hids⟩ := ha
      simp only [step] at hstep
      split at hstep
      · rename_i hphase
        simp only [callPull, h.served.pull name hname, if_neg (h.served.name_ne name hname),
          (h.served.hosts name hname).startPull_eq (h.home_lt c) hids, attempt,
            Option.some.injEq] at hstep
        subst hstep
        exact ⟨table, .pull c name ids hphase hname hids⟩
      · cases hstep
  | send c s =>
      simp only [step, send] at hstep
      split at hstep
      · rename_i name m ws unsent own hphase
        split_ifs at hstep with hs
        cases hstep
        exact ⟨table, .sendPush c s name m ws unsent own hphase hs⟩
      · rename_i call hphase
        split at hstep
        · cases hstep
        · rename_i m ids unsent hunsent
          split_ifs at hstep with hs
          cases hstep
          exact ⟨table, .sendPull c s call m ids unsent hphase hunsent hs⟩
      · cases hstep
  | own c =>
      have hok := h.phase c
      simp only [step, own] at hstep
      split at hstep
      · rename_i name m ws own hphase
        rw [hphase] at hok
        obtain ⟨-, -, hown⟩ := hok
        obtain ⟨hm, hfits⟩ := hown _ List.mem_cons_self
        rw [hm] at hfits
        obtain ⟨target, table', hrun, hserved, hwrote⟩ := h.served.exists_localPush hfits
        rw [hrun] at hstep
        cases hstep
        exact ⟨table', .ownPush c name m ws own target table' hphase hserved hwrote⟩
      · rename_i call hphase
        split_ifs at hstep with hcond
        obtain ⟨result, hcopy, rfl⟩ := attempt_eq_some.1 hstep
        exact ⟨table, .ownPull c call result hphase hcond.1 hcond.2 hcopy⟩
      · cases hstep
  | serve c s =>
      simp only [step, serve] at hstep
      split at hstep
      · cases hstep
      · rename_i name ids rest hrequests
        have hfits : Fits T _ _ name ids :=
          (h.fits c s (.pull name ids) (by rw [hrequests]; exact List.mem_cons_self)).2
        rw [h.served.processPull_eq hfits] at hstep
        cases hstep
        exact ⟨table, .servePull c s name ids rest hrequests⟩
      · rename_i name ws rest hrequests
        have hfits : Fits T _ _ name (ws.map Prod.fst) :=
          (h.fits c s (.push name ws) (by rw [hrequests]; exact List.mem_cons_self)).2
        obtain ⟨target, table', hrun, hserved, hwrote⟩ := h.served.exists_processPush hfits
        rw [hrun] at hstep
        cases hstep
        exact ⟨table', .servePush c s name ws rest target table' hrequests hserved hwrote⟩
  | receive c s =>
      simp only [step, receive] at hstep
      split at hstep
      · rename_i call response rest hphase hresponses
        split_ifs at hstep with hcond
        obtain ⟨result, hreceive, rfl⟩ := attempt_eq_some.1 hstep
        exact ⟨table, .receive c s call response rest result hphase hresponses hcond.1 hreceive⟩
      · cases hstep
  | finish c =>
      simp only [step, finish] at hstep
      split at hstep
      · rename_i name hphase
        cases hstep
        exact ⟨table, .finishPush c name hphase⟩
      · rename_i call hphase
        split_ifs at hstep with hcond
        obtain ⟨rows, hrows, rfl⟩ := attempt_eq_some.1 hstep
        exact ⟨table, .finishPull c call rows hphase hcond.1 hcond.2 hrows⟩
      · cases hstep

end KVSystem.Inv

/-! ## The invariant is kept -/

/-- What is read now is right. -/
structure Reads (T : Tensors κ) (Right : ℕ → String → ℤ → α → Prop) (sys : KVSystem κ α)
    (table : String → ℤ → α) : Prop where
  serve : ∀ c s name ids rest, sys.requests c s = .pull name ids :: rest → ∀ id ∈ ids,
    Right c name id (table name id)
  copy : ∀ c call, sys.phase c = .pulling call → call.unsent = [] → call.copied = false →
    ∀ id ∈ call.ids,
    (T.policy call.name).owner id = sys.home c → Right c call.name id (table call.name id)

section

variable {T : Tensors κ} {sys sys' : KVSystem κ α} {table table' : String → ℤ → α}

lemma Buffer.mono {p : PartitionPolicy κ} {Right Right' : ℤ → α → Prop} {done : Set ℕ}
    {result : List (Option α)} (h : Buffer p ids Right done result)
    (hmono : ∀ id x, Right id x → Right' id x) : Buffer p ids Right' done result where
  length_eq := h.length_eq
  sound i x id hx hid := hmono id x (h.sound i x id hx hid)
  filled := h.filled

lemma Phase.Ok.frame {c : ℕ} {phase : Phase α} {Right Right' : String → ℤ → α → Prop}
    (h : phase.Ok T sys Right c) (hrequests : ∀ s, sys'.requests c s = sys.requests c s)
    (hresponses : ∀ s, sys'.responses s c = sys.responses s c) (hhome : sys'.home c = sys.home c)
    (hmachines : sys'.kv.machineCount = sys.kv.machineCount)
    (hgroup : sys'.kv.groupCount = sys.kv.groupCount)
    (hmono : ∀ call, phase = .pulling call → ∀ name id x, Right name id x → Right' name id x) :
    phase.Ok T sys' Right' c := by
  cases phase with
  | idle => simpa only [Phase.Ok, hrequests, hresponses] using h
  | pushing name unsent own =>
      simpa only [Phase.Ok, hrequests, hresponses, hhome, hmachines] using h
  | pulling call =>
      have hmono := hmono call rfl
      refine ⟨h.name_mem, h.valid, by rw [hhome]; exact h.found,
        by rw [hmachines, hgroup]; exact h.messages,
        fun s => by rw [hrequests, hresponses]; exact h.count s,
        fun s => by rw [hrequests, hgroup]; exact h.requests s,
        fun s r hr => ?_, h.unsent, h.received,
        by rw [hhome, hgroup]; exact h.buffer.mono (hmono call.name)⟩
      rw [hresponses] at hr
      rw [hgroup]
      exact ⟨(h.responses s r hr).1, (h.responses s r hr).2.imp fun id x => hmono call.name id x⟩

variable {Right Right' : ℕ → String → ℤ → α → Prop}

/-- **A step of one client** is about that client. -/
lemma KVSystem.Inv.update (h : sys.Inv T Right table) (c : ℕ) (hserved : Served T sys'.kv table')
    (hhome : sys'.home = sys.home) (hmachines : sys'.kv.machineCount = sys.kv.machineCount)
    (hgroup : sys'.kv.groupCount = sys.kv.groupCount)
    (hrequests : ∀ c' ≠ c, sys'.requests c' = sys.requests c')
    (hresponses : ∀ c' ≠ c, ∀ s, sys'.responses s c' = sys.responses s c')
    (hphases : ∀ c' ≠ c, sys'.phase c' = sys.phase c')
    (hmono : ∀ c call, sys.phase c = .pulling call → ∀ name id x, Right c name id x → Right' c name id x)
    (hfits : ∀ s, ∀ r ∈ sys'.requests c s, s / sys.kv.groupCount ≠ sys.home c ∧
      Fits T sys.kv.machineCount (s / sys.kv.groupCount) r.name r.ids)
    (hlast : ∀ s pre r post, sys'.requests c s = pre ++ r :: post → r.isPull = true → post = [])
    (hphase : (sys'.phase c).Ok T sys' (Right' c) c) : sys'.Inv T Right' table' where
  served := hserved
  home_lt c' := by
    rw [hhome, hmachines]
    exact h.home_lt c'
  fits c' s r hr := by
    rw [hmachines, hgroup, hhome]
    by_cases hc : c' = c
    · subst hc
      exact hfits s r hr
    · rw [hrequests c' hc] at hr
      exact h.fits c' s r hr
  last c' s pre r post hr := by
    by_cases hc : c' = c
    · subst hc
      exact hlast s pre r post hr
    · rw [hrequests c' hc] at hr
      exact h.last c' s pre r post hr
  phase c' := by
    by_cases hc : c' = c
    · subst hc
      exact hphase
    · rw [hphases c' hc]
      exact (h.phase c').frame (fun s => by rw [hrequests c' hc]) (hresponses c' hc)
        (by rw [hhome]) hmachines hgroup
        (hmono c')

lemma FastPull.messages_nodup (found : FastPull) (machineCount : ℕ) :
    ((found.messages machineCount).map Prod.fst).Nodup := by
  rw [FastPull.messages, List.map_map]
  exact (List.map_id _).symm ▸ List.nodup_range.filter _

namespace PullCall.Ok

variable {Right : String → ℤ → α → Prop} {c : ℕ} {call : PullCall α}

lemma mono (h : call.Ok T sys Right c) {Right' : String → ℤ → α → Prop}
    (hmono : ∀ name id x, Right name id x → Right' name id x) : call.Ok T sys Right' c :=
  { h with
    responses := fun s r hr =>
      ⟨(h.responses s r hr).1, (h.responses s r hr).2.imp fun id x => hmono call.name id x⟩
    buffer := h.buffer.mono (hmono call.name) }

lemma exists_message (h : call.Ok T sys Right c) (hs : s ∈ call.asked) :
    s / sys.kv.groupCount ≠ sys.home c ∧
      s / sys.kv.groupCount ∈ (call.found.messages sys.kv.machineCount).map Prod.fst := by
  obtain ⟨sent, hsent, happend⟩ := h.messages
  have hmem : s / sys.kv.groupCount ∈ (call.found.messages sys.kv.machineCount).map Prod.fst := by
    rw [← happend, List.map_append, hsent]
    exact List.mem_append_left _ (List.mem_map_of_mem hs)
  refine ⟨fun hhome => ?_, hmem⟩
  obtain ⟨x, hx, hxs⟩ := List.mem_map.1 hmem
  rw [h.found] at hx
  obtain ⟨-, hne, -⟩ := (Hosts.mem_messages _).1 hx
  exact hne (if_pos (hxs.trans hhome))

/-- A server with a request or a response was asked. -/
lemma mem_asked (h : call.Ok T sys Right c)
    (hs : 0 < (sys.requests c s).countP Request.isPull + (sys.responses s c).length) :
    s ∈ call.asked := by
  have hcount := h.count s
  exact List.count_pos_iff.1 (by omega)

variable {unsent : List (ℕ × List ℤ)}

section

variable (h : call.Ok T sys Right c)
include h

/-- A server of a machine that has not been asked has no request for rows. -/
lemma no_pull (hunsent : call.unsent = (m, ids) :: unsent) (hs : s / sys.kv.groupCount = m) :
    s ∉ call.asked ∧ ∀ r ∈ sys.requests c s, r.isPull = false := by
  obtain ⟨sent, hsent, happend⟩ := h.messages
  have hnodup := call.found.messages_nodup sys.kv.machineCount
  rw [← happend, hunsent, List.map_append, hsent, List.map_cons, List.nodup_append] at hnodup
  have hnot : s ∉ call.asked := fun hmem =>
    hnodup.2.2 _ (List.mem_map_of_mem hmem) _ List.mem_cons_self hs
  refine ⟨hnot, fun r hr => ?_⟩
  by_contra hpull
  exact hnot (h.mem_asked (Nat.add_pos_left (List.countP_pos_iff.2 ⟨r, hr, by simpa using hpull⟩) _))

lemma unsent_fits (hunsent : call.unsent = (m, ids) :: unsent) :
    ids = (call.found.remote m).map Prod.fst ∧ m ≠ sys.home c ∧
      Fits T sys.kv.machineCount m call.name ids := by
  obtain ⟨sent, -, happend⟩ := h.messages
  have hmem : (m, ids) ∈ call.found.messages sys.kv.machineCount := by
    rw [← happend, hunsent]
    exact List.mem_append_right _ List.mem_cons_self
  have hfound := h.found
  rw [hfound] at hmem ⊢
  obtain ⟨hm, hne, hids⟩ := (Hosts.mem_messages _).1 hmem
  have hids : ids = ((FastPull.found (T.policy call.name) (sys.home c) call.ids).remote m).map Prod.fst := hids
  refine ⟨hids, fun hmh => hne (if_pos hmh), h.name_mem, hm, fun id hid => ?_, fun id hid => ?_⟩
  · rw [hids] at hid
    exact h.valid id ((Hosts.mem_remote _).1 hid).2.1
  · rw [hids] at hid
    exact ((Hosts.mem_remote _).1 hid).2.2

/-- **A message is sent.** -/
lemma send (hunsent : call.unsent = (m, ids) :: unsent) (hs : s / sys.kv.groupCount = m)
    (phase : Phase α) :
    ({ call with unsent := unsent, asked := call.asked ++ [s] } : PullCall α).Ok T
      ((sys.setRequests c s (sys.requests c s ++ [.pull call.name ids])).setPhase c phase) Right c where
  name_mem := h.name_mem
  valid := h.valid
  found := h.found
  messages := by
    obtain ⟨sent, hsent, happend⟩ := h.messages
    refine ⟨sent ++ [(m, ids)], ?_, ?_⟩
    · simp [hsent, hs]
    · simpa [hunsent] using happend
  count s' := by
    have hcount := h.count s'
    by_cases hss : s' = s
    · subst hss
      simp only [KVSystem.setPhase, KVSystem.setRequests, Function.update_self, List.countP_append,
        List.countP_singleton, Request.isPull, if_true, List.count_append,
          List.count_singleton_self]
      omega
    · simp only [KVSystem.setPhase, KVSystem.setRequests, Function.update_self,
        Function.update_of_ne hss,
        List.count_append, List.count_singleton, beq_iff_eq, if_neg (Ne.symm hss), Nat.add_zero]
      exact hcount
  requests s' r hr hpull := by
    by_cases hss : s' = s
    · subst hss
      simp only [KVSystem.setPhase, KVSystem.setRequests, Function.update_self, List.mem_append,
        List.mem_singleton] at hr
      rcases hr with hr | rfl
      · exact h.requests s' r hr hpull
      · exact ⟨rfl, by subst hs; exact (h.unsent_fits hunsent).1⟩
    · simp only [KVSystem.setPhase, KVSystem.setRequests, Function.update_self, Function.update_of_ne hss] at hr
      exact h.requests s' r hr hpull
  responses := h.responses
  unsent hcopied := by
    rw [h.unsent hcopied] at hunsent
    cases hunsent
  received := h.received
  buffer := h.buffer

/-- **The own rows are copied.** -/
lemma copy (hserved : Served T sys.kv table) (hhome : sys.home c < sys.kv.machineCount)
    (hunsent : call.unsent = []) (hcopied : call.copied = false)
    (hright : ∀ id ∈ call.ids, (T.policy call.name).owner id = sys.home c → Right call.name id (table call.name id)) :
    ∃ result, sys.kv.copyLocal (sys.home c) call.name call.found call.result = .ok result ∧
      ∀ phase, ({ call with copied := true, result := result } : PullCall α).Ok T
      (sys.setPhase c phase) Right c := by
  obtain ⟨result, hcopy, hbuffer⟩ :=
    (hserved.hosts call.name h.name_mem).exists_copyLocal hhome h.valid h.buffer hright
  refine ⟨result, by rw [h.found]; exact hcopy,
    fun phase => ⟨h.name_mem, h.valid, h.found, h.messages, h.count,
    h.requests, h.responses, fun _ => hunsent, fun hfalse => absurd hfalse (by simp), ?_⟩⟩
  convert hbuffer using 1
  ext m
  simp [hcopied]

/-- **A server has answered.** -/
lemma answer {rest : List (Request α)} (hrequests : sys.requests c s = .pull name ids :: rest)
    (hright : ∀ id ∈ ids, Right name id (table name id)) :
    call.Ok T ((sys.setRequests c s rest).setResponses s c
      (sys.responses s c ++ [⟨s, ids.map (table name)⟩])) Right c := by
  obtain ⟨hname, hids⟩ :=
    h.requests s (.pull name ids) (by rw [hrequests]; exact List.mem_cons_self) rfl
  obtain rfl : name = call.name := hname
  have hids : ids = (call.found.remote (s / sys.kv.groupCount)).map Prod.fst := hids
  refine ⟨h.name_mem, h.valid, h.found, h.messages, fun s' => ?_, fun s' r hr => ?_,
    fun s' r hr => ?_, h.unsent,
    h.received, h.buffer⟩
  · have hcount := h.count s'
    by_cases hss : s' = s
    · subst hss
      simp only [KVSystem.setRequests, KVSystem.setResponses, Function.update_self,
        List.length_append,
        List.length_singleton]
      rw [hrequests, List.countP_cons_of_pos rfl] at hcount
      omega
    · simpa only [KVSystem.setRequests, KVSystem.setResponses, Function.update_self,
        Function.update_of_ne hss] using hcount
  · apply h.requests s' r
    by_cases hss : s' = s
    · subst hss
      simp only [KVSystem.setRequests, KVSystem.setResponses, Function.update_self] at hr
      rw [hrequests]
      exact List.mem_cons_of_mem _ hr
    · simpa only [KVSystem.setRequests, KVSystem.setResponses, Function.update_self,
        Function.update_of_ne hss] using hr
  · by_cases hss : s' = s
    · subst hss
      simp only [KVSystem.setRequests, KVSystem.setResponses, Function.update_self, List.mem_append,
        List.mem_singleton] at hr
      rcases hr with hr | rfl
      · exact h.responses s' r hr
      · refine ⟨rfl, ?_⟩
        simp only [KVSystem.setRequests, KVSystem.setResponses]
        rw [← hids, List.forall₂_map_right_iff, List.forall₂_same]
        exact hright
    · apply h.responses s' r
      simpa only [KVSystem.setRequests, KVSystem.setResponses, Function.update_of_ne hss] using hr

/-- **A message has come.** -/
lemma receive {response : PullResponse α} {rest : List (PullResponse α)}
    (hresponses : sys.responses s c = response :: rest) (hcopied : call.copied = true) :
    ∃ result, call.found.receive sys.kv.groupCount call.result response = .ok result ∧
      ∀ phase, ({ call with received := call.received ++ [response.serverId], result := result } : PullCall α).Ok T
        ((sys.setResponses s c rest).setPhase c phase) Right c := by
  obtain ⟨hserver, hrows⟩ := h.responses s response (by rw [hresponses]; exact List.mem_cons_self)
  have hasked : s ∈ call.asked := h.mem_asked (by rw [hresponses, List.length_cons]; omega)
  rw [← hserver] at hrows
  rw [h.found] at hrows
  have hne := (h.exists_message hasked).1
  rw [← hserver] at hne
  obtain ⟨result, hreceive, hbuffer⟩ := h.buffer.exists_receive hne hrows
  refine ⟨result, by rw [h.found]; exact hreceive,
    fun phase => ⟨h.name_mem, h.valid, h.found, h.messages,
    fun s' => ?_, h.requests, fun s' r hr => ?_, h.unsent, fun hfalse =>
      absurd (hcopied.symm.trans hfalse) (by simp),
    ?_⟩⟩
  · have hcount := h.count s'
    by_cases hss : s' = s
    · subst hss
      simp only [KVSystem.setPhase, KVSystem.setResponses, Function.update_self, List.count_append,
        hserver,
        List.count_singleton_self]
      rw [hresponses, List.length_cons] at hcount
      omega
    · simp only [KVSystem.setPhase, KVSystem.setResponses, Function.update_of_ne hss,
        List.count_append, hserver,
        List.count_singleton, beq_iff_eq, if_neg (Ne.symm hss), Nat.add_zero]
      exact hcount
  · apply h.responses s' r
    by_cases hss : s' = s
    · subst hss
      simp only [KVSystem.setPhase, KVSystem.setResponses, Function.update_self] at hr
      rw [hresponses]
      exact List.mem_cons_of_mem _ hr
    · simpa only [KVSystem.setPhase, KVSystem.setResponses, Function.update_of_ne hss] using hr
  · convert hbuffer using 1
    ext m
    simp only [KVSystem.setPhase, KVSystem.setResponses, List.mem_append, List.mem_singleton,
      Set.mem_ofPred_eq,
      Set.mem_insert_iff]
    constructor
    · rintro (hm | ⟨s', hs' | rfl, rfl⟩)
      · exact Or.inr (Or.inl hm)
      · exact Or.inr (Or.inr ⟨s', hs', rfl⟩)
      · exact Or.inl rfl
    · rintro (rfl | hm | ⟨s', hs', rfl⟩)
      · exact Or.inr ⟨_, Or.inr rfl, rfl⟩
      · exact Or.inl hm
      · exact Or.inr ⟨s', Or.inl hs', rfl⟩

lemma received_le : (call.received : Multiset ℕ) ≤ call.asked := by
  rw [Multiset.le_iff_count]
  intro s
  rw [Multiset.coe_count, Multiset.coe_count]
  have hcount := h.count s
  omega

/-- As long as something is on the way, not all messages have come. -/
lemma received_lt (hs : 0 < (sys.requests c s).countP Request.isPull + (sys.responses s c).length) :
    call.received.length < call.asked.length := by
  refine lt_of_le_of_ne (by simpa using Multiset.card_le_card h.received_le) fun hlen => ?_
  have hperm : call.received.Perm call.asked :=
    Multiset.coe_eq_coe.1 (Multiset.eq_of_le_of_card_le h.received_le (by simp [hlen]))
  have hcount := h.count s
  rw [hperm.count_eq s] at hcount
  omega

lemma asked_length (hunsent : call.unsent = []) :
    call.asked.length = (call.found.messages sys.kv.machineCount).length := by
  obtain ⟨sent, hsent, happend⟩ := h.messages
  rw [hunsent, List.append_nil] at happend
  rw [← happend, ← List.length_map (f := Prod.fst), hsent, List.length_map]

/-- **All messages have come**: nothing is on the way. -/
lemma quiet (hcopied : call.copied = true)
    (hlen : call.received.length = (call.found.messages sys.kv.machineCount).length) :
    (∀ s, s ∈ call.received ↔ s ∈ call.asked) ∧
      ∀ s, (∀ r ∈ sys.requests c s, r.isPull = false) ∧ sys.responses s c = [] := by
  have hlens := (h.asked_length (h.unsent hcopied)).trans hlen.symm
  have hperm : call.received.Perm call.asked :=
    Multiset.coe_eq_coe.1 (Multiset.eq_of_le_of_card_le h.received_le (by simp [hlens]))
  refine ⟨fun s => hperm.mem_iff, fun s => ?_⟩
  have hcount := h.count s
  rw [hperm.count_eq s] at hcount
  refine ⟨fun r hr => ?_, List.eq_nil_of_length_eq_zero (by omega)⟩
  by_contra hpull
  have hpos := List.countP_pos_iff.2 ⟨r, hr, by simpa using hpull⟩
  omega

/-- **A pull returns** all rows. -/
lemma exists_rows (hserved : Served T sys.kv table) (hcopied : call.copied = true)
    (hlen : call.received.length = (call.found.messages sys.kv.machineCount).length) :
    ∃ rows, call.result.mapM (orRaise .memory) = .ok rows ∧
      List.Forall₂ (Right call.name) call.ids rows := by
  apply h.buffer.exists_rows
  intro id hid
  by_cases hhome : (T.policy call.name).owner id = sys.home c
  · exact Or.inl ⟨hcopied, hhome⟩
  · obtain ⟨sent, hsent, happend⟩ := h.messages
    rw [h.unsent hcopied, List.append_nil] at happend
    have hm := ((hserved.hosts call.name h.name_mem).place_of (h.valid id hid).1 (h.valid id hid).2).1
    have hmem := (Hosts.mem_remote (T.policy call.name)).2 ⟨hhome, hid, rfl⟩
    rw [← h.found] at hmem
    have hx : ((T.policy call.name).owner id, (call.found.remote ((T.policy call.name).owner id)).map Prod.fst) ∈
        call.found.messages sys.kv.machineCount := by
      rw [h.found] at hmem ⊢
      exact (Hosts.mem_messages _).2 ⟨hm, fun hnil => List.not_mem_nil (hnil ▸ hmem), rfl⟩
    rw [← happend] at hx
    have hasked := List.mem_map_of_mem (f := Prod.fst) hx
    rw [hsent] at hasked
    obtain ⟨s, hs, hsm⟩ := List.mem_map.1 hasked
    exact Or.inr ⟨s, ((h.quiet hcopied hlen).1 s).2 hs, hsm⟩

end

end PullCall.Ok

variable {r' r : Request α}

lemma last_append {l : List (Request α)} (hl : ∀ r ∈ l, r.isPull = false) {pre : List (Request α)}
    {r : Request α} {post : List (Request α)} (h : l ++ [r'] = pre ++ r :: post)
    (hr : r.isPull = true) : post = [] := by
  rcases List.eq_nil_or_concat' post with rfl | ⟨post', x, rfl⟩
  · rfl
  · have hl' : l = pre ++ r :: post' := by
      have hlast : l ++ [r'] = (pre ++ r :: post') ++ [x] := by simpa using h
      exact (List.append_inj' hlast rfl).1
    have hmem : r ∈ l := hl' ▸ List.mem_append_right _ List.mem_cons_self
    rw [hl r hmem] at hr
    cases hr

variable {l : ℕ → List (Request α)}

lemma mem_update_tail {s s' : ℕ} {rest : List (Request α)} (hl : l s = r' :: rest)
    (h : r ∈ Function.update l s rest s') : r ∈ l s' := by
  by_cases hss : s' = s
  · subst hss
    rw [Function.update_self] at h
    rw [hl]
    exact List.mem_cons_of_mem _ h
  · rwa [Function.update_of_ne hss] at h

/-- What holds of all requests, and of one more. -/
lemma forall_update_append {P : ℕ → Request α → Prop} (hl : ∀ s, ∀ r ∈ l s, P s r) (hr' : P s r')
    (s' : ℕ) : ∀ r ∈ Function.update l s (l s ++ [r']) s', P s' r := by
  intro r hr
  by_cases hss : s' = s
  · subst hss
    rw [Function.update_self, List.mem_append, List.mem_singleton] at hr
    rcases hr with hr | rfl
    · exact hl s' r hr
    · exact hr'
  · rw [Function.update_of_ne hss] at hr
    exact hl s' r hr

/-- Pulls are the last requests, also when one request is sent behind requests that do not pull, and when
the first one is handled. -/
lemma last_update (hlast : ∀ s pre r post, l s = pre ++ r :: post → r.isPull = true → post = [])
    {l' : List (Request α)}
    (hl' : (∃ r', l' = l s ++ [r'] ∧ ∀ r ∈ l s, r.isPull = false) ∨ ∃ r', l s = r' :: l') (s' : ℕ)
    (pre : List (Request α)) (r : Request α) (post : List (Request α))
    (h : Function.update l s l' s' = pre ++ r :: post) (hpull : r.isPull = true) : post = [] := by
  by_cases hss : s' = s
  · subst hss
    rw [Function.update_self] at h
    rcases hl' with ⟨r', rfl, hquiet⟩ | ⟨r', hl⟩
    · exact last_append hquiet h hpull
    · exact hlast s' (r' :: pre) r post (by rw [hl, h]; rfl) hpull
  · rw [Function.update_of_ne hss] at h
    exact hlast s' pre r post h hpull

omit [DecidableEq κ] in
lemma setPhase_phase (c : ℕ) (phase : Phase α) : (sys.setPhase c phase).phase c = phase :=
  Function.update_self _ _ _

omit [DecidableEq κ] in
lemma setResponses_of_ne {c c' s s' : ℕ} {l : List (PullResponse α)} (hc : c' ≠ c) :
    (sys.setResponses s c l).responses s' c' = sys.responses s' c' := by
  by_cases hs : s' = s
  · subst hs
    simp [Function.update_of_ne hc]
  · simp [Function.update_of_ne hs]

/-- **Every move keeps the invariant**, with what is known of the rows that are read. -/
theorem KVSystem.Inv.of_moves (h : sys.Inv T Right table) (hmove : Moves T sys table sys' table')
    (hreads : Reads T Right sys table)
    (hmono : ∀ c call, sys.phase c = .pulling call → ∀ name id x, Right c name id x → Right' c name id x) :
    sys'.Inv T Right' table' := by
  cases hmove with
  | push c name ids data parts hphase hlen hfits hnodup howner hpart =>
      have hok := h.phase c
      rw [hphase] at hok
      refine h.update c h.served rfl rfl rfl (fun _ _ => rfl) (fun _ _ _ => rfl)
        (fun c' hc => Function.update_of_ne hc _ _) hmono (h.fits c) (h.last c) ?_
      simp only [setPhase, record, Function.update_self]
      refine ⟨hok, fun x hx => ?_, fun x hx => ?_⟩
      · obtain ⟨hx, hne⟩ := List.mem_filter.1 hx
        exact ⟨of_decide_eq_true hne, hfits x hx⟩
      · obtain ⟨hx, heq⟩ := List.mem_filter.1 hx
        exact ⟨of_decide_eq_true heq, hfits x hx⟩
  | pull c name ids hphase hname hids =>
      have hok := h.phase c
      rw [hphase] at hok
      refine h.update c h.served rfl rfl rfl (fun _ _ => rfl) (fun _ _ _ => rfl)
        (fun c' hc => Function.update_of_ne hc _ _) hmono (h.fits c) (h.last c) ?_
      simp only [setPhase, Function.update_self]
      refine ⟨hname, hids, rfl, ⟨[], rfl, rfl⟩, fun s => ?_, fun s r hr hpull => ?_,
        fun s r hr => ?_,
        fun hfalse => absurd hfalse (by simp), fun _ => rfl, ?_⟩
      · have hnone : (sys.requests c s).countP Request.isPull = 0 :=
          List.countP_eq_zero.2 fun r hr => by simp [(hok s).1 r hr]
        simp [hnone, (hok s).2]
      · rw [(hok s).1 r hr] at hpull
        cases hpull
      · have hr : r ∈ sys.responses s c := hr
        rw [(hok s).2] at hr
        cases hr
      · convert (Buffer.empty : Buffer (T.policy name) ids (Right' c name) ∅ _) using 1
        simp
  | sendPush c s name m ws unsent own hphase hs =>
      have hok := h.phase c
      rw [hphase] at hok
      obtain ⟨hquiet, hunsent, hown⟩ := hok
      refine h.update c h.served rfl rfl rfl (fun c' hc => Function.update_of_ne hc _ _)
        (fun _ _ _ => rfl)
        (fun c' hc => Function.update_of_ne hc _ _) hmono ?_ ?_ ?_
      · simp only [setPhase, setRequests, Function.update_self]
        exact forall_update_append (h.fits c) (hs ▸ hunsent _ List.mem_cons_self)
      · simp only [setPhase, setRequests, Function.update_self]
        exact last_update (h.last c) (.inl ⟨_, rfl, (hquiet s).1⟩)
      · simp only [setPhase, setRequests, Function.update_self]
        have hnopull := forall_update_append (P := fun _ r => r.isPull = false) (s := s)
          (fun s' => (hquiet s').1) (rfl : (Request.push name ws).isPull = false)
        exact ⟨fun s' => ⟨by simpa using hnopull s', (hquiet s').2⟩,
          fun x hx => hunsent x (List.mem_cons_of_mem _ hx), hown⟩
  | sendPull c s call m ids unsent hphase hunsent hs =>
      have hok := h.phase c
      rw [hphase] at hok
      have hok : call.Ok T sys (Right c) c := hok
      refine h.update c h.served rfl rfl rfl (fun c' hc => Function.update_of_ne hc _ _)
        (fun _ _ _ => rfl)
        (fun c' hc => Function.update_of_ne hc _ _) hmono ?_ ?_ ?_
      · simp only [setPhase, setRequests, Function.update_self]
        exact forall_update_append (h.fits c) (hs ▸ (hok.unsent_fits hunsent).2)
      · simp only [setPhase, setRequests, Function.update_self]
        exact last_update (h.last c) (.inl ⟨_, rfl, (hok.no_pull hunsent hs).2⟩)
      · rw [setPhase_phase]
        exact (hok.send hunsent hs _).mono (hmono c call hphase)
  | ownPush c name m ws own target table' hphase hserved hwrote =>
      have hok := h.phase c
      rw [hphase] at hok
      refine h.update c hserved rfl rfl rfl (fun _ _ => rfl) (fun _ _ _ => rfl)
        (fun c' hc => Function.update_of_ne hc _ _) hmono (h.fits c) (h.last c) ?_
      simp only [setPhase, Function.update_self]
      exact ⟨hok.1, hok.2.1, fun x hx => hok.2.2 x (List.mem_cons_of_mem _ hx)⟩
  | ownPull c call result hphase hunsent hcopied hcopy =>
      have hok := h.phase c
      rw [hphase] at hok
      have hok : call.Ok T sys (Right c) c := hok
      obtain ⟨result', hcopy', hnext⟩ := hok.copy h.served (h.home_lt c) hunsent hcopied
        (hreads.copy c call hphase hunsent hcopied)
      obtain rfl := Except.ok.inj (hcopy.symm.trans hcopy')
      refine h.update c h.served rfl rfl rfl (fun _ _ => rfl) (fun _ _ _ => rfl)
        (fun c' hc => Function.update_of_ne hc _ _) hmono (h.fits c) (h.last c) ?_
      rw [setPhase_phase]
      exact (hnext _).mono (hmono c call hphase)
  | servePull c s name ids rest hrequests =>
      have hmem : .pull name ids ∈ sys.requests c s := by rw [hrequests]; exact List.mem_cons_self
      refine h.update c h.served rfl rfl rfl (fun c' hc => Function.update_of_ne hc _ _)
        (fun c' hc s' => setResponses_of_ne hc) (fun _ _ => rfl) hmono (fun s' r hr => ?_)
        ?_ ?_
      · simp only [setRequests, setResponses, Function.update_self] at hr
        exact h.fits c s' r (mem_update_tail hrequests hr)
      · simp only [setRequests, setResponses, Function.update_self]
        exact last_update (h.last c) (.inr ⟨_, hrequests⟩)
      · have hok := h.phase c
        show (sys.phase c).Ok T _ _ c
        cases hphase : sys.phase c with
        | idle =>
            rw [hphase] at hok
            have hpull := (hok s).1 _ hmem
            cases hpull
        | pushing name' unsent own =>
            rw [hphase] at hok
            have hpull := (hok.1 s).1 _ hmem
            cases hpull
        | pulling call =>
            rw [hphase] at hok
            have hok : call.Ok T sys (Right c) c := hok
            exact (hok.answer hrequests (hreads.serve c s name ids rest hrequests)).mono
              (hmono c call hphase)
  | servePush c s name ws rest target table' hrequests hserved hwrote =>
      refine h.update c hserved rfl rfl rfl (fun c' hc => Function.update_of_ne hc _ _)
        (fun _ _ _ => rfl)
        (fun _ _ => rfl) hmono (fun s' r hr => ?_) ?_ ?_
      · simp only [setRequests, Function.update_self] at hr
        exact h.fits c s' r (mem_update_tail hrequests hr)
      · simp only [setRequests, Function.update_self]
        exact last_update (h.last c) (.inr ⟨_, hrequests⟩)
      · have hok := h.phase c
        simp only [setRequests]
        cases hphase : sys.phase c with
        | idle =>
            rw [hphase] at hok
            exact fun s' => ⟨fun r hr => (hok s').1 r (mem_update_tail hrequests (by simpa using hr)), (hok s').2⟩
        | pushing name' unsent own =>
            rw [hphase] at hok
            exact ⟨fun s' => ⟨fun r hr => (hok.1 s').1 r (mem_update_tail hrequests (by simpa using hr)), (hok.1 s').2⟩, hok.2⟩
        | pulling call =>
            rw [hphase] at hok
            have hok : call.Ok T sys (Right c) c := hok
            have hmono := hmono c call hphase
            refine ⟨hok.name_mem, hok.valid, hok.found, hok.messages, fun s' => ?_,
              fun s' r hr => hok.requests s' r (mem_update_tail hrequests (by simpa using hr)),
              fun s' r hr => ⟨(hok.responses s' r hr).1, (hok.responses s' r hr).2.imp fun id x => hmono _ id x⟩,
              hok.unsent, hok.received, hok.buffer.mono (hmono call.name)⟩
            have hcount := hok.count s'
            by_cases hss : s' = s
            · subst hss
              rw [hrequests, List.countP_cons_of_neg (by simp [Request.isPull])] at hcount
              simpa using hcount
            · simpa [Function.update_of_ne hss] using hcount
  | receive c s call response rest result hphase hresponses hcopied hreceive =>
      have hok := h.phase c
      rw [hphase] at hok
      have hok : call.Ok T sys (Right c) c := hok
      obtain ⟨result', hreceive', hnext⟩ := hok.receive hresponses hcopied
      obtain rfl := Except.ok.inj (hreceive.symm.trans hreceive')
      refine h.update c h.served rfl rfl rfl (fun _ _ => rfl)
        (fun c' hc s' => setResponses_of_ne hc)
        (fun c' hc => Function.update_of_ne hc _ _) hmono (h.fits c) (h.last c) ?_
      rw [setPhase_phase]
      exact (hnext _).mono (hmono c call hphase)
  | finishPush c name hphase =>
      have hok := h.phase c
      rw [hphase] at hok
      refine h.update c h.served rfl rfl rfl (fun _ _ => rfl) (fun _ _ _ => rfl)
        (fun c' hc => Function.update_of_ne hc _ _) hmono (h.fits c) (h.last c) ?_
      simp only [setPhase, Function.update_self]
      exact hok.1
  | finishPull c call rows hphase hcopied hlen hrows =>
      have hok := h.phase c
      rw [hphase] at hok
      have hok : call.Ok T sys (Right c) c := hok
      refine h.update c h.served rfl rfl rfl (fun _ _ => rfl) (fun _ _ _ => rfl)
        (fun c' hc => Function.update_of_ne hc _ _) hmono (h.fits c) (h.last c) ?_
      simp only [setPhase, record, Function.update_self]
      exact (hok.quiet hcopied hlen).2

end

end DglAscend.Distributed
