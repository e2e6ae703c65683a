import DglAscend.Lib.Loops
import DglAscend.Lib.StdAlgorithms
import DglAscend.Lib.Store
import DglAscend.Partition.BookIds

/-!
# The key-value store

`KVServer` and `KVClient` of `distributed/kvstore.py`, with `fast_pull` of `distributed/rpc.py` and
`_CAPI_DGLRPCFastPull` of `rpc/rpc.cc`.  Each machine keeps the rows of its partition in memory that its
servers and clients share; the rows of a tensor are values of a type `α`.

A tensor that is split as its policy says (`Hosts`) has one row for each id, on one machine.  A server that is
asked for ids of its machine gives their rows, and one that is sent rows writes those and no other.
-/

namespace DglAscend.Distributed

open Partition

variable {κ : Type} [DecidableEq κ] {α β : Type}

/-- What stops a call: an assertion, an exception, a `CHECK`, or an access outside of what was written. -/
inductive Failure
  | assertion (text : String)
  | runtimeError (text : String)
  | keyError (name : String)
  | indexError
  | check (text : String)
  | memory
  | book
  deriving DecidableEq

/-- The value, or `raise`. -/
def orRaise (e : Failure) : Option β → Except Failure β
  | some x => .ok x
  | none => .error e

/-! ## Partition policies -/

/-- `PartitionPolicy`, for the nodes or for the edges of a book. -/
structure PartitionPolicy (κ : Type) where
  partitionBook : Tables κ
  dflt : κ
  typeName : κ
  partId : ℕ

namespace PartitionPolicy

variable (p : PartitionPolicy κ)

/-- `to_partid`. -/
def toPartid (ids : List ℤ) : Except Failure (List ℕ) :=
  ids.mapM fun id => orRaise .book (p.partitionBook.id2partid p.dflt id p.typeName)

/-- `to_local`. -/
def toLocal (ids : List ℤ) : Except Failure (List ℤ) :=
  ids.mapM fun id => orRaise .book
    (p.partitionBook.id2localid p.dflt p.partId id p.partId p.typeName)

end PartitionPolicy

/-! ## Handlers -/

/-- The tensors of a machine. -/
abbrev DataStore (α : Type) := String → Option (List α)

/-- The place of an index, which counts from the end when it is negative. -/
def place (size : ℕ) (i : ℤ) : Option ℕ :=
  if 0 ≤ i ∧ i < size then some i.toNat
  else if i < 0 ∧ 0 ≤ i + size then some (i + size).toNat
  else none

/-- `default_pull_handler`. -/
def defaultPullHandler (target : DataStore α) (name : String) (ids : List ℤ) :
    Except Failure (List α) := do
  let rows ← orRaise (.keyError name) (target name)
  ids.mapM fun i => orRaise .indexError ((place rows.length i).bind (rows[·]?))

/-- `default_push_handler`, for as many rows as ids.  Rows for one index are written in any order. -/
def defaultPushHandler (order : AnyOrder (ℤ × α)) (target : DataStore α) (name : String)
    (ids : List ℤ)
    (data : List α) : Except Failure (DataStore α) := do
  let rows ← orRaise (.keyError name) (target name)
  let places ← ids.mapM fun i => orRaise .indexError ((place rows.length i).map Int.ofNat)
  let rows ← orRaise .indexError (store rows (order.run (places.zip data)))
  return Function.update target name (some rows)

/-- A pull handler: the default, or one that the user registered. -/
inductive PullHandler (α : Type)
  | default
  | udf (f : DataStore α → String → List ℤ → Except Failure (List α))

/-- Call a pull handler. -/
def PullHandler.run : PullHandler α → DataStore α → String → List ℤ → Except Failure (List α)
  | .default => defaultPullHandler
  | .udf f => f

/-- A push handler. -/
inductive PushHandler (α : Type)
  | default (order : AnyOrder (ℤ × α))
  | udf (f : DataStore α → String → List ℤ → List α → Except Failure (DataStore α))

/-- Call a push handler. -/
def PushHandler.run : PushHandler α → DataStore α → String → List ℤ → List α →
    Except Failure (DataStore α)
  | .default order => defaultPushHandler order
  | .udf f => f

/-! ## Servers -/

/-- The servers of all machines.  Server `s` is on machine `s / groupCount`. -/
structure Cluster (κ α : Type) where
  machineCount : ℕ
  groupCount : ℕ
  partPolicy : ℕ → String → Option (PartitionPolicy κ)
  dataStore : ℕ → DataStore α
  pullHandlers : String → Option (PullHandler α)
  pushHandlers : String → Option (PushHandler α)

/-- `PullResponse`. -/
structure PullResponse (α : Type) where
  serverId : ℕ
  dataTensor : List α

namespace Cluster

variable (kv : Cluster κ α)

/-- The checks of `process_request`. -/
def findPolicy (machine : ℕ) (name : String) : Except Failure (PartitionPolicy κ) := do
  let policy ← orRaise (.runtimeError ("KVServer cannot find partition policy with name: " ++ name))
    (kv.partPolicy machine name)
  let _ ← orRaise (.runtimeError ("KVServer Cannot find data tensor with name: " ++ name))
    (kv.dataStore machine name)
  return policy

/-- `PullRequest.process_request`, on server `s`. -/
def processPull (s : ℕ) (name : String) (ids : List ℤ) : Except Failure (PullResponse α) := do
  let policy ← kv.findPolicy (s / kv.groupCount) name
  let localId ← policy.toLocal ids
  let handler ← orRaise (.keyError name) (kv.pullHandlers name)
  let data ← handler.run (kv.dataStore (s / kv.groupCount)) name localId
  return ⟨s, data⟩

/-- A handler has written the tensors of a machine. -/
def put (machine : ℕ) (target : DataStore α) : Cluster κ α :=
  { kv with dataStore := Function.update kv.dataStore machine target }

omit [DecidableEq κ] in
@[simp] lemma put_dataStore (machine : ℕ) (target : DataStore α) :
    (kv.put machine target).dataStore = Function.update kv.dataStore machine target := rfl

/-- `PushRequest.process_request`, on server `s`. -/
def processPush (s : ℕ) (name : String) (ids : List ℤ) (data : List α) :
    Except Failure (Cluster κ α) := do
  let policy ← kv.findPolicy (s / kv.groupCount) name
  let localId ← policy.toLocal ids
  let handler ← orRaise (.keyError name) (kv.pushHandlers name)
  let target ← handler.run (kv.dataStore (s / kv.groupCount)) name localId data
  return kv.put (s / kv.groupCount) target

end Cluster

/-! ## The fast path of `pull` -/

/-- What the first loop of `_CAPI_DGLRPCFastPull` finds: the local rows, and for each machine the ids that it
is asked for, all with their positions among the ids. -/
structure FastPull where
  locals : List (ℕ × ℕ)
  remote : ℕ → List (ℤ × ℕ)

namespace FastPull

/-- Before the loop. -/
def empty : FastPull := ⟨[], fun _ => []⟩

/-- The loop over the ids, from position `i` on; `localIds` are the local ids that are left. -/
def split (machine rowCount machineCount : ℕ) :
    List (ℤ × ℕ) → ℕ → List ℤ → FastPull → Except Failure FastPull
  | [], _, _, pull => .ok pull
  | (id, part) :: items, i, localIds, pull =>
    if part = machine then
      match localIds with
      | [] => .error .memory
      | l :: localIds =>
        -- The local ids are read as unsigned numbers.
        if 0 ≤ l ∧ l < rowCount then
          split machine rowCount machineCount items (i + 1) localIds
            { pull with locals := pull.locals ++ [(l.toNat, i)] }
        else .error (.check "")
    else if part < machineCount then
      split machine rowCount machineCount items (i + 1) localIds
        { pull with remote := Function.update pull.remote part (pull.remote part ++ [(id, i)]) }
    else .error (.check "Invalid partition ID.")

/-- The messages: a machine, and the ids that it is asked for. -/
def messages (pull : FastPull) (machineCount : ℕ) : List (ℕ × List ℤ) :=
  ((List.range machineCount).filter fun m => pull.remote m ≠ []).map
    fun m => (m, (pull.remote m).map Prod.fst)

/-- `memcpy` of rows to their positions. -/
def copy (rows : List α) : List (ℕ × ℕ) → List (Option α) → Except Failure (List (Option α))
  | [], result => .ok result
  | (n, i) :: places, result =>
    match rows[n]? with
    | none => .error .memory
    | some x => copy rows places (result.set i (some x))

/-- A message has come. -/
def receive (pull : FastPull) (groupCount : ℕ) (result : List (Option α))
    (response : PullResponse α) :
    Except Failure (List (Option α)) :=
  copy response.dataTensor
    ((pull.remote (response.serverId / groupCount)).zipIdx.map fun x => (x.2, x.1.2)) result

end FastPull

/-- `_CAPI_DGLRPCGetGlobalIDFromLocalPartition`. -/
def globalIdFromLocalPartition (ids : List ℤ) (partId : List ℕ) (machine : ℕ) : List ℤ :=
  ((ids.zip partId).filter fun x => x.2 = machine).map Prod.fst

namespace Cluster

variable (kv : Cluster κ α)

/-- `fast_pull` up to the messages, on machine `home`: what it found. -/
def startPull (home : ℕ) (name : String) (ids : List ℤ) : Except Failure FastPull := do
  let policy ← orRaise (.keyError name) (kv.partPolicy home name)
  let partId ← policy.toPartid ids
  let localData ← orRaise (.keyError name) (kv.dataStore home name)
  let localId ← policy.toLocal (globalIdFromLocalPartition ids partId home)
  FastPull.split home localData.length kv.machineCount (ids.zip partId) 0 localId FastPull.empty

/-- The copy of the local rows. -/
def copyLocal (home : ℕ) (name : String) (pull : FastPull) (result : List (Option α)) :
    Except Failure (List (Option α)) := do
  let localData ← orRaise (.keyError name) (kv.dataStore home name)
  FastPull.copy localData pull.locals result

/-- `fast_pull`: the request to machine `m` goes to server `pick m`. -/
def fastPull (home : ℕ) (pick : ℕ → ℕ) (arrive : AnyOrder (PullResponse α)) (name : String)
    (ids : List ℤ) : Except Failure (List α) := do
  let pull ← kv.startPull home name ids
  let responses ← (pull.messages kv.machineCount).mapM fun m => kv.processPull (pick m.1) name m.2
  let result ← kv.copyLocal home name pull (List.replicate ids.length none)
  let result ← (arrive.run responses).foldlM (pull.receive kv.groupCount) result
  result.mapM (orRaise .memory)

end Cluster

/-! ## Sorting by machines -/

/-- `np.argsort`: the positions in an order of the numbers, equal numbers in any order. -/
structure Argsort where
  run : List ℕ → List ℕ
  perm : ∀ l, (run l).Perm (List.range l.length)
  sorted : ∀ l, ((run l).map (l.getD · 0)).Pairwise (· ≤ ·)

/-- The elements at the positions. -/
def gather (l : List β) (positions : List ℕ) : List β := positions.filterMap (l[·]?)

/-- `np.unique` with `return_counts`. -/
def uniqueCounts (l : List ℕ) : List (ℕ × ℕ) :=
  (l.dedup.insertionSort (· ≤ ·)).map fun m => (m, l.count m)

/-- The slices of the loops over the machines. -/
def slices : List (ℕ × ℕ) → List β → List (ℕ × List β)
  | [], _ => []
  | (machine, count) :: counts, l => (machine, l.take count) :: slices counts (l.drop count)

namespace Cluster

variable (kv : Cluster κ α)

/-- The pull of the own ids, which runs the handler of the client. -/
def localPull (home : ℕ) (name : String) (handler : PullHandler α) (ids : List ℤ) :
    Except Failure (PullResponse α) := do
  let policy ← orRaise (.keyError name) (kv.partPolicy home name)
  let localId ← policy.toLocal ids
  let data ← handler.run (kv.dataStore home) name localId
  return ⟨home * kv.groupCount, data⟩

/-- `pull` with a handler that the user registered. -/
def slowPull (home : ℕ) (pick : ℕ → ℕ) (arrive : AnyOrder (PullResponse α)) (argsort : Argsort)
    (handler : PullHandler α) (name : String) (ids : List ℤ) : Except Failure (List α) := do
  let policy ← orRaise (.keyError name) (kv.partPolicy home name)
  let machineId ← policy.toPartid ids
  let sortedId := argsort.run machineId
  let backSortedId := argsort.run sortedId
  let partials := slices (uniqueCounts machineId) (gather ids sortedId)
  let others ← (partials.filter fun x => x.1 ≠ home).mapM fun x =>
    kv.processPull (pick x.1) name x.2
  let own ← (partials.filter fun x => x.1 = home).mapM fun x => kv.localPull home name handler x.2
  let responseList := (own ++ arrive.run others).insertionSort fun r r' => r.serverId ≤ r'.serverId
  -- `F.cat` takes at least one tensor.
  if responseList = [] then .error (.runtimeError "")
  else
    let dataTensor := responseList.flatMap PullResponse.dataTensor
    backSortedId.mapM fun i => orRaise .indexError dataTensor[i]?

/-- `KVClient.pull`, on machine `home`. -/
def pull (home : ℕ) (pick : ℕ → ℕ) (arrive : AnyOrder (PullResponse α)) (argsort : Argsort)
    (name : String) (ids : List ℤ) : Except Failure (List α) := do
  if name = "" then .error (.assertion "name cannot be empty.")
  else
    match ← orRaise (.keyError name) (kv.pullHandlers name) with
    | .default => kv.fastPull home pick arrive name ids
    | .udf f => kv.slowPull home pick arrive argsort (.udf f) name ids

/-! ## `push` -/

/-- The slices that `push` sends, and the one of the own machine. -/
def startPush (home : ℕ) (argsort : Argsort) (name : String) (ids : List ℤ) (data : List α) :
    Except Failure (List (ℕ × List (ℤ × α)) × List (ℕ × List (ℤ × α))) := do
  if name = "" then .error (.assertion "name cannot be empty.")
  else if ids.length ≠ data.length then
    .error (.assertion "The data must has the same row size with ID.")
  else
    let policy ← orRaise (.keyError name) (kv.partPolicy home name)
    let machineId ← policy.toPartid ids
    let sortedId := argsort.run machineId
    let partials := slices (uniqueCounts machineId) (gather (ids.zip data) sortedId)
    return (partials.filter fun x => x.1 ≠ home, partials.filter fun x => x.1 = home)

/-- The local push. -/
def localPush (home : ℕ) (name : String) (ws : List (ℤ × α)) : Except Failure (Cluster κ α) := do
  let policy ← orRaise (.keyError name) (kv.partPolicy home name)
  let localId ← policy.toLocal (ws.map Prod.fst)
  let handler ← orRaise (.keyError name) (kv.pushHandlers name)
  let target ← handler.run (kv.dataStore home) name localId (ws.map Prod.snd)
  return kv.put home target

end Cluster

/-! ## A partitioned tensor -/

namespace PartitionPolicy

variable (p : PartitionPolicy κ)

/-- The machine of an id. -/
def owner (id : ℤ) : ℕ := (p.partitionBook.id2partid p.dflt id p.typeName).getD 0

/-- The row of an id on its machine. -/
def offset (id : ℤ) : ℕ :=
  ((p.partitionBook.id2localid p.dflt (p.owner id) id (p.owner id) p.typeName).getD 0).toNat

/-- The policy of the same ids on another machine. -/
def onMachine (m : ℕ) : PartitionPolicy κ := { p with partId := m }

end PartitionPolicy

/-- The tensor `name` is split between the machines as the policy says, and has the rows of `table`. -/
structure Hosts (kv : Cluster κ α) (name : String) (p : PartitionPolicy κ) (n : ℤ) (table : ℤ → α) :
    Prop where
  pos : 0 < kv.machineCount
  total : p.partitionBook.total p.dflt p.typeName = some n
  policy : ∀ m < kv.machineCount, kv.partPolicy m name = some (p.onMachine m)
  partitioned : ∀ m < kv.machineCount,
    Partitioned p.partitionBook p.dflt kv.machineCount m p.typeName
  data : ∀ m < kv.machineCount, ∃ ids, p.partitionBook.partid2ids p.dflt m p.typeName = some ids ∧
    kv.dataStore m name = some (ids.map table)

/-- The ids of a tensor. -/
def Valid (n : ℤ) (ids : List ℤ) : Prop := ∀ id ∈ ids, 0 ≤ id ∧ id < n

instance (n : ℤ) (ids : List ℤ) : Decidable (Valid n ids) :=
  inferInstanceAs (Decidable (∀ id ∈ ids, _))

variable {m : ℕ} {ids : List ℤ}

namespace Hosts

variable {kv : Cluster κ α} {name : String} {p : PartitionPolicy κ} {n : ℤ} {table : ℤ → α}

section

variable (h : Hosts kv name p n table)
include h

/-- The ids of a machine, and the row of each of them. -/
lemma pieces (hm : m < kv.machineCount) :
    ∃ ids, p.partitionBook.partid2ids p.dflt m p.typeName = some ids ∧
      kv.dataStore m name = some (ids.map table) ∧
      (∀ id ∈ ids, 0 ≤ id ∧ id < n ∧ p.partitionBook.id2partid p.dflt id p.typeName = some m) ∧
      ∀ k (hk : k < ids.length),
        p.partitionBook.id2localid p.dflt m ids[k] m p.typeName = some (k : ℤ) := by
  obtain ⟨ids, hids, hdata⟩ := h.data m hm
  obtain ⟨⟨n', pieces, htotal, hpieces, hflat, howner, hlocal⟩⟩ := h.partitioned m hm
  obtain rfl : n' = n := Option.some.inj (htotal.symm.trans h.total)
  obtain rfl : pieces m = ids := Option.some.inj ((hpieces m hm).symm.trans hids)
  refine ⟨pieces m, hids, hdata, fun id hid => ?_, fun k hk => ?_⟩
  · have hmem : id ∈ arange 0 n' := hflat ▸ List.mem_flatMap.2 ⟨m, List.mem_range.2 hm, hid⟩
    exact ⟨(mem_arange.1 hmem).1, (mem_arange.1 hmem).2, howner m hm id hid⟩
  · have hget := congrArg (·[k]?) hlocal
    simpa [hk, arange] using hget

lemma exists_piece {id : ℤ} (h0 : 0 ≤ id) (hlt : id < n) :
    ∃ m < kv.machineCount, ∃ ids, p.partitionBook.partid2ids p.dflt m p.typeName = some ids ∧
      id ∈ ids := by
  obtain ⟨⟨n', pieces, htotal, hpieces, hflat, -, -⟩⟩ := h.partitioned 0 h.pos
  obtain rfl : n' = n := Option.some.inj (htotal.symm.trans h.total)
  have hmem : id ∈ (List.range kv.machineCount).flatMap pieces := hflat ▸ mem_arange.2 ⟨h0, hlt⟩
  obtain ⟨m, hm, hid⟩ := List.mem_flatMap.1 hmem
  exact ⟨m, List.mem_range.1 hm, pieces m, hpieces m (List.mem_range.1 hm), hid⟩

/-- **The place of an id**: its machine, and the row there. -/
lemma place_of {id : ℤ} (h0 : 0 ≤ id) (hlt : id < n) : p.owner id < kv.machineCount ∧
      p.partitionBook.id2partid p.dflt id p.typeName = some (p.owner id) ∧
      p.partitionBook.id2localid p.dflt (p.owner id) id (p.owner id) p.typeName =
        some (p.offset id : ℤ) ∧
      ∃ ids, p.partitionBook.partid2ids p.dflt (p.owner id) p.typeName = some ids ∧
        kv.dataStore (p.owner id) name = some (ids.map table) ∧ ids[p.offset id]? = some id := by
  obtain ⟨m, hm, ids', hids', hmem⟩ := h.exists_piece h0 hlt
  obtain ⟨ids, hids, hdata, howner, hlocal⟩ := h.pieces hm
  obtain rfl : ids' = ids := Option.some.inj (hids'.symm.trans hids)
  have hm' : p.owner id = m := by rw [PartitionPolicy.owner, (howner id hmem).2.2, Option.getD_some]
  obtain ⟨k, hk, hget⟩ := List.mem_iff_getElem.1 hmem
  have hloc := hlocal k hk
  rw [hget] at hloc
  have hoff : p.offset id = k := by
    rw [PartitionPolicy.offset, hm', hloc, Option.getD_some, Int.toNat_natCast]
  rw [hm', hoff]
  exact ⟨hm, (howner id hmem).2.2, hloc, ids', hids, hdata,
    by rw [List.getElem?_eq_getElem hk, hget]⟩

lemma toPartid (m : ℕ) (hids : Valid n ids) :
    (p.onMachine m).toPartid ids = .ok (ids.map p.owner) := by
  apply mapM_ok
  intro id hid
  obtain ⟨-, hpart, -⟩ := h.place_of (hids id hid).1 (hids id hid).2
  show orRaise _ (p.partitionBook.id2partid p.dflt id p.typeName) = _
  rw [hpart]
  rfl

lemma toLocal (hids : Valid n ids) (hm : ∀ id ∈ ids, p.owner id = m) :
    (p.onMachine m).toLocal ids = .ok (ids.map fun id => (p.offset id : ℤ)) := by
  apply mapM_ok
  intro id hid
  obtain ⟨-, -, hlocal, -⟩ := h.place_of (hids id hid).1 (hids id hid).2
  show orRaise _ (p.partitionBook.id2localid p.dflt m id m p.typeName) = _
  rw [← hm id hid, hlocal]
  rfl

end

end Hosts

/-! ## One request -/

lemma place_natCast {size k : ℕ} (h : k < size) : place size (k : ℤ) = some k := by
  rw [place, if_pos ⟨Int.natCast_nonneg k, Int.ofNat_lt.2 h⟩, Int.toNat_natCast]

/-- The handler gives the rows of `row` for the ids of one machine. -/
def Answers (kv : Cluster κ α) (name : String) (p : PartitionPolicy κ) (n : ℤ)
    (handler : PullHandler α)
    (row : ℤ → α) : Prop :=
  ∀ m < kv.machineCount, ∀ ids, Valid n ids → (∀ id ∈ ids, p.owner id = m) →
    handler.run (kv.dataStore m) name (ids.map fun id => (p.offset id : ℤ)) = .ok (ids.map row)

/-- `table` after rows were written to some ids, in any order. -/
structure Written (table : ℤ → α) (ws : List (ℤ × α)) (table' : ℤ → α) : Prop where
  frame : ∀ id ∉ ws.map Prod.fst, table' id = table id
  written : ∀ id ∈ ws.map Prod.fst, (id, table' id) ∈ ws

variable {ws : List (ℤ × α)}

/-- **Rows that were written** where the rows of the ids `piece` are. -/
lemma exists_written_of_stored {piece : List ℤ} {offset : ℤ → ℕ} {table : ℤ → α}
    {writes : List (ℤ × α)} {rows : List α} (h : Stored (piece.map table) writes rows)
    (hwrites : writes.Perm (ws.map fun w => ((offset w.1 : ℤ), w.2)))
    (hplace : ∀ id ∈ ws.map Prod.fst, piece[offset id]? = some id)
    (hoffset : ∀ k (hk : k < piece.length), offset piece[k] = k) :
    ∃ table', rows = piece.map table' ∧ Written table ws table' := by
  have hmem (w : ℤ × α) (hw : w ∈ ws) : w.1 ∈ ws.map Prod.fst := List.mem_map_of_mem hw
  let table' : ℤ → α := fun id =>
    if id ∈ ws.map Prod.fst then (rows[offset id]?).getD (table id) else table id
  have hin (id : ℤ) (hid : id ∈ ws.map Prod.fst) :
      (id, table' id) ∈ ws ∧ rows[offset id]? = some (table' id) := by
    obtain ⟨w, hw, rfl⟩ := List.mem_map.1 hid
    obtain ⟨w', hw', heq, hload⟩ := h.written ((offset w.1 : ℤ), w.2)
      (hwrites.mem_iff.2 (List.mem_map_of_mem hw))
    obtain ⟨v, hv, rfl⟩ := List.mem_map.1 (hwrites.mem_iff.1 hw')
    have hsame : v.1 = w.1 := by
      have hv' := hplace v.1 (hmem v hv)
      rw [Int.ofNat_inj.1 heq, hplace w.1 hid] at hv'
      exact (Option.some.inj hv').symm
    rw [load_natCast] at hload
    have htable : table' w.1 = v.2 := by
      show (if _ then _ else _) = _
      rw [if_pos hid, hload, Option.getD_some]
    rw [htable, ← hsame]
    exact ⟨hv, by rw [hsame, hload]⟩
  have hout (id : ℤ) (hid : id ∉ ws.map Prod.fst) : table' id = table id := if_neg hid
  refine ⟨table', ?_, hout, fun id hid => (hin id hid).1⟩
  apply List.ext_getElem?
  intro k
  by_cases hk : k < piece.length
  · rw [List.getElem?_map, List.getElem?_eq_getElem hk, Option.map_some]
    by_cases hid : piece[k] ∈ ws.map Prod.fst
    · rw [← (hin _ hid).2, hoffset k hk]
    · rw [hout _ hid, ← load_natCast, h.frame, load_natCast, List.getElem?_map,
        List.getElem?_eq_getElem hk, Option.map_some]
      -- A write to row `k` would be one to `piece[k]`.
      intro w hw heq
      obtain ⟨v, hv, rfl⟩ := List.mem_map.1 (hwrites.mem_iff.1 hw)
      have hv' := hplace v.1 (hmem v hv)
      rw [Int.ofNat_inj.1 heq, List.getElem?_eq_getElem hk] at hv'
      exact hid (Option.some.inj hv' ▸ hmem v hv)
  · rw [List.getElem?_eq_none (by rw [h.length_eq, List.length_map]; omega),
      List.getElem?_eq_none (by rw [List.length_map]; omega)]

namespace Hosts

variable {kv : Cluster κ α} {name : String} {p : PartitionPolicy κ} {n : ℤ} {table : ℤ → α}

section

variable (h : Hosts kv name p n table)
include h

lemma answers_default : Answers kv name p n .default table := by
  intro m hm ids hids howner
  obtain ⟨piece, hpiece, hdata, -⟩ := h.pieces hm
  show defaultPullHandler (kv.dataStore m) name _ = _
  rw [defaultPullHandler, hdata]
  show (ids.map fun id => (p.offset id : ℤ)).mapM _ = _
  rw [List.mapM_map]
  apply mapM_ok
  intro id hid
  obtain ⟨-, -, -, piece', hpiece', -, hget⟩ := h.place_of (hids id hid).1 (hids id hid).2
  rw [howner id hid] at hpiece'
  obtain rfl : piece' = piece := Option.some.inj (hpiece'.symm.trans hpiece)
  have hlt : p.offset id < (piece'.map table).length := by
    rw [List.length_map]
    exact (List.getElem?_eq_some_iff.1 hget).1
  rw [Function.comp_apply, place_natCast hlt, Option.bind_some, List.getElem?_map, hget]
  rfl

lemma findPolicy (hm : m < kv.machineCount) : kv.findPolicy m name = .ok (p.onMachine m) := by
  obtain ⟨ids, -, hdata⟩ := h.data m hm
  rw [Cluster.findPolicy, h.policy m hm, hdata]
  rfl

/-- **A server answers** with the rows of the ids. -/
lemma processPull_eq {handler : PullHandler α} {row : ℤ → α}
    (hhandler : kv.pullHandlers name = some handler) (hrow : Answers kv name p n handler row)
    {s : ℕ} (hs : s / kv.groupCount < kv.machineCount) (hids : Valid n ids)
    (howner : ∀ id ∈ ids, p.owner id = s / kv.groupCount) :
    kv.processPull s name ids = .ok ⟨s, ids.map row⟩ := by
  have hrun := hrow _ hs ids hids howner
  simp only [Cluster.processPull, h.findPolicy hs, h.toLocal hids howner, hhandler, orRaise, bind,
    Except.bind, hrun]
  rfl

/-- **The default handler** writes the rows of the ids of one machine. -/
lemma exists_pushed (order : AnyOrder (ℤ × α)) (hm : m < kv.machineCount)
    (hids : Valid n (ws.map Prod.fst)) (howner : ∀ id ∈ ws.map Prod.fst, p.owner id = m) :
    ∃ target table', defaultPushHandler order (kv.dataStore m) name
        ((ws.map Prod.fst).map fun id => (p.offset id : ℤ)) (ws.map Prod.snd) = .ok target ∧
      (∀ name' ≠ name, target name' = kv.dataStore m name') ∧
      Hosts (kv.put m target) name p n table' ∧ Written table ws table' := by
  obtain ⟨piece, hpiece, hdata, hpart, hlocal⟩ := h.pieces hm
  have hplace (id : ℤ) (hid : id ∈ ws.map Prod.fst) : piece[p.offset id]? = some id := by
    obtain ⟨-, -, -, piece', hpiece', -, hget⟩ := h.place_of (hids id hid).1 (hids id hid).2
    rw [howner id hid] at hpiece'
    rwa [← Option.some.inj (hpiece'.symm.trans hpiece)]
  have hown (id : ℤ) (hid : id ∈ piece) : p.owner id = m := by
    rw [PartitionPolicy.owner, (hpart id hid).2.2, Option.getD_some]
  have hoffset (k : ℕ) (hk : k < piece.length) : p.offset piece[k] = k := by
    rw [PartitionPolicy.offset, hown _ (List.getElem_mem hk), hlocal k hk, Option.getD_some,
      Int.toNat_natCast]
  have hlt (id : ℤ) (hid : id ∈ ws.map Prod.fst) : p.offset id < (piece.map table).length := by
    rw [List.length_map]
    exact (List.getElem?_eq_some_iff.1 (hplace id hid)).1
  set writes := ws.map fun w => ((p.offset w.1 : ℤ), w.2) with hwrites
  obtain ⟨rows, hstore, hstored⟩ := exists_stored (piece.map table) (order.run writes) fun w hw => by
    obtain ⟨w', hw', rfl⟩ := List.mem_map.1 ((order.perm writes).mem_iff.1 hw)
    exact ⟨Int.natCast_nonneg _, Int.ofNat_lt.2 (hlt _ (List.mem_map_of_mem hw'))⟩
  have hplaces : ((ws.map Prod.fst).map fun id => (p.offset id : ℤ)).mapM
      (fun i => orRaise Failure.indexError ((place (piece.map table).length i).map Int.ofNat)) =
        .ok ((ws.map Prod.fst).map fun id => (p.offset id : ℤ)) := by
    rw [List.mapM_map]
    apply mapM_ok
    intro id hid
    rw [Function.comp_apply, place_natCast (hlt id hid)]
    rfl
  have hrun : defaultPushHandler order (kv.dataStore m) name
      ((ws.map Prod.fst).map fun id => (p.offset id : ℤ)) (ws.map Prod.snd) =
        .ok (Function.update (kv.dataStore m) name (some rows)) := by
    have hzip : ((ws.map Prod.fst).map fun id => (p.offset id : ℤ)).zip (ws.map Prod.snd) = writes := by
      rw [List.map_map, List.zip_map']
      rfl
    simp only [defaultPushHandler, hdata, orRaise, bind, Except.bind] at hplaces ⊢
    rw [hplaces]
    simp only [hzip, hstore]
    rfl
  obtain ⟨table', hrows, hwritten⟩ :=
    exists_written_of_stored hstored (order.perm writes) hplace hoffset
  refine ⟨_, table', hrun, fun name' hne => Function.update_of_ne hne _ _, ?_, hwritten⟩
  refine ⟨h.pos, h.total, h.policy, h.partitioned, fun m' hm' => ?_⟩
  by_cases hmm : m' = m
  · subst hmm
    exact ⟨piece, hpiece,
      by rw [Cluster.put_dataStore, Function.update_self, Function.update_self, hrows]⟩
  · -- No id of another machine is written.
    obtain ⟨piece', hpiece', hdata', hpart', -⟩ := h.pieces hm'
    refine ⟨piece', hpiece', ?_⟩
    rw [Cluster.put_dataStore, Function.update_of_ne hmm, hdata', Option.some.injEq]
    apply List.map_congr_left
    intro id hid
    refine (hwritten.frame id fun hws => hmm ?_).symm
    rw [← howner id hws, PartitionPolicy.owner, (hpart' id hid).2.2, Option.getD_some]

/-- **A server writes** the rows of its ids, and no other row. -/
lemma exists_processPush {order : AnyOrder (ℤ × α)}
    (hhandler : kv.pushHandlers name = some (.default order)) {s : ℕ}
    (hs : s / kv.groupCount < kv.machineCount) (hids : Valid n (ws.map Prod.fst))
    (howner : ∀ id ∈ ws.map Prod.fst, p.owner id = s / kv.groupCount) :
    ∃ target table', kv.processPush s name (ws.map Prod.fst) (ws.map Prod.snd) =
        .ok (kv.put (s / kv.groupCount) target) ∧
      (∀ name' ≠ name, target name' = kv.dataStore (s / kv.groupCount) name') ∧
      Hosts (kv.put (s / kv.groupCount) target) name p n table' ∧ Written table ws table' := by
  obtain ⟨target, table', hrun, hframe, hhosts, hwritten⟩ := h.exists_pushed order hs hids howner
  refine ⟨target, table', ?_, hframe, hhosts, hwritten⟩
  simp only [Cluster.processPush, h.findPolicy hs, h.toLocal hids howner, hhandler, orRaise, bind,
    Except.bind, PushHandler.run, hrun]
  rfl

lemma exists_localPush {order : AnyOrder (ℤ × α)}
    (hhandler : kv.pushHandlers name = some (.default order)) {home : ℕ}
    (hhome : home < kv.machineCount) (hids : Valid n (ws.map Prod.fst))
    (howner : ∀ id ∈ ws.map Prod.fst, p.owner id = home) :
    ∃ target table', kv.localPush home name ws = .ok (kv.put home target) ∧
      (∀ name' ≠ name, target name' = kv.dataStore home name') ∧
      Hosts (kv.put home target) name p n table' ∧ Written table ws table' := by
  obtain ⟨target, table', hrun, hframe, hhosts, hwritten⟩ := h.exists_pushed order hhome hids howner
  refine ⟨target, table', ?_, hframe, hhosts, hwritten⟩
  simp only [Cluster.localPush, h.policy home hhome, h.toLocal hids howner, hhandler, orRaise, bind,
    Except.bind, PushHandler.run, hrun]
  rfl

lemma put_of_ne {target : DataStore α} (htarget : target name = kv.dataStore m name) :
    Hosts (kv.put m target) name p n table := by
  refine ⟨h.pos, h.total, h.policy, h.partitioned, fun m' hm' => ?_⟩
  obtain ⟨ids, hids, hdata⟩ := h.data m' hm'
  refine ⟨ids, hids, ?_⟩
  by_cases hmm : m' = m
  · subst hmm
    rw [Cluster.put_dataStore, Function.update_self, htarget, hdata]
  · rw [Cluster.put_dataStore, Function.update_of_ne hmm, hdata]

end

end Hosts

end DglAscend.Distributed
