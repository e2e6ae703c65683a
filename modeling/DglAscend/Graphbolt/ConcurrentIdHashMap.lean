import Mathlib.Logic.Relation
import DglAscend.Lib.DisjointWrites
import DglAscend.Lib.Slots

/-!
# The concurrent id hash map

`ConcurrentIdHashMap` of `graphbolt/src/concurrent_id_hash_map.cc` and `UniqueAndCompact` on the CPU.
Several threads insert the ids of an array by compare and swap; a step of the model is one atomic
operation of one thread.  Ids, positions and indices are numbers of the type of the ids, 32 or 64 bits
wide, as in the source.
-/

namespace DglAscend.Graphbolt

/-- `IdType` -/
inductive IdType
  | int32
  | int64
  deriving DecidableEq, Repr

/-- The width of an id. -/
def IdType.bits : IdType → ℕ
  | int32 => 32
  | int64 => 64

/-- An id. -/
abbrev Id (τ : IdType) := BitVec τ.bits

/-- `torch::parallel_for`: a thread takes the elements between two boundaries, and a call with the same
range has the same boundaries again. -/
structure ParallelFor where
  numThreads : ℕ
  bound : ℕ → ℕ → ℕ → ℕ
  first : ∀ s e, s ≤ e → bound s e 0 = s
  last : ∀ s e, s ≤ e → bound s e numThreads = e
  mono : ∀ s e, s ≤ e → ∀ t < numThreads, bound s e t ≤ bound s e (t + 1)

/-- Why an operation does not return. -/
inductive IdMapFailure
  | outOfRange
  | outOfBounds
  | running
  deriving DecidableEq, Repr

variable {τ : IdType}

/-! ## The table -/

/-- `kEmptyKey` -/
def emptyKey : Id τ := -1

/-- `GetMapSize`.  The size for no ids is the conversion of an infinite number. -/
def getMapSize (infinite num : ℕ) : ℕ :=
  if num = 0 then infinite else 2 ^ (1 + Nat.log 2 (num * 3))

/-- `hash_map_`, with its size and `mask_`. -/
structure IdTable (τ : IdType) where
  mask : Id τ
  size : ℕ
  cells : ℕ → Id τ

/-- `pos` and `delta`. -/
structure Probe (τ : IdType) where
  pos : Id τ
  delta : Id τ

namespace IdTable

variable (t : IdTable τ)

/-- An element of `hash_map_`. -/
def load (i : ℤ) : Option (Id τ) := if 0 ≤ i ∧ i < t.size then some (t.cells i.toNat) else none

/-- An element of `hash_map_` is written. -/
def store (i : ℤ) (x : Id τ) : IdTable τ :=
  { t with cells := Function.update t.cells i.toNat x }

/-- The first position for an id. -/
def home (id : Id τ) : Probe τ := ⟨id &&& t.mask, 1⟩

/-- `Next` -/
def next (p : Probe τ) : Probe τ := ⟨(p.pos + p.delta * p.delta) &&& t.mask, p.delta + 1⟩

end IdTable

/-- `getKeyIndex` of a position of the type of the ids. -/
def getKeyIndex (pos : Id τ) : ℤ := (2 * pos).toInt

/-- `getValueIndex` of a position of the type of the ids. -/
def getValueIndex (pos : Id τ) : ℤ := (2 * pos + 1).toInt

/-- `getKeyIndex` in `AttemptInsertAt`, where the position has 64 bits. -/
def attemptIndex (pos : Id τ) : ℤ := (2 * pos.signExtend 64).toInt

/-! ## Inserting the ids -/

/-- Where a thread is: before an `AttemptInsertAt`, or before a `compare_exchange_weak` of the value
with the value that it expects. -/
inductive InsertPhase (τ : IdType)
  | attempt (probe : Probe τ)
  | setMin (pos old : Id τ)

/-- A thread with the ids from `index` on that are left to it. -/
structure InsertWorker (τ : IdType) where
  index : ℕ
  stop : ℕ
  phase : InsertPhase τ

/-- The table and the threads. -/
structure InsertState (τ : IdType) where
  table : IdTable τ
  workers : ℕ → InsertWorker τ

section

variable (ids : List (Id τ))

/-- A thread that begins with `InsertAndSetMin(ids[i], i)`. -/
def startAt (t : IdTable τ) (i stop : ℕ) : InsertWorker τ :=
  ⟨i, stop, .attempt (t.home (ids.getD i 0))⟩

/-- The next atomic operation of `InsertAndSetMin`.  A `compare_exchange_weak` that fails without need
leaves everything as it is and is not a step. -/
def insertStep (t : IdTable τ) (w : InsertWorker τ) : Option (IdTable τ × InsertWorker τ) :=
  let id := ids.getD w.index 0
  let value : Id τ := BitVec.ofNat τ.bits w.index
  match w.phase with
  | .attempt p => do
      let key ← t.load (attemptIndex p.pos)
      if key = emptyKey then
        some (t.store (attemptIndex p.pos) id, { w with phase := .setMin p.pos emptyKey })
      else if key = id then some (t, { w with phase := .setMin p.pos emptyKey })
      else some (t, { w with phase := .attempt (t.next p) })
  | .setMin pos old => do
      let current ← t.load (getValueIndex pos)
      if current = old then
        some (t.store (getValueIndex pos) value, startAt ids t (w.index + 1) w.stop)
      else if current = emptyKey ∨ value.slt current then
        some (t, { w with phase := .setMin pos current })
      else some (t, startAt ids t (w.index + 1) w.stop)

/-- The thread has ids left. -/
def InsertWorker.Runs (w : InsertWorker τ) : Prop := w.index < w.stop

/-- One of `n` threads takes a step. -/
inductive InsertStep (n : ℕ) (s : InsertState τ) : InsertState τ → Prop
  | step {k : ℕ} {t : IdTable τ} {w : InsertWorker τ} (hk : k < n) (hruns : (s.workers k).Runs)
      (hstep : insertStep ids s.table (s.workers k) = some (t, w)) :
      InsertStep n s ⟨t, Function.update s.workers k w⟩

/-- A thread is about to leave the table. -/
def Faults (n : ℕ) (s : InsertState τ) : Prop :=
  ∃ k < n, (s.workers k).Runs ∧ insertStep ids s.table (s.workers k) = none

/-- All ids are inserted. -/
def Inserted (n : ℕ) (s : InsertState τ) : Prop := ∀ k < n, ¬ (s.workers k).Runs

/-- The table before the first id. -/
def emptyTable (infinite : ℕ) : IdTable τ where
  mask := BitVec.ofNat τ.bits (getMapSize infinite ids.length - 1)
  size := 2 * getMapSize infinite ids.length
  cells := fun _ => emptyKey

/-- The threads before the first id. -/
def insertInit (infinite : ℕ) (par : ParallelFor) : InsertState τ where
  table := emptyTable ids infinite
  workers k := startAt ids (emptyTable ids infinite) (par.bound 0 ids.length k)
    (par.bound 0 ids.length (k + 1))

/-- What the threads may come to. -/
def InsertReach (infinite : ℕ) (par : ParallelFor) : InsertState τ → Prop :=
  Relation.ReflTransGen (InsertStep ids par.numThreads) (insertInit ids infinite par)

end

/-! ## Looking up -/

namespace IdTable

variable (t : IdTable τ)

/-- The loop of `MapId` and `Set` over the positions, up to the first key of some kind. -/
def find (ends : Id τ → Bool) : ℕ → Probe τ → Except IdMapFailure (Id τ × Id τ)
  | 0, _ => .error .running
  | fuel + 1, p =>
    match t.load (getKeyIndex p.pos) with
    | none => .error .outOfBounds
    | some key => if ends key then .ok (p.pos, key) else find ends fuel (t.next p)

/-- `MapId` -/
def mapId (fuel : ℕ) (id : Id τ) : Except IdMapFailure (Id τ) := do
  let r ← t.find (fun key => key = emptyKey || key = id) fuel (t.home id)
  if r.2 = emptyKey then .error .outOfRange
  else
    match t.load (getValueIndex r.1) with
    | none => .error .outOfBounds
    | some value => .ok value

/-- `Set` -/
def set (fuel : ℕ) (key value : Id τ) : Except IdMapFailure (IdTable τ) := do
  let r ← t.find (fun k => k = key) fuel (t.home key)
  match t.load (getValueIndex r.1) with
  | none => .error .outOfBounds
  | some _ => .ok (t.store (getValueIndex r.1) value)

lemma set_of_find {fuel : ℕ} {key value old : Id τ} {r : Id τ × Id τ}
    (hfind : t.find (fun k => k = key) fuel (t.home key) = .ok r)
    (hload : t.load (getValueIndex r.1) = some old) :
    t.set fuel key value = .ok (t.store (getValueIndex r.1) value) := by
  simp only [set, hfind, hload, bind, Except.bind]

end IdTable

/-! ## The unique ids -/

/-- A hash map with its unique ids. -/
structure IdMap (τ : IdType) where
  table : IdTable τ
  uniqueIds : List (Id τ)

section

variable (ids : List (Id τ)) (numSeeds : ℕ)

/-- The valid ids of a thread: those whose value is their own index. -/
def validIn (fuel : ℕ) (t : IdTable τ) (s e : ℕ) : Except IdMapFailure (List ℕ) :=
  (List.range' s (e - s)).filterM fun i => do
    let value ← t.mapId fuel (ids.getD i 0)
    .ok (value.toInt = i)

/-- The valid ids of all threads. -/
def validIds (fuel : ℕ) (t : IdTable τ) (par : ParallelFor) : Except IdMapFailure (List (List ℕ)) :=
  (List.range par.numThreads).mapM fun k =>
    validIn ids fuel t (par.bound numSeeds ids.length k) (par.bound numSeeds ids.length (k + 1))

/-- `block_offset[k]` after `partial_sum`. -/
def blockOffset (valid : List (List ℕ)) (k : ℕ) : ℕ := ((valid.take k).map List.length).sum

/-- The valid ids with their positions in `unique_ids_`. -/
def placed (valid : List (List ℕ)) : List (ℕ × ℕ) :=
  valid.zipIdx.flatMap fun v => v.1.zipIdx (blockOffset valid v.2 + numSeeds)

/-- The constructor after the insertion of the ids.  `memory` is the uninitialised `unique_ids_`; the
threads write `unique_ids_` in the order `stores` and the values in the order `sets`. -/
def finish (fuel : ℕ) (t : IdTable τ) (memory : List (Id τ)) (stores sets : List (ℕ × ℕ)) :
    Except IdMapFailure (IdMap τ) := do
  let uniqueIds := applyWrites (ids.take numSeeds ++ memory.drop numSeeds)
    (stores.map fun w => (w.2, ids.getD w.1 0))
  let table ← sets.foldlM (fun t w => t.set fuel (ids.getD w.1 0) (BitVec.ofNat τ.bits w.2)) t
  .ok ⟨table, uniqueIds.take (numSeeds + sets.length)⟩

end

namespace IdMap

variable (m : IdMap τ)

/-- `MapIds` -/
def mapIds (fuel : ℕ) (ids : List (Id τ)) : Except IdMapFailure (List (Id τ)) :=
  ids.mapM (m.table.mapId fuel)

/-- `UniqueAndCompact` with this map of `unique_dst_ids` and `src_ids`. -/
def uniqueAndCompact (fuel : ℕ) (srcIds dstIds : List (Id τ)) :
    Except IdMapFailure (List (Id τ) × List (Id τ) × List (Id τ) × List ℕ) := do
  let compactedSrc ← m.mapIds fuel srcIds
  let compactedDst ← m.mapIds fuel dstIds
  .ok (m.uniqueIds, compactedSrc, compactedDst, [0, m.uniqueIds.length])

end IdMap

end DglAscend.Graphbolt
