import DglAscend.Graphbolt.Cache.CacheKey
import DglAscend.Lib.Outcome
import DglAscend.Lib.TwoEnded

/-!
# Cache policies (`graphbolt/src/cache_policy.h`, `cache_policy.cc`)

`S3FifoCachePolicy`, `SieveCachePolicy`, `LruCachePolicy` and `ClockCachePolicy` differ in the
lists they keep and in four steps: what a read does to a resident key (`touch`), whether an
inserted key is remembered as a ghost (`eraseGhost`), which list it enters (`pushFront`) and
which node leaves (`victim`).  `PolicyQueues` collects these steps; the members that the classes
repeat word for word (`Read`, `Emplace`, `Insert`, the head of `Evict`) and the templates of
`BaseCachePolicy` are written once over it.

The eviction loops have no bound in the source, so `evict` and everything that calls it takes
fuel; a call returns when some amount of fuel makes it return.
-/

namespace DglAscend.Graphbolt

/-- What a policy keeps besides its map, and the steps in which the policies differ. -/
class PolicyQueues (Q : Type) where
  /-- all nodes of the policy's lists -/
  entries : Q → List CacheKey
  /-- a write through a `CacheKey*` -/
  modify : ℕ → (CacheKey → CacheKey) → Q → Q
  /-- what `Read` and `Emplace` do to a key that is present -/
  touch : ℕ → Q → Q
  /-- `ghost_set_.erase(key)`: whether the key was there, and the queues after it -/
  eraseGhost : ℤ → Q → Bool × Q
  /-- `push_front` into the list for keys that were, or were not, ghosts -/
  pushFront : Bool → CacheKey → Q → Q
  /-- the loop of `Evict`, up to the removal of the node it settles on -/
  victim : ℕ → Q → Outcome CacheError Q CacheKey

/-- A policy: `BaseCachePolicy`, the map `key_to_cache_key_` and the queues.  In the map, `none`
is an absent key and `some none` the sentinel value.  `nextAddr` is the address of the next
node; addresses are not reused. -/
structure CachePolicy (Q : Type) where
  capacity : ℕ
  cacheUsage : ℕ
  keyToCacheKey : ℤ → Option (Option ℕ)
  queues : Q
  nextAddr : ℕ

/-- An element of the tensors that a batch fills: an index into `keys`, the key there, a
position and a pointer. -/
structure BatchCell where
  index : ℕ
  key : ℤ
  position : ℤ
  pointer : Option ℕ
deriving DecidableEq, Repr

/-- The value that a cell of a new tensor is given in the model. -/
def BatchCell.unwritten : BatchCell := ⟨0, 0, 0, none⟩

/-- `(positions, indices, missing_keys, found_ptrs)` -/
structure QueryResult where
  positions : List ℤ
  indices : List ℕ
  missingKeys : List ℤ
  foundPtrs : List (Option ℕ)
deriving DecidableEq, Repr

/-- `(positions, indices, pointers, missing_keys)` -/
structure QueryAndReplaceResult where
  positions : List ℤ
  indices : List ℕ
  pointers : List (Option ℕ)
  missingKeys : List ℤ
deriving DecidableEq, Repr

/-- How many keys of a batch of `QueryAndReplace` were found. -/
def QueryAndReplaceResult.foundCnt (r : QueryAndReplaceResult) : ℕ :=
  r.positions.length - r.missingKeys.length

/-- `(positions, pointers)` -/
structure ReplaceResult where
  positions : List ℤ
  pointers : List (Option ℕ)
deriving DecidableEq, Repr

namespace CachePolicy

variable {Q : Type} [PolicyQueues Q]

open PolicyQueues

/-- The state of a policy after its constructor. -/
def create (capacity : ℕ) (queues : Q) : CachePolicy Q where
  capacity := capacity
  cacheUsage := 0
  keyToCacheKey := fun _ => none
  queues := queues
  nextAddr := 0

/-- The node that the pointer `a` points to. -/
def node? (s : CachePolicy Q) (a : ℕ) : Option CacheKey :=
  (entries s.queues).find? fun c => c.addr = a

/-- Run a step on the queues of a policy. -/
def onQueues {α : Type} (s : CachePolicy Q) (x : Outcome CacheError Q α) :
    Outcome CacheError (CachePolicy Q) α :=
  x.map (fun a _ => a) fun q => { s with queues := q }

/-- `CacheKey::StartRead` through the pointer to `c`: the count is incremented before the check
of its old value. -/
def startRead (c : CacheKey) (s : CachePolicy Q) :
    Outcome CacheError (CachePolicy Q) CacheKey :=
  let s := { s with queues := modify c.addr (CacheKey.addReference 1) s.queues }
  if c.referenceCount < int8Max then .ok c s else .error .tooManyReads s

/-- The common part of `Read` and `Emplace` for a key whose map value is the pointer `a`: touch
the node, and start a read of it unless it is being written. -/
def readNode (a : ℕ) (s : CachePolicy Q) :
    Outcome CacheError (CachePolicy Q) (Option CacheKey) :=
  let s := { s with queues := touch a s.queues }
  match s.node? a with
  | none => .error .danglingPointer s
  | some c => if c.beingWritten then .ok none s else (startRead c s).bind fun c s => .ok (some c) s

/-- `Read(key)`: the node, if the key is found and may be read. -/
def read (key : ℤ) (s : CachePolicy Q) : Outcome CacheError (CachePolicy Q) (Option CacheKey) :=
  match s.keyToCacheKey key with
  | none => .ok none s
  | some none => .error .nullDereference s
  | some (some a) => readNode a s

/-- `Emplace(key)`: an absent key is entered with the sentinel value.  The iterator that the
source returns is the key itself; the value is the node if it can be read. -/
def emplace (key : ℤ) (s : CachePolicy Q) :
    Outcome CacheError (CachePolicy Q) (Option CacheKey) :=
  match s.keyToCacheKey key with
  | none => .ok none { s with keyToCacheKey := Function.update s.keyToCacheKey key (some none) }
  | some none => .error .nullDereference s
  | some (some a) => readNode a s

/-- `Evict()`: an unused slot if there is one, otherwise the slot of the node that leaves. -/
def evict (fuel : ℕ) (s : CachePolicy Q) : Outcome CacheError (CachePolicy Q) ℤ :=
  if s.cacheUsage < s.capacity then
    .ok s.cacheUsage { s with cacheUsage := s.cacheUsage + 1 }
  else
    (s.onQueues (victim fuel s.queues)).bind fun evicted s =>
      .ok evicted.getPos
        { s with keyToCacheKey := Function.update s.keyToCacheKey evicted.getKey none }

/-- `Insert(it)` for the iterator at `key`.  The constructor of `CacheKey` may throw, after the
ghost set has been changed and before anything is pushed. -/
def insert (fuel : ℕ) (key : ℤ) (s : CachePolicy Q) :
    Outcome CacheError (CachePolicy Q) CacheKey :=
  let (inGhostQueue, queues) := eraseGhost key s.queues
  let cacheKey := CacheKey.ofKey s.nextAddr key
  if cacheKey.getKey = key then
    (evict fuel
      { s with
        queues := pushFront inGhostQueue cacheKey queues
        nextAddr := s.nextAddr + 1
        keyToCacheKey :=
          Function.update s.keyToCacheKey key (some (some cacheKey.addr)) }).bind fun pos s =>
      .ok (cacheKey.setPos pos)
        { s with queues := modify cacheKey.addr (CacheKey.setPos pos) s.queues }
  else .error .keyOutOfRange { s with queues := queues }

/-- Whether `key` is resident and not being written, so that reading it starts a read. -/
def readable (key : ℤ) (s : CachePolicy Q) : Bool :=
  match s.keyToCacheKey key with
  | some (some a) => (s.node? a).any fun c => !c.beingWritten
  | _ => false

/-! ## Batches -/

/-- The body of the loop of `QueryImpl` for `keys[i] = key`. -/
def queryStep (out : TwoEnded BatchCell) (x : ℤ × ℕ) (s : CachePolicy Q) :
    Outcome CacheError (CachePolicy Q) (TwoEnded BatchCell) :=
  (read x.1 s).bind fun cacheKey s =>
    match cacheKey with
    | some c => .ok (out.pushFront ⟨x.2, x.1, c.getPos, some c.addr⟩) s
    | none => .ok (out.pushBack ⟨x.2, x.1, int64Min, none⟩) s

def queryImpl (keys : List ℤ) (s : CachePolicy Q) :
    Outcome CacheError (CachePolicy Q) QueryResult :=
  (Outcome.loop queryStep keys.zipIdx (.empty keys.length .unwritten) s).bind fun out s =>
    .ok
      { positions := (out.cells.map BatchCell.position).take out.front
        indices := out.cells.map BatchCell.index
        missingKeys := (out.cells.map BatchCell.key).drop out.front
        foundPtrs := (out.cells.map BatchCell.pointer).take out.front } s

/-- The tensors and the `position_set` of a batch that inserts. -/
structure InsertAcc (α : Type) where
  out : α
  positionSet : List ℤ

/-- Insert the key whose map value is the sentinel, and check that its position is new. -/
def insertUnique (fuel : ℕ) (key : ℤ) (positionSet : List ℤ) (s : CachePolicy Q) :
    Outcome CacheError (CachePolicy Q) CacheKey :=
  (insert fuel key s).bind fun c s =>
    if c.getPos ∈ positionSet then .error .cantInsertAll s else .ok c s

/-- The body of the loop of `QueryAndReplaceImpl` for `keys[i] = key`. -/
def queryAndReplaceStep (fuel : ℕ) (acc : InsertAcc (TwoEnded BatchCell)) (x : ℤ × ℕ)
    (s : CachePolicy Q) :
    Outcome CacheError (CachePolicy Q) (InsertAcc (TwoEnded BatchCell)) :=
  (emplace x.1 s).bind fun canRead s =>
    match canRead with
    | some c => .ok { acc with out := acc.out.pushFront ⟨x.2, x.1, c.getPos, some c.addr⟩ } s
    | none =>
      if s.keyToCacheKey x.1 = some none then
        (insertUnique fuel x.1 acc.positionSet s).bind fun c s =>
          .ok ⟨acc.out.pushBack ⟨x.2, x.1, c.getPos, some c.addr⟩,
            c.getPos :: acc.positionSet⟩ s
      else .ok { acc with out := acc.out.pushBack ⟨x.2, x.1, int64Min, none⟩ } s

def queryAndReplaceImpl (fuel : ℕ) (keys : List ℤ) (s : CachePolicy Q) :
    Outcome CacheError (CachePolicy Q) QueryAndReplaceResult :=
  (Outcome.loop (queryAndReplaceStep fuel) keys.zipIdx
      ⟨.empty keys.length .unwritten, []⟩ s).bind fun acc s =>
    .ok
      { positions := acc.out.cells.map BatchCell.position
        indices := acc.out.cells.map BatchCell.index
        pointers := acc.out.cells.map BatchCell.pointer
        missingKeys := (acc.out.cells.map BatchCell.key).drop acc.out.front } s

/-- The body of the loop of `ReplaceImpl` for `keys[i] = key`.  What `Emplace` says about reading
is dropped. -/
def replaceStep (fuel : ℕ) (acc : InsertAcc ReplaceResult) (x : ℤ × ℕ) (s : CachePolicy Q) :
    Outcome CacheError (CachePolicy Q) (InsertAcc ReplaceResult) :=
  (emplace x.1 s).bind fun _ s =>
    if s.keyToCacheKey x.1 = some none then
      (insertUnique fuel x.1 acc.positionSet s).bind fun c s =>
        .ok ⟨⟨acc.out.positions ++ [c.getPos], acc.out.pointers ++ [some c.addr]⟩,
          c.getPos :: acc.positionSet⟩ s
    else
      .ok { acc with out := ⟨acc.out.positions ++ [int64Min], acc.out.pointers ++ [none]⟩ } s

/-- The loop of `ReplaceImpl` over the keys `xs`. -/
def replaceLoop (fuel : ℕ) (xs : List (ℤ × ℕ)) (s : CachePolicy Q) :
    Outcome CacheError (CachePolicy Q) (InsertAcc ReplaceResult) :=
  Outcome.loop (replaceStep fuel) xs ⟨⟨[], []⟩, []⟩ s

def replaceImpl (fuel : ℕ) (keys : List ℤ) (s : CachePolicy Q) :
    Outcome CacheError (CachePolicy Q) ReplaceResult :=
  (replaceLoop fuel keys.zipIdx s).bind fun acc s => .ok acc.out s

/-- `pointer->EndUse<write>()`, skipped by a writer for the null pointer. -/
def endUse (write : Bool) (pointer : Option ℕ) (s : CachePolicy Q) :
    Outcome CacheError (CachePolicy Q) Unit :=
  match pointer with
  | none => if write then .ok () s else .error .nullDereference s
  | some a =>
    match s.node? a with
    | none => .error .danglingPointer s
    | some _ =>
      .ok () { s with
        queues := modify a (CacheKey.addReference (if write then 1 else -1)) s.queues }

def readingWritingCompletedImpl (write : Bool) (pointers : List (Option ℕ)) (s : CachePolicy Q) :
    Outcome CacheError (CachePolicy Q) Unit :=
  Outcome.loop (fun _ => endUse write) pointers () s

def readingCompleted (pointers : List (Option ℕ)) (s : CachePolicy Q) :
    Outcome CacheError (CachePolicy Q) Unit :=
  readingWritingCompletedImpl false pointers s

def writingCompleted (pointers : List (Option ℕ)) (s : CachePolicy Q) :
    Outcome CacheError (CachePolicy Q) Unit :=
  readingWritingCompletedImpl true pointers s

end CachePolicy

end DglAscend.Graphbolt
