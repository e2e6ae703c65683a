import DglAscend.Graphbolt.Cache.PartitionedRun
import DglAscend.Lib.Store

/-!
# The CPU feature cache (`graphbolt/src/feature_cache.cc`, `impl/cpu_feature_cache.py`)

`FeatureCache` is the storage, `CpuFeatureCache` a storage with a partitioned policy that says
where each key is.  A row is one value; `none` is a row of `torch::empty` that nobody has written.

A reader reads row by row, so it is a function of one key.
-/

namespace DglAscend.Graphbolt

/-- The value of a memory access. -/
def accessed {α : Type} (x : Option α) : Except CacheError α :=
  match x with
  | some a => .ok a
  | none => .error .badMemory

structure FeatureCache (V : Type) where
  tensor : List (Option V)

namespace FeatureCache

variable {V : Type} (c : FeatureCache V)

def create (size : ℕ) : FeatureCache V := ⟨List.replicate size none⟩

/-- The writes of one row to each of the `indices`. -/
def rowWrites {α : Type} (indices : List ℕ) (rows : List α) : List (ℤ × α) :=
  (indices.zip rows).map fun x => ((x.1 : ℤ), x.2)

/-- `Query(positions, indices, size)`: row `indices[i]` of the result is row `positions[i]` of
the storage. -/
def query (positions : List ℤ) (indices : List ℕ) (size : ℕ) :
    Except CacheError (List (Option V)) :=
  if positions.length ≤ indices.length then
    accessed ((loads c.tensor positions).bind fun rows =>
      store (List.replicate size none) (rowWrites indices rows))
  else .error .badMemory

/-- `Replace(positions, values)`: negative positions are skipped. -/
def replace (positions : List ℤ) (values : List V) : Except CacheError (FeatureCache V) :=
  if positions.length = values.length then
    (accessed (store c.tensor
      (((positions.zip values).filter fun x => 0 ≤ x.1).map fun x => (x.1, some x.2)))).map
        FeatureCache.mk
  else .error .sizeMismatch

end FeatureCache

/-- `values[index] = rows` -/
def indexPut {V : Type} (values : List (Option V)) (index : List ℕ) (rows : List V) :
    Except CacheError (List (Option V)) :=
  if index.length = rows.length then
    accessed (store values (FeatureCache.rowWrites index (rows.map some)))
  else .error .sizeMismatch

/-- `CPUFeatureCache` -/
structure CpuFeatureCache (kind : PolicyKind) (V : Type) where
  policy : PartitionedCachePolicy kind
  cache : FeatureCache V
  totalMiss : ℕ
  totalQueries : ℕ

namespace CpuFeatureCache

variable {kind : PolicyKind} {V : Type}

/-- `min_num_cache_items`: each partition needs a slot, and each one of "s3-fifo" ten. -/
def minNumCacheItems (kind : PolicyKind) (numParts : ℕ) : ℕ :=
  numParts * if kind = .s3Fifo then 10 else 1

/-- The size of the storage for `cache_shape[0] = size`. -/
def cacheSize (kind : PolicyKind) (size numParts : ℕ) : ℕ :=
  if size < minNumCacheItems kind numParts then minNumCacheItems kind numParts else size

/-- The constructor. -/
def create (kind : PolicyKind) (size numParts : ℕ) (hsize : cacheSize kind size numParts < 2 ^ 63) :
    Except CacheError (CpuFeatureCache kind V) :=
  (PartitionedCachePolicy.create kind (cacheSize kind size numParts) hsize numParts).map
    fun policy => ⟨policy, .create (cacheSize kind size numParts), 0, 0⟩

variable (c : CpuFeatureCache kind V)

/-- Run a call on the policy. -/
def onPolicy {α : Type} (call : PartitionedCachePolicy kind →
      Outcome CacheError (PartitionedCachePolicy kind) α) :
    Outcome CacheError (CpuFeatureCache kind V) α :=
  (call c.policy).map (fun a _ => a) fun policy => { c with policy := policy }

/-- `query_and_replace(keys, reader_fn, offset)` -/
def queryAndReplace (assign : PartAssignment) (fuel : ℕ) (keys : KeyTensor) (readerFn : ℤ → V)
    (offset : ℤ) : Outcome CacheError (CpuFeatureCache kind V) (List (Option V)) :=
  let c := { c with totalQueries := c.totalQueries + keys.keys.length }
  (c.onPolicy fun s => s.queryAndReplace assign fuel keys offset).bind fun r c =>
    let foundCnt := keys.keys.length - r.missingKeys.length
    (Outcome.ofExcept (c.cache.query (r.positions.take foundCnt) r.indices keys.keys.length)
      c).bind fun values c =>
    (c.onPolicy fun s => s.readingCompleted (r.pointers.take foundCnt) r.foundOffsets).bind
      fun _ c =>
    let c := { c with totalMiss := c.totalMiss + r.missingKeys.length }
    let missingValues := r.missingKeys.map readerFn
    (Outcome.ofExcept (indexPut values (r.indices.drop foundCnt) missingValues) c).bind
      fun values c =>
    (Outcome.ofExcept (c.cache.replace (r.positions.drop foundCnt) missingValues) c).bind
      fun cache c =>
    let c := { c with cache := cache }
    (c.onPolicy fun s => s.writingCompleted (r.pointers.drop foundCnt) r.missingOffsets).bind
      fun _ c => .ok values c

/-- `replace(keys, values, offsets, offset)` -/
def replace (assign : PartAssignment) (fuel : ℕ) (keys : KeyTensor) (values : List V)
    (offsets : Option (List ℤ)) (offset : ℤ) :
    Outcome CacheError (CpuFeatureCache kind V) Unit :=
  (c.onPolicy fun s => s.replace assign fuel keys offsets offset).bind fun r c =>
    (Outcome.ofExcept (c.cache.replace r.positions values) c).bind fun cache c =>
      let c := { c with cache := cache }
      c.onPolicy fun s => s.writingCompleted r.pointers r.offsets

lemma onPolicy_eq_ok {c c' : CpuFeatureCache kind V} {α : Type} {call : PartitionedCachePolicy kind →
      Outcome CacheError (PartitionedCachePolicy kind) α} {a : α} :
    c.onPolicy call = .ok a c' ↔
      ∃ policy, call c.policy = .ok a policy ∧ c' = { c with policy := policy } := by
  rw [onPolicy, Outcome.map_eq_ok]
  constructor
  · rintro ⟨a', policy, hrun, rfl, rfl⟩
    exact ⟨policy, hrun, rfl⟩
  · rintro ⟨policy, hrun, rfl⟩
    exact ⟨a, policy, hrun, rfl, rfl⟩

end CpuFeatureCache

end DglAscend.Graphbolt
