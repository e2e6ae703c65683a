import DglAscend.Graphbolt.Cache.Policies
import DglAscend.Lib.BucketOrder
import DglAscend.Lib.Tensor

/-!
# Partitioned cache policies (`graphbolt/src/partitioned_cache_policy.cc`)

A `PartitionedCachePolicy` assigns every key to one of its policies and runs a batch on all of
them.  `Partition` groups the keys of the batch by policy; the results of the policies are
copied into output tensors, those for found keys in front of those for missing keys.

The threads of `parallel_for_each` write to different cells; the model runs them one after the
other.  When one of the policies throws, the model stops there.
-/

namespace DglAscend.Graphbolt

/-- `keys.scalar_type()` -/
inductive IndexType where
  | int32
  | int64
deriving DecidableEq, Repr

/-- The values of an index type. -/
def IndexType.InRange : IndexType → ℤ → Prop
  | .int32, k => -2 ^ 31 ≤ k ∧ k < 2 ^ 31
  | .int64, k => -2 ^ 63 ≤ k ∧ k < 2 ^ 63

instance (ty : IndexType) (k : ℤ) : Decidable (ty.InRange k) :=
  match ty with
  | .int32 => inferInstanceAs (Decidable (_ ∧ _))
  | .int64 => inferInstanceAs (Decidable (_ ∧ _))

/-- A one-dimensional tensor of keys. -/
structure KeyTensor where
  ty : IndexType
  keys : List ℤ
  inRange : ∀ k ∈ keys, ty.InRange k

/-- `AddOffset(keys, offset)`.  The sum of 64-bit keys wraps around. -/
def addOffset (ty : IndexType) (keys : List ℤ) (offset : ℤ) : Except CacheError (List ℤ) :=
  if offset = 0 then .ok keys
  else
    match ty with
    | .int32 =>
      if ∀ k ∈ keys, IndexType.int32.InRange (k + offset) then .ok (keys.map (· + offset))
      else .error .offsetOutOfRange
    | .int64 => .ok (keys.map fun k => (k + offset).bmod (2 ^ 64))

/-- `PartAssignment`, for each number of partitions: a draw of
`std::uniform_int_distribution<int32_t>(0, n - 1)` from `pcg32(seed, key)`. -/
structure PartAssignment where
  draw : ℕ → ℤ → ℕ
  draw_lt : ∀ n key, 0 < n → draw n key < n

/-! ## `Partition` -/

section Partition

variable (n : ℕ) (partId : ℕ → ℕ)

/-- The indices that thread `tid` of `n` works on. -/
def threadRange (numKeys tid : ℕ) : List ℕ :=
  List.range' (tid * numKeys / n) ((tid + 1) * numKeys / n - tid * numKeys / n)

/-- The first loop of thread `tid`: `offsets_ptr[tid * num_parts + part_id]++` -/
def countKeys (offsets : ℕ → ℕ) (tid : ℕ) (is : List ℕ) : ℕ → ℕ :=
  is.foldl (fun o i => Function.update o (tid * n + partId i) (o (tid * n + partId i) + 1)) offsets

/-- The counts of all threads, row by row. -/
def countAll (numKeys : ℕ) : ℕ → ℕ :=
  (List.range n).foldl (fun o tid => countKeys n partId o tid (threadRange n numKeys tid))
    fun _ => 0

/-- The place of the cell `i` of an `n × n` matrix in its transpose. -/
def transposed (i : ℕ) : ℕ := i % n * n + i / n

/-- The offsets after the transposition, the scan and the transposition back: the scanned
offsets, column by column, and their copy row by row. -/
def scanOffsets (counts : ℕ → ℕ) : (ℕ → ℕ) × (ℕ → ℕ) :=
  -- `+ 1` so that the scan is exclusive
  let offsetsPermuted :=
    Function.update (scatter (fun i => transposed n i + 1) counts (n * n) fun _ => 0) 0 0
  let offsets := fun i => ((List.range (i + 1)).map offsetsPermuted).sum
  (offsets, fun i => offsets (transposed n i))

/-- The last loop of thread `tid`: the writes `(offset, i)`, each followed by `offset++`. -/
def placeKeys (tid : ℕ) : (ℕ → ℕ) → List ℕ → List (ℤ × ℕ) × (ℕ → ℕ)
  | offsets, [] => ([], offsets)
  | offsets, i :: is =>
    let cell := tid * n + partId i
    let (ws, offsets') := placeKeys tid (Function.update offsets cell (offsets cell + 1)) is
    ((offsets cell, i) :: ws, offsets')

/-- The writes of all threads. -/
def placeAll (numKeys : ℕ) : List ℕ → (ℕ → ℕ) → List (ℤ × ℕ)
  | [], _ => []
  | tid :: tids, offsets =>
    let (ws, offsets) := placeKeys n partId tid offsets (threadRange n numKeys tid)
    ws ++ placeAll numKeys tids offsets

end Partition

/-- `(offsets, indices, permuted_keys)` -/
structure PartitionResult where
  offsets : List ℤ
  indices : List ℕ
  permutedKeys : List ℤ
deriving DecidableEq, Repr

/-- `Partition(keys)` for `n` policies. -/
def partition (assign : PartAssignment) (n : ℕ) (keys : List ℤ) : Option PartitionResult :=
  let partId := fun i => assign.draw n (keys.getD i 0)
  let (offsets, offsetsPermuted) := scanOffsets n (countAll n partId keys.length)
  let ws := placeAll n partId keys.length (List.range n) offsetsPermuted
  (tensor keys.length ws).bind fun indices =>
    (tensor keys.length (ws.map fun w => (w.1, keys.getD w.2 0))).map fun permutedKeys =>
      { offsets := 0 :: (List.range n).map fun tid => (offsets ((tid + 1) * n) : ℤ)
        indices := indices
        permutedKeys := permutedKeys }

/-! ## The calls -/

/-- A partitioned policy.  The capacity is an `int64_t`. -/
structure PartitionedCachePolicy (kind : PolicyKind) where
  capacity : ℕ
  capacity_lt : capacity < 2 ^ 63
  policies : List (CachePolicy kind.Queues)

/-- `(positions, indices, missing_keys, found_pointers, found_offsets, missing_offsets)` -/
structure PartitionedQueryResult where
  positions : List ℤ
  indices : List ℕ
  missingKeys : List ℤ
  foundPointers : List (Option ℕ)
  foundOffsets : List ℤ
  missingOffsets : List ℤ
deriving DecidableEq, Repr

/-- `(positions, indices, pointers, missing_keys, found_offsets, missing_offsets)` -/
structure PartitionedQueryAndReplaceResult where
  positions : List ℤ
  indices : List ℕ
  pointers : List (Option ℕ)
  missingKeys : List ℤ
  foundOffsets : List ℤ
  missingOffsets : List ℤ
deriving DecidableEq, Repr

/-- `(positions, pointers, offsets)` -/
structure PartitionedReplaceResult where
  positions : List ℤ
  pointers : List (Option ℕ)
  offsets : List ℤ
deriving DecidableEq, Repr

/-- Run a call on every policy of a list, whose first one has the index `i`. -/
def forEachPolicy {σ β : Type} (call : ℕ → σ → Outcome CacheError σ β) :
    ℕ → List σ → Outcome CacheError (List σ) (List β)
  | _, [] => .ok [] []
  | i, s :: ss =>
    match call i s with
    | .ok b s' => (forEachPolicy call (i + 1) ss).map (fun bs _ => b :: bs) (s' :: ·)
    | .error e s' => .error e (s' :: ss)
    | .timeout => .timeout

namespace PartitionedCachePolicy

variable {kind : PolicyKind}

/-- The capacity of the policy `i`. -/
def partCapacity (capacity n i : ℕ) : ℕ := (i + 1) * capacity / n - i * capacity / n

/-- The constructor: one policy for each partition. -/
def create (kind : PolicyKind) (capacity : ℕ) (hcap : capacity < 2 ^ 63) (n : ℕ) :
    Except CacheError (PartitionedCachePolicy kind) :=
  if 1 ≤ n then
    ((List.range n).mapM fun i => kind.create (partCapacity capacity n i)).map fun policies =>
      ⟨capacity, hcap, policies⟩
  else .error .partitionsNotPositive

variable (assign : PartAssignment) (s : PartitionedCachePolicy kind)

def numParts : ℕ := s.policies.length

/-- `tid * capacity_ / policies_.size()` -/
def positionOffset (i : ℕ) : ℤ := (i * s.capacity / s.numParts : ℕ)

/-- Run a call on each policy. -/
def onPolicies {β : Type} (call : ℕ → CachePolicy kind.Queues →
      Outcome CacheError (CachePolicy kind.Queues) β) :
    Outcome CacheError (PartitionedCachePolicy kind) (List β) :=
  (forEachPolicy call 0 s.policies).map (fun bs _ => bs) fun policies => { s with policies := policies }

/-- A check that may throw. -/
def check {α : Type} (x : Except CacheError α) : Outcome CacheError (PartitionedCachePolicy kind) α :=
  match x with
  | .ok a => .ok a s
  | .error e => .error e s

/-- The value of tensors that may be undefined. -/
def defined {α : Type} (x : Option α) : Outcome CacheError (PartitionedCachePolicy kind) α :=
  match x with
  | some a => .ok a s
  | none => .error .badMemory s

/-- Add the position offset of each policy to the positions that it returned. -/
def addPositionOffsets (xss : List (List ℤ)) : List (List ℤ) :=
  xss.mapIdx fun i xs => xs.map (· + s.positionOffset i)

/-- `out_index_ptr[j]` for the indices `j` that each policy returned. -/
def outputIndices (p : PartitionResult) (xss : List (List ℕ)) : List (List ℕ) :=
  xss.mapIdx fun i xs => xs.map fun j => p.indices.getD ((p.offsets.getD i 0).toNat + j) 0

/-- The keys that the policy `i` is given. -/
def permutedSlice (p : PartitionResult) (i : ℕ) : List ℤ :=
  nthSlice p.permutedKeys p.offsets i

/-! ## `Query` -/

/-- The output tensors of `Query` for the results of the policies, before the key offset is
taken off the missing keys. -/
def assembleQuery (p : PartitionResult) (results : List QueryResult) (len : ℕ) :
    Option PartitionedQueryResult :=
  let resultOffsets := scanInt32 0
    ((results.map fun r => r.positions.length) ++ results.map fun r => r.missingKeys.length)
  let missing := resultOffsets.drop s.numParts
  let numFound := missing.headD 0
  let indices := outputIndices p (results.map QueryResult.indices)
  do
    let positions ← segments resultOffsets
      (s.addPositionOffsets (results.map QueryResult.positions)) >>= tensor numFound
    let ws₁ ← segments resultOffsets indices
    let ws₂ ← segments missing (List.zipWith List.drop (gaps resultOffsets) indices)
    let outIndices ← tensor len (ws₁ ++ ws₂)
    let ws ← segments missing (results.map QueryResult.missingKeys)
    let missingKeys ← tensor (len - numFound) (ws.map fun w => (w.1 - numFound, w.2))
    let foundPointers ← segments resultOffsets (results.map QueryResult.foundPtrs) >>=
      tensor numFound
    pure
      { positions := positions
        indices := outIndices
        missingKeys := missingKeys
        foundPointers := foundPointers
        foundOffsets := resultOffsets.take (s.numParts + 1)
        missingOffsets := 0 :: missing.tail.map (· - numFound) }

/-- `Query(keys, offset)` -/
def query (keys : KeyTensor) (offset : ℤ) :
    Outcome CacheError (PartitionedCachePolicy kind) PartitionedQueryResult :=
  (s.check (addOffset keys.ty keys.keys offset)).bind fun ks s =>
    if s.numParts = 1 then
      (s.onPolicies fun _ => CachePolicy.queryImpl ks).bind fun results s =>
        (s.defined results.head?).bind fun r s =>
          (s.check (addOffset keys.ty r.missingKeys (-offset))).bind fun missingKeys s =>
            .ok
              { positions := r.positions
                indices := r.indices
                missingKeys := missingKeys
                foundPointers := r.foundPtrs
                foundOffsets := [0, r.foundPtrs.length]
                missingOffsets := [0, r.missingKeys.length] } s
    else
      (s.defined (partition assign s.numParts ks)).bind fun p s =>
        (s.onPolicies fun i => CachePolicy.queryImpl (permutedSlice p i)).bind fun results s =>
          (s.defined (s.assembleQuery p results ks.length)).bind fun r s =>
            (s.check (addOffset keys.ty r.missingKeys (-offset))).bind fun missingKeys s =>
              .ok { r with missingKeys := missingKeys } s

/-! ## `QueryAndReplace` -/

/-- The output tensors of `QueryAndReplace` for the results of the policies, before the key offset
is taken off the missing keys. -/
def assembleQueryAndReplace (p : PartitionResult) (results : List QueryAndReplaceResult)
    (len : ℕ) : Option PartitionedQueryAndReplaceResult :=
  let resultOffsets := scanInt32 0
    ((results.mapIdx fun i r => (permutedSlice p i).length - r.missingKeys.length) ++
      results.map fun r => r.missingKeys.length)
  let missing := resultOffsets.drop s.numParts
  let numFound := missing.headD 0
  let numsSelected := gaps resultOffsets
  let positions := s.addPositionOffsets (results.map QueryAndReplaceResult.positions)
  let indices := outputIndices p (results.map QueryAndReplaceResult.indices)
  let pointers := results.map QueryAndReplaceResult.pointers
  do
    let ws₁ ← segments resultOffsets indices
    let ws₂ ← segments missing (List.zipWith List.drop numsSelected indices)
    let outIndices ← tensor len (ws₁ ++ ws₂)
    let ws₁ ← segments resultOffsets positions
    let ws₂ ← segments missing (List.zipWith List.drop numsSelected positions)
    let outPositions ← tensor len (ws₁ ++ ws₂)
    let ws₁ ← segments resultOffsets pointers
    let ws₂ ← segments missing (List.zipWith List.drop numsSelected pointers)
    let outPointers ← tensor len (ws₁ ++ ws₂)
    let ws ← segments missing (results.map QueryAndReplaceResult.missingKeys)
    let missingKeys ← tensor (missing.getLastD 0 - numFound)
      (ws.map fun w => (w.1 - numFound, w.2))
    pure
      { positions := outPositions
        indices := outIndices
        pointers := outPointers
        missingKeys := missingKeys
        foundOffsets := resultOffsets.take (s.numParts + 1)
        missingOffsets := 0 :: missing.tail.map (· - numFound) }

/-- `QueryAndReplace(keys, offset)` -/
def queryAndReplace (fuel : ℕ) (keys : KeyTensor) (offset : ℤ) :
    Outcome CacheError (PartitionedCachePolicy kind) PartitionedQueryAndReplaceResult :=
  (s.check (addOffset keys.ty keys.keys offset)).bind fun ks s =>
    if s.numParts = 1 then
      (s.onPolicies fun _ => CachePolicy.queryAndReplaceImpl fuel ks).bind fun results s =>
        (s.defined results.head?).bind fun r s =>
          (s.check (addOffset keys.ty r.missingKeys (-offset))).bind fun missingKeys s =>
            .ok
              { positions := r.positions
                indices := r.indices
                pointers := r.pointers
                missingKeys := missingKeys
                foundOffsets := [0, (ks.length - r.missingKeys.length : ℕ)]
                missingOffsets := [0, r.missingKeys.length] } s
    else
      (s.defined (partition assign s.numParts ks)).bind fun p s =>
        (s.onPolicies fun i => CachePolicy.queryAndReplaceImpl fuel (permutedSlice p i)).bind
          fun results s =>
            (s.defined (s.assembleQueryAndReplace p results ks.length)).bind fun r s =>
              (s.check (addOffset keys.ty r.missingKeys (-offset))).bind fun missingKeys s =>
                .ok { r with missingKeys := missingKeys } s

/-! ## `Replace` and the completions -/

/-- The keys of `Replace`, grouped by `Partition` or by the caller. -/
def replaceParts (assign : PartAssignment) (n : ℕ) (ks : List ℤ) :
    Option (List ℤ) → Option PartitionResult
  | none => partition assign n ks
  | some offsets => some ⟨offsets, List.range ks.length, ks⟩

/-- `Replace(keys, offsets, offset)`.  With `offsets` the keys are grouped by policy already;
without, the positions are brought back to the order of the keys, and the pointers are not. -/
def replace (fuel : ℕ) (keys : KeyTensor) (offsets : Option (List ℤ)) (offset : ℤ) :
    Outcome CacheError (PartitionedCachePolicy kind) PartitionedReplaceResult :=
  (s.check (addOffset keys.ty keys.keys offset)).bind fun ks s =>
    if s.numParts = 1 then
      (s.onPolicies fun _ => CachePolicy.replaceImpl fuel ks).bind fun results s =>
        (s.defined results.head?).bind fun r s =>
          .ok ⟨r.positions, r.pointers, offsets.getD [0, r.pointers.length]⟩ s
    else
      (s.defined (replaceParts assign s.numParts ks offsets)).bind fun p s =>
        (s.onPolicies fun i => CachePolicy.replaceImpl fuel (permutedSlice p i)).bind
          fun results s =>
            let positions := s.addPositionOffsets (results.map ReplaceResult.positions)
            let ws := (p.offsets.zip positions).flatMap fun x => writesFrom x.1 x.2
            let ps := (p.offsets.zip (results.map ReplaceResult.pointers)).flatMap fun x =>
              writesFrom x.1 x.2
            (s.defined (tensor ks.length (ws.map fun w =>
              ((p.indices.getD w.1.toNat 0 : ℕ), w.2)))).bind fun positions s =>
              (s.defined (tensor ks.length ps)).bind fun pointers s =>
                .ok ⟨positions, pointers, p.offsets⟩ s

/-- `ReadingWritingCompletedImpl<write>(pointers, offsets)` -/
def readingWritingCompletedImpl (write : Bool) (pointers : List (Option ℕ)) (offsets : List ℤ) :
    Outcome CacheError (PartitionedCachePolicy kind) Unit :=
  (s.onPolicies fun i => CachePolicy.readingWritingCompletedImpl write
    (if s.numParts = 1 then pointers else nthSlice pointers offsets i)).map (fun _ _ => ()) id

def readingCompleted (pointers : List (Option ℕ)) (offsets : List ℤ) :
    Outcome CacheError (PartitionedCachePolicy kind) Unit :=
  s.readingWritingCompletedImpl false pointers offsets

def writingCompleted (pointers : List (Option ℕ)) (offsets : List ℤ) :
    Outcome CacheError (PartitionedCachePolicy kind) Unit :=
  s.readingWritingCompletedImpl true pointers offsets

end PartitionedCachePolicy

end DglAscend.Graphbolt
