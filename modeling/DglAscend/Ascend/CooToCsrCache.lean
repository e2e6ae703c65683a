import DglAscend.Lib.TimedCache
import DglAscend.Ascend.SparseMatrix

/-!
# The cache of COO to CSR conversions

`src/array/ascend/coo2csr.cc` keeps converted matrices for the life of the process.  An entry is
found by the addresses, sizes and flags of its input and holds references to the input arrays and
to the converted arrays, so the allocator cannot give their memory to anybody else while it is
cached.  Sizes and the clock are natural numbers here: neither comes near `2 ^ 64`.
-/

namespace DglAscend.Ascend

/-- `CooToCsrCacheKey`. -/
structure CooToCsrCacheKey where
  deviceId : ℤ
  rowPtr : ℕ
  colPtr : ℕ
  dataPtr : Option ℕ
  numRows : ℤ
  numCols : ℤ
  nnz : ℕ
  idBits : ℕ
  hasData : Bool
  rowSorted : Bool
  colSorted : Bool
  deriving DecidableEq, Repr

/-- `CooToCsrCacheValue`: the converted matrix and the retained inputs. -/
structure CooToCsrCacheValue where
  csr : CsrMatrix
  row : IdArray
  col : IdArray
  data : Option IdArray
  deriving DecidableEq, Repr

namespace CooToCsrCacheValue

/-- The arrays that the entry holds. -/
def regions (v : CooToCsrCacheValue) : List Region :=
  v.csr.regions ++ v.row.region :: v.col.region :: v.data.toList.map IdArray.region

end CooToCsrCacheValue

/-- `kCacheBudgetBytes`. -/
def kCacheBudgetBytes : ℕ := 2 <<< 30

/-- The state behind `CacheMap`, `NextCacheClock` and the owner of `ResetCacheIfForked`. -/
structure CooToCsrCache where
  map : TimedMap CooToCsrCacheKey CooToCsrCacheValue
  clock : ℕ
  owner : ℤ

/-- What `EvictCacheLocked` did after an insertion: its byte counter at the end and the entries
that went. -/
structure Insertion where
  counter : ℕ
  evictions : List (Eviction CooToCsrCacheKey CooToCsrCacheValue)

/-- The key of a matrix. -/
def CooMatrix.cacheKey (coo : CooMatrix) : CooToCsrCacheKey where
  deviceId := coo.row.deviceId
  rowPtr := coo.row.ptr
  colPtr := coo.col.ptr
  dataPtr := if coo.hasData then some coo.data.ptr else none
  numRows := coo.numRows
  numCols := coo.numCols
  nnz := coo.row.length
  idBits := coo.row.bits
  hasData := coo.hasData
  rowSorted := coo.rowSorted
  colSorted := coo.colSorted

/-- `EstimateEntryBytes`. -/
def estimateEntryBytes (coo : CooMatrix) (csr : CsrMatrix) : ℕ :=
  coo.row.size + coo.col.size + coo.data.size +
    csr.indptr.size + csr.indices.size + csr.data.size

namespace CooToCsrCache

/-- The cache at the start of the process. -/
def init : CooToCsrCache where
  map := ∅
  clock := 1
  owner := 0

/-- `NextCacheClock`: the cache after it. -/
def nextCacheClock (c : CooToCsrCache) : CooToCsrCache := { c with clock := c.clock + 1 }

/-- `ResetCacheIfForked`. -/
def resetCacheIfForked (pid : ℤ) (c : CooToCsrCache) : CooToCsrCache :=
  if c.owner ≠ pid then { c with map := ∅, owner := pid } else c

/-- `EvictCacheLocked`. -/
def evictCacheLocked (budget : ℕ) (c : CooToCsrCache) : CooToCsrCache × Insertion :=
  let r := TimedMap.evictLoop budget c.map.entries.length c.map (TimedMap.bytes c.map)
  ({ c with map := r.1 }, ⟨r.2.1, r.2.2⟩)

/-- The lookup of `COOToCSR`: a hit stamps the entry and returns its matrix. -/
def lookup (pid : ℤ) (key : CooToCsrCacheKey) (c : CooToCsrCache) :
    Option CsrMatrix × CooToCsrCache :=
  let c := c.resetCacheIfForked pid
  match c.map.lookup key with
  | some t => (some t.value.csr,
      { c.nextCacheClock with map := c.map.insert key { t with lastUsed := c.clock } })
  | none => (none, c)

/-- The insertion of `COOToCSR`, which keeps what fits in the budget. -/
def insert (pid : ℤ) (coo : CooMatrix) (csr : CsrMatrix) (c : CooToCsrCache) :
    CooToCsrCache × Option Insertion :=
  let t : Timed CooToCsrCacheValue :=
    { value := ⟨csr, coo.row, coo.col, if coo.hasData then some coo.data else none⟩
      lastUsed := c.clock
      bytes := estimateEntryBytes coo csr }
  let c := c.nextCacheClock
  if t.bytes ≤ kCacheBudgetBytes then
    let c := c.resetCacheIfForked pid
    match c.map.lookup coo.cacheKey with
    | none =>
      let r := evictCacheLocked kCacheBudgetBytes { c with map := c.map.insert coo.cacheKey t }
      (r.1, some r.2)
    | some t' =>
      -- A concurrent call has inserted the same matrix.
      ({ c with map := c.map.insert coo.cacheKey { t' with lastUsed := t.lastUsed } }, none)
  else (c, none)

/-- The arrays that the entries hold. -/
def pinned (c : CooToCsrCache) : List Region :=
  c.map.entries.flatMap fun e => e.2.value.regions

end CooToCsrCache

variable {B : Type}

/-- `COOToCSR` on Ascend.  `countingSort` is `COOToCSRCountingSort`, which allocates the arrays of
its result; `disabled` is `CacheDisabled`. -/
def cooToCsr (countingSort : CooMatrix → Heap B → Except String CsrMatrix × Heap B)
    (disabled : Bool) (pid : ℤ) (coo : CooMatrix) (c : CooToCsrCache) (h : Heap B) :
    Except String CsrMatrix × Option Insertion × CooToCsrCache × Heap B :=
  if disabled then
    let r := countingSort coo h
    (r.1, none, c, r.2)
  else
    match c.lookup pid coo.cacheKey with
    | (some csr, c) => (.ok csr, none, c, { h with arrays := csr.regions ++ h.arrays })
    | (none, c) =>
      match countingSort coo h with
      | (.error e, h) => (.error e, none, c, h)
      | (.ok csr, h) =>
        let r := c.insert pid coo csr
        (.ok csr, r.2, r.1, h)

end DglAscend.Ascend
