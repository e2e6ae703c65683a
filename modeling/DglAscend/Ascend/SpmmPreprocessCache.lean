import DglAscend.Ascend.SparseMatrix
import DglAscend.Ascend.SpmmWindows
import DglAscend.Lib.Memo

/-!
# The preprocess cache of the SpMM

`SpMMCsrAscend` of `array/ascend/spmm.cc` keeps what it computes from the index arrays of a matrix
in two tables that live as long as the process.  The key has the addresses and the sizes of the
arrays, but the tables do not hold the arrays, so another matrix may come to lie at the addresses.
The choice of the cube windows is made in floating point and is a parameter.
-/

namespace DglAscend.Ascend

/-- `reduce`. -/
inductive Reduce
  | sum
  | max
  | min
  deriving DecidableEq, Repr

/-- `SpMMPreprocessCacheKey`. -/
structure SpMMPreprocessCacheKey where
  deviceId : ℤ
  reduce : Reduce
  indptrPtr : ℕ
  indicesPtr : ℕ
  numRows : ℕ
  numCols : ℕ
  numEdges : ℕ
  outDim : ℕ
  deriving DecidableEq, Repr

/-- The core counts of the devices and the selection of the cube windows, from the index arrays
and the output dimension. -/
structure Platform where
  vectorCores : ℤ → ℕ
  cubeCores : ℤ → ℕ
  isCubeWindow : List ℕ → List ℕ → ℕ → ℕ → Bool

/-- All boundaries. -/
def boundaries (weights : List ℕ) (numParts : ℕ) : List ℕ :=
  (List.range (numParts + 1)).map (buildBalancedPartitions weights numParts)

/-- `BuildRowNnzBalancedPartitions`. -/
def buildRowNnzBalancedPartitions (csr : Csr) (numParts : ℕ) : List ℕ :=
  boundaries ((List.range csr.numRows).map fun row => csr.ptr (row + 1) - csr.ptr row) numParts

/-- `SumPreprocessCacheValue` with the boundaries of the cores. -/
structure SumPreprocessCacheValue where
  windows : SumPreprocess
  vectorCoreBoundaries : List ℕ
  cubeCoreBoundaries : List ℕ
  deriving DecidableEq, Repr

/-- The sum preprocessing with the boundaries of the cores. -/
def sumPreprocess (p : Platform) (deviceId : ℤ) (outDim : ℕ) (csr : Csr) :
    SumPreprocessCacheValue :=
  let windows := SumPreprocess.build csr (p.isCubeWindow csr.indptr csr.indices outDim)
  { windows := windows
    vectorCoreBoundaries := boundaries (windows.vectorWork csr) (p.vectorCores deviceId)
    cubeCoreBoundaries := boundaries windows.cubeWork (p.cubeCores deviceId) }

/-- `g_maxmin_preprocess_cache` and `g_sum_preprocess_cache`. -/
structure SpmmCaches where
  maxMin : Memo SpMMPreprocessCacheKey (List ℕ)
  sum : Memo SpMMPreprocessCacheKey SumPreprocessCacheValue

/-- Before the first call. -/
def SpmmCaches.init : SpmmCaches := ⟨∅, ∅⟩

/-- What a call of `SpMMCsrAscend` is asked for.  `batched` is `use_bspmm`. -/
structure SpmmRequest (F : Type) where
  reduce : Reduce
  batched : Bool
  half : Bool
  outDim : ℕ
  feat : F

/-- What the kernels get: the index arrays, the features and the preprocessing. -/
inductive Launch (F : Type)
  | maxMin (request : SpmmRequest F) (csr : Csr) (rowSplit : List ℕ)
  | sumAiv (request : SpmmRequest F) (csr : Csr) (rowSplit : List ℕ)
  | sum (request : SpmmRequest F) (csr : Csr) (value : SumPreprocessCacheValue)

section Call

variable {F : Type}

/-- `cache_key`. -/
def SpmmRequest.cacheKey (request : SpmmRequest F) (a : CsrMatrix) : SpMMPreprocessCacheKey where
  deviceId := a.indptr.deviceId
  reduce := request.reduce
  indptrPtr := a.indptr.ptr
  indicesPtr := a.indices.ptr
  numRows := (a.numRows % 2 ^ 32).toNat
  numCols := (a.numCols % 2 ^ 32).toNat
  numEdges := a.indices.length % 2 ^ 32
  outDim := request.outDim % 2 ^ 32

/-- The sums that bypass the cache. -/
def SpmmRequest.bypass (aivOnlySum : Bool) (request : SpmmRequest F) : Bool :=
  !request.batched && (aivOnlySum || request.half)

/-- `SpMMCsrAscend`, for the matrix `csr` in the arrays `a`. -/
def spmmCsrAscend (p : Platform) (aivOnlySum : Bool) (request : SpmmRequest F) (a : CsrMatrix)
    (csr : Csr) (c : SpmmCaches) : Launch F × SpmmCaches :=
  let key := request.cacheKey a
  let rowSplit := buildRowNnzBalancedPartitions csr (p.vectorCores key.deviceId)
  if request.reduce ≠ .sum then
    let (value, maxMin) := c.maxMin.getOrInsert key rowSplit
    (.maxMin request csr value, { c with maxMin := maxMin })
  else if request.bypass aivOnlySum then (.sumAiv request csr rowSplit, c)
  else
    let (value, sum) := c.sum.getOrInsert key (sumPreprocess p key.deviceId key.outDim csr)
    (.sum request csr value, { c with sum := sum })

end Call

end DglAscend.Ascend
