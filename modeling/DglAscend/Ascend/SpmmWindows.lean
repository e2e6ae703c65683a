import DglAscend.Ascend.BalancedPartitions
import DglAscend.Ascend.Csr

/-!
# Window classification of the sum SpMM

`SpMMCsrAscend` of `array/ascend/spmm.cc` cuts the rows into windows of 16.  Some of the windows
with edges go to the cube cores: the window becomes a dense block over its distinct columns, which
is multiplied with the gathered rows of the features.  The other windows go to the vector cores,
which add the rows of the features edge by edge.  The dense block says whether an edge is there,
not how often.  Its 16 rows lie one behind the other, but `bspmm_sum` loads it as if it had 16 columns
of as many rows as the block has columns: this is the block if it has one block of 16 columns, and
otherwise the load runs on into what lies behind.  Sizes of blocks are natural numbers here.
-/

namespace DglAscend.Ascend

/-- `windowSize`. -/
def windowSize : ℕ := 16

/-- `tcBlockWidth`. -/
def tcBlockWidth : ℕ := 16

/-- The number of dense blocks of 16 columns for `columns` columns. -/
def tcBlocks (columns : ℕ) : ℕ := (columns + tcBlockWidth - 1) / tcBlockWidth

/-- A feature matrix. -/
abbrev Features := ℕ → ℕ → ℚ

namespace Csr

/-- The number of windows. -/
def numWindows (csr : Csr) : ℕ := (csr.numRows + windowSize - 1) / windowSize

/-- The first row of a window. -/
def startNode (w : ℕ) : ℕ := w * windowSize

/-- The row after the last row of a window. -/
def endNode (csr : Csr) (w : ℕ) : ℕ := min (startNode w + windowSize) csr.numRows

/-- The rows of a window. -/
def windowRows (csr : Csr) (w : ℕ) : List ℕ := List.range' (startNode w) (csr.endNode w - startNode w)

/-- The edges of a window. -/
def windowEdges (csr : Csr) (w : ℕ) : List ℕ :=
  edgesBetween (csr.ptr (startNode w)) (csr.ptr (csr.endNode w))

/-- `unique_columns`: the columns of a window, sorted and without repetitions. -/
def uniqueColumns (csr : Csr) (w : ℕ) : List ℕ :=
  ((csr.windowEdges w).map csr.col).toFinset.sort (· ≤ ·)

/-- The columns of the dense block of a window. -/
def paddedColumns (csr : Csr) (w : ℕ) : ℕ := tcBlocks (csr.uniqueColumns w).length * tcBlockWidth

/-- The cells of the dense block of a window that are set, edge by edge. -/
def blockCells (csr : Csr) (w : ℕ) : List ℕ :=
  (csr.windowRows w).flatMap fun row => (csr.rowEdges row).map fun edge =>
    (row - startNode w) * csr.paddedColumns w +
      (csr.uniqueColumns w).findIdx fun c => csr.col edge ≤ c

end Csr

/-- `SumPreprocessCacheValue`, with the buffers as lists. -/
structure SumPreprocess where
  columnToEdge : List ℕ
  cubeWindowIds : List ℕ
  vectorWindowIds : List ℕ
  winEdgePtr : List ℕ
  denseBlocks : List ℚ
  totalTcBlocks : ℕ
  deriving DecidableEq, Repr

namespace SumPreprocess

/-- Before the first window. -/
def init : SumPreprocess := ⟨[], [], [], [0], [], 0⟩

/-- The body of the loop over the windows.  `isCubeWindow` holds the selected windows. -/
def addWindow (csr : Csr) (isCubeWindow : ℕ → Bool) (s : SumPreprocess) (w : ℕ) : SumPreprocess :=
  if csr.uniqueColumns w = [] ∨ isCubeWindow w = false then
    { s with vectorWindowIds := s.vectorWindowIds ++ [w] }
  else
    { s with
      cubeWindowIds := s.cubeWindowIds ++ [w]
      columnToEdge := s.columnToEdge ++ csr.uniqueColumns w
      winEdgePtr := s.winEdgePtr ++ [(s.columnToEdge ++ csr.uniqueColumns w).length]
      totalTcBlocks := s.totalTcBlocks + tcBlocks (csr.uniqueColumns w).length
      denseBlocks := (csr.blockCells w).foldl (fun blocks cell =>
          blocks.set (s.denseBlocks.length + cell) 1)
        (s.denseBlocks ++ List.replicate (windowSize * csr.paddedColumns w) 0) }

/-- The sum preprocessing of a matrix. -/
def build (csr : Csr) (isCubeWindow : ℕ → Bool) : SumPreprocess :=
  (List.range csr.numWindows).foldl (addWindow csr isCubeWindow) init

/-- The distinct columns of the cube window `i`. -/
def windowColumns (s : SumPreprocess) (i : ℕ) : ℕ :=
  s.winEdgePtr.getD (i + 1) 0 - s.winEdgePtr.getD i 0

/-- `cube_work`. -/
def cubeWork (s : SumPreprocess) : List ℕ :=
  (List.range s.cubeWindowIds.length).map fun i => tcBlocks (s.windowColumns i)

/-- `vector_work`. -/
def vectorWork (csr : Csr) (s : SumPreprocess) : List ℕ :=
  s.vectorWindowIds.map fun w => csr.ptr (csr.endNode w) - csr.ptr (Csr.startNode w)

/-- A vector core adds up the features of the edges of each row of a window. -/
def vectorWindow (csr : Csr) (feat : Features) (s : SumPreprocess) (i : ℕ) :
    List (ℕ × (ℕ → ℚ)) :=
  (csr.windowRows (s.vectorWindowIds.getD i 0)).map fun row =>
    (row, ((csr.rowEdges row).map fun e => feat (csr.col e)).sum)

/-- `ComputeMaxKRowsPerSlice`: the columns of a slice, from the bytes of `L0A`. -/
def maxKColumns : ℕ := 32 * 1024 / 2 / tcBlockWidth / tcBlockWidth * tcBlockWidth

/-- The blocks before a cube window. -/
def tcOffset (s : SumPreprocess) (i : ℕ) : ℕ :=
  ((List.range i).map fun j => tcBlocks (s.windowColumns j)).sum

/-- The slices of a cube window: the loop over `remainingColumns`. -/
def slices (s : SumPreprocess) (i : ℕ) : List ℕ :=
  List.range ((s.windowColumns i + maxKColumns - 1) / maxKColumns)

/-- `currentKColumns` of slice `t`; the slices before it have `maxKColumns`. -/
def sliceColumns (s : SumPreprocess) (i t : ℕ) : ℕ := min (s.windowColumns i - t * maxKColumns) maxKColumns

/-- `currentKRows` -/
def sliceRows (s : SumPreprocess) (i t : ℕ) : ℕ := tcBlocks (s.sliceColumns i t) * tcBlockWidth

/-- Where the dense blocks of a slice are taken to begin. -/
def sliceStart (s : SumPreprocess) (i t : ℕ) : ℕ :=
  (s.tcOffset i + t * (maxKColumns / tcBlockWidth)) * (windowSize * tcBlockWidth)

/-- `LoadA1FromWorkspaceNz` and `SplitAFull`: `k` rows of 16 columns are loaded with a stride of `k`, and
16 of these rows make the next 16 columns of the factor. -/
def loadedPlace (s : SumPreprocess) (i t r c : ℕ) : ℕ :=
  s.sliceStart i t + (c / tcBlockWidth * tcBlockWidth + r) * s.sliceRows i t + c % tcBlockWidth

/-- The loads of a cube window stay inside the buffer of the dense blocks. -/
def loadsInside (s : SumPreprocess) (i : ℕ) : Bool :=
  (s.slices i).all fun t =>
    s.sliceStart i t + (s.sliceRows i t - 1) * s.sliceRows i t + tcBlockWidth ≤ s.denseBlocks.length

/-- `ComputeFull` for a row, slice by slice.  The gathered rows of the features beside the columns of a
slice are zero. -/
def cubeRow (feat : Features) (s : SumPreprocess) (i r : ℕ) : ℕ → ℚ :=
  ((s.slices i).map fun t => ((List.range (s.sliceRows i t)).map fun c =>
    s.denseBlocks.getD (s.loadedPlace i t r c) 0 •
      if c < s.sliceColumns i t then
        feat (s.columnToEdge.getD (s.winEdgePtr.getD i 0 + t * maxKColumns + c) 0)
      else 0).sum).sum

/-- A cube core multiplies what it loads for a window with the gathered rows of the features. -/
def cubeWindow (csr : Csr) (feat : Features) (s : SumPreprocess) (i : ℕ) : List (ℕ × (ℕ → ℚ)) :=
  let baseRow := s.cubeWindowIds.getD i 0 * windowSize
  (List.range (min windowSize (csr.numRows - baseRow))).map fun r => (baseRow + r, cubeRow feat s i r)

/-- The rows that the cores write, core by core, if nothing is read behind the dense blocks. -/
def writes (csr : Csr) (feat : Features) (s : SumPreprocess) (vectorCores cubeCores : ℕ) :
    Option (List (ℕ × (ℕ → ℚ))) :=
  let cube := slotItems (buildBalancedPartitions s.cubeWork cubeCores) cubeCores
  if cube.all s.loadsInside then
    some ((slotItems (buildBalancedPartitions (vectorWork csr s) vectorCores) vectorCores).flatMap
      (vectorWindow csr feat s) ++ cube.flatMap (cubeWindow csr feat s))
  else none

end SumPreprocess

end DglAscend.Ascend
