import DglAscend.Bfs.Frontiers

/-!
# The workspace of the BFS

The hosts of `array/ascend/bfs_nodes_frontiers.cc` and `array/ascend/bfs_edges_frontiers.cc` check
their input, reserve a workspace and output buffers, and check what the kernel reports.  The layout
of the workspace is that of `array/ascend/bfs_ws_layout.h`, which the kernel computes once more.
-/

namespace DglAscend.Bfs

/-- `BfsWs`. -/
structure BfsWs where
  visTag : ℕ
  syncGm : ℕ
  errflag : ℕ
  segByCore : ℕ
  cntDom : ℕ
  cntConfD : ℕ
  cntConfT : ℕ
  candRec : ℕ
  confRec : ℕ
  frNodes : ℕ
  stgIds : ℕ
  stgFr : ℕ
  fragIds : ℕ
  fragFr : ℕ
  total : ℕ
  deriving DecidableEq, Repr

/-- `WS_ALIGN`. -/
def wsAlign : ℕ := 512

/-- `REC_INTS`. -/
def recInts : ℕ := 4

/-- `HsAlign`. -/
def hsAlign (v a : ℕ) : ℕ := (v + a - 1) / a * a

/-- `HsRowStrideInt32`. -/
def hsRowStrideInt32 (cores : ℕ) : ℕ := hsAlign (cores * 4) 32 / 4

/-- `HsRowStrideJ`. -/
def hsRowStrideJ (numChunksMax : ℕ) : ℕ := hsAlign (numChunksMax * 4) 32 / 4

/-- `HsChunkElems`. -/
def hsChunkElems (elemSize : ℕ) : ℕ := if elemSize = 4 then 1024 else 512

/-- `HsConfRecCap`. -/
def hsConfRecCap (nnz numChunksMax cores : ℕ) : ℕ := nnz + numChunksMax * cores

/-- `HsWorkspaceLayout`. -/
def hsWorkspaceLayout (numRows nnz cores numChunksMax elemSize : ℕ) : BfsWs :=
  let rs := hsRowStrideInt32 cores
  let visTag := 0
  let syncGm := visTag + hsAlign (numRows * 4) wsAlign
  let errflag := syncGm + hsAlign (cores * 32) wsAlign
  let segByCore := errflag + hsAlign (cores * 32) wsAlign
  let cntDom := segByCore + hsAlign (cores * 32) wsAlign
  let cntConfD := cntDom + hsAlign (numChunksMax * rs * 4) wsAlign
  let cntConfT := cntConfD + hsAlign (cores * hsRowStrideJ numChunksMax * 4) wsAlign
  let candRec := cntConfT + hsAlign (numChunksMax * rs * 4) wsAlign
  let confRec := candRec + hsAlign (nnz * recInts * 4) wsAlign
  let frNodes := confRec + hsAlign (hsConfRecCap nnz numChunksMax cores * recInts * 4) wsAlign
  let stgIds := frNodes + hsAlign (numRows * 4) wsAlign
  let stgFr := stgIds + hsAlign (numChunksMax * hsChunkElems elemSize * elemSize) wsAlign
  let fragIds := stgFr + hsAlign (numChunksMax * hsChunkElems elemSize * 4) wsAlign
  let fragFr := fragIds + hsAlign 64 wsAlign
  let total := fragFr + hsAlign 64 wsAlign
  ⟨visTag, syncGm, errflag, segByCore, cntDom, cntConfD, cntConfT, candRec, confRec, frNodes, stgIds,
    stgFr, fragIds, fragFr, total⟩

/-- `BsAlign`. -/
def bsAlign (v a : ℕ) : ℕ := (v + a - 1) / a * a

/-- `BfsRowStrideInt32`. -/
def bfsRowStrideInt32 (cores : ℕ) : ℕ := bsAlign (cores * 4) 32 / 4

/-- `BfsRowStrideJ`. -/
def bfsRowStrideJ (numChunksMax : ℕ) : ℕ := bsAlign (numChunksMax * 4) 32 / 4

/-- `BsChunkElems`. -/
def bsChunkElems (elemSize : ℕ) : ℕ := if elemSize = 4 then 1024 else 512

/-- `BfsWorkspaceLayout`, on the device. -/
def bfsWorkspaceLayout (numRows nnz cores numChunksMax elemSize : ℕ) : BfsWs :=
  let rs := bfsRowStrideInt32 cores
  let visTag := 0
  let syncGm := visTag + bsAlign (numRows * 4) wsAlign
  let errflag := syncGm + bsAlign (cores * 32) wsAlign
  let segByCore := errflag + bsAlign (cores * 32) wsAlign
  let cntDom := segByCore + bsAlign (cores * 32) wsAlign
  let cntConfD := cntDom + bsAlign (numChunksMax * rs * 4) wsAlign
  let cntConfT := cntConfD + bsAlign (cores * bfsRowStrideJ numChunksMax * 4) wsAlign
  let candRec := cntConfT + bsAlign (numChunksMax * rs * 4) wsAlign
  let confRec := candRec + bsAlign (nnz * recInts * 4) wsAlign
  let frNodes := confRec + bsAlign ((nnz + numChunksMax * cores) * recInts * 4) wsAlign
  let stgIds := frNodes + bsAlign (numRows * 4) wsAlign
  let stgFr := stgIds + bsAlign (numChunksMax * bsChunkElems elemSize * elemSize) wsAlign
  let fragIds := stgFr + bsAlign (numChunksMax * bsChunkElems elemSize * 4) wsAlign
  let fragFr := fragIds + bsAlign 64 wsAlign
  let total := fragFr + bsAlign 64 wsAlign
  ⟨visTag, syncGm, errflag, segByCore, cntDom, cntConfD, cntConfT, candRec, confRec, frNodes, stgIds,
    stgFr, fragIds, fragFr, total⟩

/-- The offsets in order. -/
def BfsWs.offsets (w : BfsWs) : List ℕ :=
  [w.visTag, w.syncGm, w.errflag, w.segByCore, w.cntDom, w.cntConfD, w.cntConfT, w.candRec,
    w.confRec, w.frNodes, w.stgIds, w.stgFr, w.fragIds, w.fragFr, w.total]

/-- The regions, each with its end. -/
def BfsWs.regions (w : BfsWs) : List (ℕ × ℕ) := w.offsets.zip w.offsets.tail

/-! ## The hosts -/

variable (g : Args) (isEdge : Bool)

/-- `elemSize`. -/
def Args.elemSize : ℕ := if g.wide then 8 else 4

/-- `td.numChunksMax` of `CalcBfsTiling`. -/
def Args.numChunksMax : ℕ := max ((g.nnz + g.chunk - 1) / g.chunk) 1

/-- `td.numBlocks` of `CalcBfsTiling`, on a device with `coreMax` cores. -/
def Args.numBlocks (coreMax : ℕ) : ℕ :=
  let hasEid := if isEdge ∧ g.eid.isSome then 1 else 0
  let ubBytes := (g.numRows + 1) * g.elemSize + g.nnz * g.elemSize * (1 + hasEid) + g.numRows * 4
  if ubBytes ≤ 96 * 1024 then 1
  else if 8192 ≤ g.numRows ∧ g.nnz < 2 * g.numRows then 1
  else min (max ((g.nnz + 1023) / 1024) 1) coreMax

/-- The layout that the host computes. -/
def Args.hostLayout (coreMax : ℕ) : BfsWs :=
  hsWorkspaceLayout g.numRows g.nnz (g.numBlocks isEdge coreMax) g.numChunksMax g.elemSize

/-- The layout that the kernel computes. -/
def Args.kernelLayout (coreMax : ℕ) : BfsWs :=
  bfsWorkspaceLayout g.numRows g.nnz (g.numBlocks isEdge coreMax) g.numChunksMax g.elemSize

/-- `idsLenUb`. -/
def Args.idsLenUb : ℕ := if isEdge then g.nnz else g.source.length + g.numRows

/-- `secLenUb`. -/
def Args.secLenUb : ℕ := if isEdge then g.numRows else g.numRows + 1

/-- `BFSNodesFrontiersAscend` and `BFSEdgesFrontiersAscend`: the state that the kernel leaves, if no
`CHECK` fires.  Without sources or rows the kernel is not launched. -/
def bfsFrontiersAscend (s : State) : Option State :=
  if ¬(g.numRows < 2 ^ 31 ∧ g.nnz < 2 ^ 31) then none
  else if g.numRows = 0 ∧ 0 < g.source.length then none
  else if g.source.length = 0 ∨ g.numRows = 0 then some s
  else
    let s := (processSerial g isEdge s).1
    if s.errflag = 0 ∧ s.t ≤ g.idsLenUb isEdge ∧ s.secIdx ≤ g.secLenUb isEdge then some s else none

end DglAscend.Bfs
