import DglAscend.Aten.Lookups
import DglAscend.Hetero.UnitGraph

/-!
# Queries on a unit graph

The query methods of `unit_graph.cc`: those of the classes `COO` and `CSR`, which answer from one
matrix, and those of `UnitGraph`, which select a format and exchange sources and destinations where
the CSR object of the format stores the transposed relation.
-/

namespace DglAscend.Hetero

open Aten

/-- `EdgeArray`. -/
structure EdgeArray where
  src : List ℕ
  dst : List ℕ
  id : List ℕ
  deriving DecidableEq, Repr

namespace EdgeArray

/-- The arrays of some edges. -/
def ofEntries (es : List Entry) : EdgeArray :=
  ⟨es.map Prod.fst, es.map fun e => e.2.1, es.map fun e => e.2.2⟩

/-- `EdgeArray{edges.dst, edges.src, edges.id}` -/
def swap (a : EdgeArray) : EdgeArray := ⟨a.dst, a.src, a.id⟩

end EdgeArray

/-- The queries with their arguments. -/
inductive Query
  | hasEdgesBetween (src dst : List ℕ)
  | predecessors (dst : ℕ)
  | successors (src : ℕ)
  | edgeId (src dst : ℕ)
  | edgeIdsAll (src dst : List ℕ)
  | findEdges (eids : List ℕ)
  | inEdges (vid : ℕ)
  | inEdgesOf (vids : List ℕ)
  | outEdges (vid : ℕ)
  | outEdgesOf (vids : List ℕ)
  | edges (order : String)
  | inDegrees (vids : List ℕ)
  | outDegrees (vids : List ℕ)
  | vertexSubgraph (vids : List (List ℕ))
  | edgeSubgraph (eids : List (List ℕ)) (preserveNodes : Bool)

/-- What a query returns; `G` is the type of the graph of a subgraph. -/
inductive Answer (G : Type)
  | flags (xs : List Bool)
  | nodes (xs : List ℕ)
  /-- `return {};`, an array that does not exist. -/
  | noArray
  | ids (xs : List ℕ)
  | edges (a : EdgeArray)
  | degrees (xs : List ℕ)
  | subgraph (graph : G) (inducedVertices : List (List ℕ)) (inducedEdges : List ℕ)

namespace Answer

variable {G H : Type}

/-- The graph of a subgraph is packed into another one. -/
def mapGraph (f : G → H) : Answer G → Answer H
  | .flags xs => .flags xs
  | .nodes xs => .nodes xs
  | .noArray => .noArray
  | .ids xs => .ids xs
  | .edges a => .edges a
  | .degrees xs => .degrees xs
  | .subgraph g vs es => .subgraph (f g) vs es

/-- `EdgeArray{ret.dst, ret.src, ret.id}` -/
def swapEdges : Answer G → Answer G
  | .edges a => .edges a.swap
  | a => a

end Answer

/-- What the answers depend on besides the graph: whether the library is built for Ascend, the
number of threads, and the orders that the standard library leaves open. -/
structure Host where
  ascend : Bool
  threads : ℕ+
  sort : StdSort Entry
  multimap : AnyOrder Entry

/-- `aten::IndexSelect`. -/
def indexSelect (array index : List ℕ) : Except Fault (List ℕ) :=
  index.mapM fun i => if array.length ≤ i then .error .raised else .ok (array.getD i 0)

/-- The matrix of a `COO` or a `CSR` object. -/
inductive Adj
  | coo (m : COOMatrix)
  | csr (m : CSRMatrix)
  deriving DecidableEq, Repr

/-- `NumVertices(DstType())`: with one vertex type the destinations are of the type of the rows. -/
def numDstVertices (numVTypes numRows numCols : ℕ) : ℕ := if numVTypes = 1 then numRows else numCols

/-- `vids[DstType()]` -/
def dstVids (numVTypes : ℕ) (vids : List (List ℕ)) : List ℕ :=
  vids.getD (if numVTypes = 1 then 0 else 1) []

/-! ## `UnitGraph::COO` -/

namespace COO

variable (host : Host) (numVTypes : ℕ) (adj : COOMatrix)

/-- `COOGetAllData`. -/
def getAllData (row col : ℕ) : Except Fault (List ℕ) :=
  (adj.getDataAndIndices host.multimap [row] [col]).map fun found =>
    found.flatten.map fun e => e.2.2

/-- `COO::VertexSubgraph`. -/
def vertexSubgraph (vids : List (List ℕ)) : Except Fault (Answer Adj) :=
  if vids.length ≠ numVTypes then .error .raised
  else
    let submat := adj.sliceMatrix (vids.getD 0 []) (dstVids numVTypes vids)
    .ok (.subgraph (.coo { submat with data := [], rowSorted := false, colSorted := false })
      vids submat.data)

/-- `COO::EdgeSubgraph`; `Relabel_` numbers the ids by their first occurrences. -/
def edgeSubgraph (eids : List (List ℕ)) (preserveNodes : Bool) : Except Fault (Answer Adj) :=
  if eids.length ≠ 1 then .error .raised
  else do
    let newSrc ← indexSelect adj.row (eids.getD 0 [])
    let newDst ← indexSelect adj.col (eids.getD 0 [])
    if preserveNodes then
      return .subgraph (.coo ⟨adj.bits, adj.numRows, adj.numCols, newSrc, newDst, [], false, false⟩)
        [[], []] (eids.getD 0 [])
    else
      let srcs := (IdHashMap.ofIds newSrc).ids
      let dsts := (IdHashMap.ofIds newDst).ids
      return .subgraph (.coo ⟨adj.bits, srcs.length, dsts.length, newSrc.map srcs.idxOf,
        newDst.map dsts.idxOf, [], false, false⟩) [srcs, dsts] (eids.getD 0 [])

/-- The methods of `COO`. -/
def ask : Query → Except Fault (Answer Adj)
  | .hasEdgesBetween src dst => (adj.isNonZeros src dst).map .flags
  | .predecessors dst =>
      if numDstVertices numVTypes adj.numRows adj.numCols ≤ dst then .error .raised
      else (adj.transpose.getRowDataAndIndices dst).map fun es => .nodes (es.map fun e => e.2.1)
  | .successors src =>
      if adj.numRows ≤ src then .error .raised
      else (adj.getRowDataAndIndices src).map fun es => .nodes (es.map fun e => e.2.1)
  | .edgeId src dst =>
      if adj.numRows ≤ src ∨ numDstVertices numVTypes adj.numRows adj.numCols ≤ dst then
        .error .raised
      else (getAllData host adj src dst).map .ids
  | .edgeIdsAll src dst =>
      (adj.getDataAndIndices host.multimap src dst).map fun found =>
        .edges (.ofEntries found.flatten)
  | .findEdges eids => do
      return .edges ⟨← indexSelect adj.row eids, ← indexSelect adj.col eids, eids⟩
  | .inEdges vid =>
      (adj.transpose.getRowDataAndIndices vid).map fun es =>
        .edges ⟨es.map fun e => e.2.1, es.map fun _ => vid, es.map fun e => e.2.2⟩
  | .inEdgesOf vids => do
      let coosubmat := adj.transpose.sliceRows vids
      return .edges ⟨coosubmat.col, ← indexSelect vids coosubmat.row, coosubmat.data⟩
  | .outEdges vid =>
      (adj.getRowDataAndIndices vid).map fun es =>
        .edges ⟨es.map fun _ => vid, es.map fun e => e.2.1, es.map fun e => e.2.2⟩
  | .outEdgesOf vids => do
      let coosubmat := adj.sliceRows vids
      return .edges ⟨← indexSelect vids coosubmat.row, coosubmat.col, coosubmat.data⟩
  | .edges order =>
      if order = "" ∨ order = "eid" then .ok (.edges ⟨adj.row, adj.col, List.range adj.nnz⟩)
      else .error .raised
  | .inDegrees vids => (adj.transpose.getRowsNNZ vids).map .degrees
  | .outDegrees vids => (adj.getRowsNNZ vids).map .degrees
  | .vertexSubgraph vids => vertexSubgraph numVTypes adj vids
  | .edgeSubgraph eids preserveNodes => edgeSubgraph adj eids preserveNodes

end COO

/-! ## `UnitGraph::CSR` -/

namespace CSR

variable (host : Host) (numVTypes : ℕ) (adj : CSRMatrix)

/-- `CSRGetAllData`. -/
def getAllData (row col : ℕ) : Except Fault (List ℕ) :=
  (adj.getDataAndIndices [row] [col]).map fun found => found.flatten.map fun e => e.2.2

/-- `CSR::OutEdges` of one vertex. -/
def outEdges (vid : ℕ) : Except Fault (Answer Adj) :=
  if adj.numRows ≤ vid then .error .raised
  else do
    let dst ← adj.getRowColumnIndices vid
    let eid ← adj.getRowData vid
    return .edges ⟨dst.map fun _ => vid, dst, eid⟩

/-- `CSR::OutEdges` of an id array. -/
def outEdgesOf (vids : List ℕ) : Except Fault (Answer Adj) := do
  let coosubmat := (← adj.sliceRows vids).toCOO
  return .edges ⟨← indexSelect vids coosubmat.row, coosubmat.col, coosubmat.data⟩

/-- `CSR::Edges`. -/
def edges (order : String) : Except Fault (Answer Adj) :=
  if order = "" ∨ order = "srcdst" then
    let coo := if order = "srcdst" then adj.toCOO.sort host.sort else adj.toCOO
    .ok (.edges ⟨coo.row, coo.col, coo.data⟩)
  else .error .raised

/-- `CSR::VertexSubgraph`. -/
def vertexSubgraph (vids : List (List ℕ)) : Except Fault (Answer Adj) :=
  if vids.length ≠ numVTypes then .error .raised
  else do
    let submat ← adj.sliceMatrix (vids.getD 0 []) (dstVids numVTypes vids)
    return .subgraph (.csr { submat with data := List.range submat.data.length }) vids submat.data

/-- The methods of `CSR`. -/
def ask : Query → Except Fault (Answer Adj)
  | .hasEdgesBetween src dst => (adj.isNonZeros src dst).map .flags
  -- It writes a line to the log and goes on.
  | .predecessors _ => .ok .noArray
  | .successors src =>
      if adj.numRows ≤ src then .error .raised
      else (adj.getRowColumnIndices src).map .nodes
  | .edgeId src dst =>
      if adj.numRows ≤ src ∨ numDstVertices numVTypes adj.numRows adj.numCols ≤ dst then
        .error .raised
      else (getAllData adj src dst).map .ids
  | .edgeIdsAll src dst =>
      (adj.getDataAndIndices src dst).map fun found => .edges (.ofEntries found.flatten)
  | .findEdges _ => .error .raised
  | .inEdges _ => .error .raised
  | .inEdgesOf _ => .error .raised
  | .outEdges vid => outEdges adj vid
  | .outEdgesOf vids => outEdgesOf adj vids
  | .edges order => edges host adj order
  | .inDegrees _ => .error .raised
  | .outDegrees vids => (adj.getRowsNNZ vids).map .degrees
  | .vertexSubgraph vids => vertexSubgraph numVTypes adj vids
  | .edgeSubgraph _ _ => .error .raised

end CSR

/-- A virtual call. -/
def Adj.ask (host : Host) (numVTypes : ℕ) : Adj → Query → Except Fault (Answer Adj)
  | .coo m => COO.ask host numVTypes m
  | .csr m => CSR.ask host numVTypes m

/-! ## `UnitGraph` -/

namespace Stored

variable (host : Host) (s : Stored)

/-- `GetFormat`, the matrix. -/
def getFormat (fmt : SparseFormat) : Option Adj :=
  if s.formats.has fmt then
    match fmt with
    | .coo => s.cooMatrix.map .coo
    | .csr => (s.csrMatrix host.threads).map .csr
    | .csc => (s.cscMatrix host.threads).map .csr
  else none

/-- The format that a query uses.  The library for Ascend takes incoming edges from COO if COO is
created. -/
def formatFor : Query → SparseFormat
  | .hasEdgesBetween _ _ => s.selectFormat ⟨false, false, true⟩
  | .predecessors _ => s.selectFormat ⟨false, false, true⟩
  | .successors _ => s.selectFormat ⟨false, true, false⟩
  | .edgeId _ _ => s.selectFormat ⟨false, true, false⟩
  | .edgeIdsAll _ _ => s.selectFormat ⟨false, true, false⟩
  | .findEdges _ => s.selectFormat ⟨true, false, false⟩
  | .inEdges _ =>
      if host.ascend && s.createdFormats.coo then .coo else s.selectFormat ⟨false, false, true⟩
  | .inEdgesOf _ =>
      if host.ascend && s.createdFormats.coo then .coo else s.selectFormat ⟨false, false, true⟩
  | .outEdges _ => s.selectFormat ⟨false, true, false⟩
  | .outEdgesOf _ => s.selectFormat ⟨false, true, false⟩
  | .edges order =>
      if order = "eid" then s.selectFormat ⟨true, false, false⟩
      else if order = "" then s.selectFormat .all
      else s.selectFormat ⟨false, true, false⟩
  | .inDegrees _ => s.selectFormat ⟨false, false, true⟩
  | .outDegrees _ => s.selectFormat ⟨false, true, false⟩
  | .vertexSubgraph _ => s.selectFormat ⟨false, true, false⟩
  | .edgeSubgraph _ _ => s.selectFormat ⟨true, false, false⟩

/-- `new UnitGraph(meta_graph(), subcsc, subcsr, subcoo)` -/
def pack (numVTypes : ℕ) : SparseFormat → Adj → Stored
  | .csc, .csr m => ⟨numVTypes, some m, none, none, .all⟩
  | .csr, .csr m => ⟨numVTypes, none, some m, none, .all⟩
  | .coo, .coo m => ⟨numVTypes, none, none, some m, .all⟩
  -- The cast gives a null pointer.
  | _, _ => ⟨numVTypes, none, none, none, .all⟩

/-- What `UnitGraph` does with the object of the format. -/
def dispatch (fmt : SparseFormat) (adj : Adj) (q : Query) : Except Fault (Answer Stored) :=
  let ask (q : Query) := (adj.ask host s.numVTypes q).map (Answer.mapGraph (pack s.numVTypes fmt))
  match q with
  | .hasEdgesBetween src dst =>
      if fmt = .csc then ask (.hasEdgesBetween dst src) else ask (.hasEdgesBetween src dst)
  | .predecessors dst => if fmt = .csc then ask (.successors dst) else ask (.predecessors dst)
  | .successors src => ask (.successors src)
  | .edgeId src dst => if fmt = .csc then ask (.edgeId dst src) else ask (.edgeId src dst)
  | .edgeIdsAll src dst =>
      if fmt = .csc then (ask (.edgeIdsAll dst src)).map .swapEdges else ask (.edgeIdsAll src dst)
  | .findEdges eids => ask (.findEdges eids)
  | .inEdges vid =>
      if fmt = .csc then (ask (.outEdges vid)).map .swapEdges else ask (.inEdges vid)
  | .inEdgesOf vids =>
      if fmt = .csc then (ask (.outEdgesOf vids)).map .swapEdges else ask (.inEdgesOf vids)
  | .outEdges vid => ask (.outEdges vid)
  | .outEdgesOf vids => ask (.outEdgesOf vids)
  | .edges order =>
      if order = "eid" ∨ order = "" ∨ order = "srcdst" then
        if fmt = .csc then (ask (.edges order)).map .swapEdges else ask (.edges order)
      else .error .raised
  | .inDegrees vids =>
      if fmt = .csc then ask (.outDegrees vids)
      else if fmt = .coo then ask (.inDegrees vids) else .error .raised
  | .outDegrees vids =>
      if fmt = .csr ∨ fmt = .coo then ask (.outDegrees vids) else .error .raised
  | .vertexSubgraph vids => ask (.vertexSubgraph vids)
  | .edgeSubgraph eids preserveNodes => ask (.edgeSubgraph eids preserveNodes)

/-- A query.  The format that it uses stays with the graph. -/
def query (q : Query) : Except Fault (Answer Stored) :=
  match s.getFormat host (s.formatFor host q) with
  | some adj => s.dispatch host (s.formatFor host q) adj q
  | none => .error .raised

end Stored

end DglAscend.Hetero
