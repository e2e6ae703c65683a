import DglAscend.Bfs.Kernel

/-!
# The BFS on the CPU

`BFSTraverseNodes` and `BFSTraverseEdges` of `array/cpu/traversal.h` with the queue and the
callbacks of `array/cpu/traversal.cc`.  The queue is a vector with a head that moves on.
-/

namespace DglAscend.Bfs

/-- `VectorQueueWrapper`. -/
structure VectorQueue where
  vec : List ℤ
  head : ℕ

namespace VectorQueue

def push (q : VectorQueue) (x : ℤ) : VectorQueue := { q with vec := q.vec ++ [x] }

def top (q : VectorQueue) : ℤ := q.vec.getD q.head 0

def pop (q : VectorQueue) : VectorQueue := { q with head := q.head + 1 }

def empty (q : VectorQueue) : Bool := q.head = q.vec.length

def size (q : VectorQueue) : ℕ := q.vec.length - q.head

end VectorQueue

/-- The queue, the visited nodes, and what the callbacks have collected. -/
structure Traversal where
  queue : VectorQueue
  visited : ℤ → Bool
  edges : List ℤ
  sections : List ℤ
  firstFrontier : Bool

variable (g : Args) (isEdge : Bool)

/-- The edge id that `BFSTraverseEdges` visits. -/
def Args.edgeId (g : Args) (idx : ℤ) : ℤ :=
  match g.eid with
  | some eid => eid idx
  | none => idx

/-- `visit`: the nodes are in the queue already, the edges are collected. -/
def visit (s : Traversal) (idx : ℤ) : Traversal :=
  if isEdge then { s with edges := s.edges ++ [g.edgeId idx] } else s

/-- `make_frontier` does not push the first section when doing edges. -/
def makeFrontier (s : Traversal) : Traversal :=
  if isEdge ∧ s.firstFrontier then { s with firstFrontier := false }
  else if s.queue.empty then s
  else { s with sections := s.sections ++ [(s.queue.size : ℤ)] }

/-- The body of the loop over the edges of a node. -/
def traverseEdge (s : Traversal) (idx : ℤ) : Traversal :=
  let v := g.indices idx
  if s.visited v then s
  else
    let s := visit g isEdge { s with visited := Function.update s.visited v true } idx
    { s with queue := s.queue.push v }

/-- The body of the loop over the queue. -/
def traverseNode (s : Traversal) : Traversal :=
  let u := s.queue.top
  (List.range (g.indptr (u + 1) - g.indptr u).toNat).foldl
    (fun s (off : ℕ) => traverseEdge g isEdge s (g.indptr u + off)) { s with queue := s.queue.pop }

/-- The loop over the levels. -/
def traverseLevels : ℕ → Traversal → Traversal
  | 0, s => s
  | fuel + 1, s =>
    if s.queue.empty then s
    else traverseLevels fuel
      (makeFrontier isEdge ((traverseNode g isEdge)^[s.queue.size] s))

/-- `BFSTraverseNodes` and `BFSTraverseEdges`, with the callbacks of the frontiers. -/
def traverse : Traversal :=
  let s := g.source.foldl
    (fun s u => { s with visited := Function.update s.visited u true, queue := s.queue.push u })
    ⟨⟨[], 0⟩, fun _ => false, [], [], true⟩
  traverseLevels g isEdge (g.numRows + 1) (makeFrontier isEdge s)

/-- The ids of `BFSNodesFrontiers` or `BFSEdgesFrontiers`. -/
def Traversal.ids (s : Traversal) : List ℤ := if isEdge then s.edges else s.queue.vec

end DglAscend.Bfs
