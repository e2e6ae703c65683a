import Mathlib.Tactic

/-!
# The BFS kernel

`KernelBfs::ProcessSerial` of `array/ascend/bfs_core.h`, for node frontiers and for edge frontiers.
The arrays are functions, since the kernel reads them wherever `indptr` points.  The state has the
buffers, the cursors, and the cells that were written, in order.
-/

namespace DglAscend.Bfs

/-- What the kernel is launched with.  `wide` says that ids have 64 bits. -/
structure Args where
  wide : Bool
  numRows : ℕ
  nnz : ℕ
  indptr : ℤ → ℤ
  indices : ℤ → ℤ
  eid : Option (ℤ → ℤ)
  source : List ℤ

namespace Args

/-- A node. -/
def InRange (g : Args) (v : ℤ) : Prop := 0 ≤ v ∧ v < g.numRows

instance (g : Args) (v : ℤ) : Decidable (g.InRange v) := inferInstanceAs (Decidable (_ ∧ _))

/-- `CHUNK`. -/
def chunk (g : Args) : ℕ := if g.wide then 512 else 1024

/-- `(int32_t)`. -/
def toInt32 (x : ℤ) : ℤ := x.bmod (2 ^ 32)

/-- `(T)`. -/
def toId (g : Args) (x : ℤ) : ℤ := if g.wide then x.bmod (2 ^ 64) else toInt32 x

/-- `RdEid`. -/
def rdEid (g : Args) (idx : ℤ) : ℤ :=
  match g.eid with
  | some eid => eid idx
  | none => g.toId idx

/-- The offsets of the edges of a row, window by window. -/
def offsets (chunk deg : ℕ) : List ℕ :=
  (List.range ((deg + chunk - 1) / chunk)).flatMap fun k =>
    List.range' (k * chunk) (min (deg - k * chunk) chunk)

/-- The degree of a row. -/
def degree (g : Args) (u : ℤ) : ℕ := (g.indptr (u + 1) - g.indptr u).toNat

/-- The edges of a row, in the order of the windows. -/
def rowEdges (g : Args) (u : ℤ) : List ℤ :=
  (offsets g.chunk (g.degree u)).map fun off : ℕ => g.indptr u + off

end Args

/-- The buffers that the kernel writes. -/
inductive Buffer
  | visTag
  | ids
  | sections
  | frNodes
  deriving DecidableEq, Repr

/-- The state of the kernel. -/
structure State where
  errflag : ℕ
  visTag : ℤ → ℤ
  ids : ℕ → ℤ
  sections : ℕ → ℤ
  frNodes : ℕ → ℤ
  t : ℕ
  secIdx : ℕ
  frTotal : ℕ
  w : ℕ
  writes : List (Buffer × ℤ)

namespace State

/-- `SetErr`. -/
def setErr (s : State) (cls : ℕ) : State := { s with errflag := cls }

/-- `WrVis`. -/
def wrVis (s : State) (v x : ℤ) : State :=
  { s with visTag := Function.update s.visTag v x, writes := s.writes ++ [(Buffer.visTag, v)] }

/-- `idsGm_.SetValue`. -/
def setId (s : State) (i : ℕ) (x : ℤ) : State :=
  { s with ids := Function.update s.ids i x, writes := s.writes ++ [(Buffer.ids, (i : ℤ))] }

/-- `secGm_.SetValue`. -/
def setSection (s : State) (i : ℕ) (x : ℤ) : State :=
  { s with sections := Function.update s.sections i x, writes := s.writes ++ [(Buffer.sections, (i : ℤ))] }

/-- `frNodesGm_.SetValue`. -/
def setFrNode (s : State) (i : ℕ) (x : ℤ) : State :=
  { s with frNodes := Function.update s.frNodes i x, writes := s.writes ++ [(Buffer.frNodes, (i : ℤ))] }

variable (s : State)

@[simp] lemma wrVis_visTag (v x : ℤ) : (s.wrVis v x).visTag = Function.update s.visTag v x := rfl

@[simp] lemma wrVis_errflag (v x : ℤ) : (s.wrVis v x).errflag = s.errflag := rfl

@[simp] lemma setErr_errflag (cls : ℕ) : (s.setErr cls).errflag = cls := rfl

@[simp] lemma setErr_visTag (cls : ℕ) : (s.setErr cls).visTag = s.visTag := rfl

end State

variable (g : Args) (isEdge : Bool)

/-- The frontier is read back from where the nodes were written. -/
def State.readNode (s : State) (i : ℕ) : ℤ := if isEdge then s.frNodes i else s.ids i

/-- The body of the loop over the edges of a row. -/
def visitEdge (curLayer : ℤ) (s : State) (idx : ℤ) : State :=
  let v := g.indices idx
  if ¬g.InRange v then s.setErr 4
  else if s.visTag v = 0 then
    let s := s.wrVis v (curLayer + 1)
    let s := if isEdge then
        (s.setId s.t (g.rdEid idx)).setFrNode (s.frTotal + s.w) (Args.toInt32 v)
      else s.setId s.t (g.toId v)
    { s with t := s.t + 1, w := s.w + 1 }
  else s

/-- The body of the loop over the frontier. -/
def visitNode (curLayer : ℤ) (frontStart : ℕ) (s : State) (fi : ℕ) : State :=
  let u := s.readNode isEdge (frontStart + fi)
  if g.InRange u then (g.rowEdges u).foldl (visitEdge g isEdge curLayer) s else s

/-- The loop over the frontier. -/
def visitLevel (curLayer : ℤ) (frontStart frontLen : ℕ) (s : State) : State :=
  (List.range frontLen).foldl (visitNode g isEdge curLayer frontStart) { s with w := 0 }

/-- The section of a level that has found something. -/
def closeLevel (s : State) : State :=
  if 0 < s.w then { s.setSection s.secIdx s.w with secIdx := s.secIdx + 1 } else s

/-- The loop over the levels, with the length of the frontier that is left. -/
def visitLevels : ℕ → ℤ → ℕ → ℕ → State → State × ℕ
  | 0, _, _, frontLen, s => (s, frontLen)
  | fuel + 1, curLayer, frontStart, frontLen, s =>
    if frontLen = 0 then (s, 0)
    else
      let frBase := s.frTotal
      let s := closeLevel (visitLevel g isEdge curLayer frontStart frontLen s)
      let frontStart := if isEdge then frBase else s.t - s.w
      visitLevels fuel (curLayer + 1) frontStart s.w { s with frTotal := s.frTotal + s.w }

/-- The checks of `indptr`. -/
def checkIndptr (s : State) : State :=
  let s := if ∃ i < g.numRows, g.indptr (i + 1) < g.indptr i then s.setErr 1 else s
  if 0 < g.numRows ∧ g.indptr g.numRows ≠ g.toId g.nnz then s.setErr 2 else s

/-- `visTag` is cleared. -/
def clearVisTag (s : State) : State :=
  (List.range g.numRows).foldl (fun s (i : ℕ) => s.wrVis i 0) s

/-- A source node is marked. -/
def markSource (s : State) (u : ℤ) : State := if g.InRange u then s.wrVis u 1 else s.setErr 3

/-- The source nodes are marked. -/
def markSources (s : State) : State := g.source.foldl (markSource g) s

/-- The source nodes are the first frontier. -/
def storeSources (s : State) : State :=
  if g.source = [] then s
  else if isEdge then
    { (List.range g.source.length).foldl
        (fun s i => s.setFrNode i (Args.toInt32 (g.source.getD i 0))) s with
      frTotal := g.source.length }
  else
    let s := (List.range g.source.length).foldl (fun s i => s.setId i (g.source.getD i 0)) s
    { s.setSection s.secIdx g.source.length with
      t := g.source.length, secIdx := s.secIdx + 1 }

/-- Before the kernel, with whatever is in the memory of the buffers. -/
def initState (visTag : ℤ → ℤ) (ids sections frNodes : ℕ → ℤ) : State :=
  ⟨0, visTag, ids, sections, frNodes, 0, 0, 0, 0, []⟩

/-- `ProcessSerial`, with the length of the frontier that is left. -/
def processSerial (s : State) : State × ℕ :=
  visitLevels g isEdge (g.numRows + 1) 1 0 g.source.length
    (storeSources g isEdge (markSources g (clearVisTag g (checkIndptr g s))))

/-- The ids that the host reads back. -/
def State.idsOut (s : State) : List ℤ := (List.range s.t).map s.ids

/-- The sections that the host reads back. -/
def State.sectionsOut (s : State) : List ℤ := (List.range s.secIdx).map s.sections

end DglAscend.Bfs
