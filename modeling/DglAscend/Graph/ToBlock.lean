import Mathlib.Data.List.GetD
import DglAscend.Graph.IdHashMap
import DglAscend.Lib.Loops

/-!
# Blocks of a heterogeneous graph

`ProcessToBlock` of `graph/transform/to_block.cc` on the CPU.  A block has a source and a
destination copy of every node type; its nodes are renumbered by one list of ids per type and side.
The source lists are computed from the edges or supplied by the caller.  The block is faithful: its
edges are those of the graph under the new numbers.  The counts of nodes per type that its meta
graph records are those of the lists when the source lists are computed; supplied source lists are
never counted.
-/

namespace DglAscend.Graph

/-- An edge with its id. -/
structure Edge where
  src : ℕ
  dst : ℕ
  id : ℕ
  deriving DecidableEq, Repr

/-- An edge type: its endpoint types and what `Edges` returns for it. -/
structure Relation where
  srctype : ℕ
  dsttype : ℕ
  edges : List Edge
  deriving DecidableEq, Repr

/-- A heterogeneous graph, which has at least one edge type. -/
structure HeteroGraph where
  numVertexTypes : ℕ
  rels : List Relation
  rels_ne : rels ≠ []
  endpoints : ∀ r ∈ rels, r.srctype < numVertexTypes ∧ r.dsttype < numVertexTypes

/-- A bipartite relation graph, as `CreateFromCOO` makes it. -/
structure UnitGraph where
  numSrc : ℕ
  numDst : ℕ
  edges : List (ℤ × ℤ)
  deriving DecidableEq, Repr

/-- The heterograph that `ProcessToBlock` returns. -/
structure Block where
  metaVertices : ℕ
  metaEdges : List (ℕ × ℕ)
  numVertsPerType : List ℤ
  relationGraphs : List UnitGraph
  deriving DecidableEq, Repr

namespace Block

/-- One endpoint of `InferNumVerticesPerType`. -/
def inferVertices (nums : List ℤ) (vtype nv : ℕ) : Except String (List ℤ) :=
  if nums.getD vtype (-1) < 0 then .ok (nums.set vtype nv)
  else if nums.getD vtype (-1) = nv then .ok nums
  else .error "Mismatch number of vertices for vertex type"

/-- `InferNumVerticesPerType`. -/
def inferNumVerticesPerType (n : ℕ) (es : List (ℕ × ℕ)) (rels : List UnitGraph) :
    Except String (List ℤ) :=
  (es.zip rels).foldlM (fun nums w => do
    let nums ← inferVertices nums w.1.1 w.2.numSrc
    inferVertices nums w.1.2 w.2.numDst) (List.replicate n (-1))

/-- The constructor of `HeteroGraph`, which takes the counts that it is given. -/
def create (n : ℕ) (es : List (ℕ × ℕ)) (rels : List UnitGraph) (nums : List ℤ) :
    Except String Block := do
  let nums ← if nums.length = 0 then inferNumVerticesPerType n es rels else .ok nums
  if es.length ≠ rels.length then .error "Check failed: meta_graph->NumEdges() == rel_graphs.size()"
  else if rels = [] then .error "Empty heterograph is not allowed."
  else .ok ⟨n, es, nums, rels⟩

end Block

namespace HeteroGraph

/-- The edges that the block takes: those into types with destination nodes. -/
def edgeArrays (g : HeteroGraph) (rhsNodes : List (List ℕ)) : List (Option (List Edge)) :=
  g.rels.map fun r => if rhsNodes.getD r.dsttype [] = [] then none else some r.edges

/-- The ids of the source side of a type: the destination nodes, if they are included, and the
sources of all edges out of the type. -/
def gatherLhs (g : HeteroGraph) (rhsNodes : List (List ℕ)) (includeRhs : Bool) (ntype : ℕ) :
    List ℕ :=
  (if includeRhs then rhsNodes.getD ntype [] else []) ++
    (g.rels.zip (g.edgeArrays rhsNodes)).flatMap fun w =>
      if w.1.srctype = ntype then (w.2.getD []).map Edge.src else []

/-- `src_nodes` of `ProcessToBlock`. -/
def srcNodes (g : HeteroGraph) (rhsNodes : List (List ℕ)) (includeRhs : Bool)
    (lhsNodes : List (List ℕ)) : List (List ℕ) :=
  if lhsNodes = [] then (List.range g.numVertexTypes).map (g.gatherLhs rhsNodes includeRhs)
  else lhsNodes

/-- How many ids of a type are seeds of its hash map. -/
def numSeeds (rhsNodes : List (List ℕ)) (includeRhs : Bool) (ntype : ℕ) : ℕ :=
  if includeRhs then (rhsNodes.getD ntype []).length else 0

/-- The hash map of the source side of a type, with its unique ids. -/
def initLhs (srcNodes rhsNodes : List (List ℕ)) (includeRhs : Bool) (race : ℕ → List Bool)
    (ntype : ℕ) : Except String (IdHashMap × List ℕ) :=
  if srcNodes.getD ntype [] = [] then .ok (⟨[]⟩, [])
  else IdHashMap.init (srcNodes.getD ntype []) (numSeeds rhsNodes includeRhs ntype) (race ntype)

/-- The hash map of the destination side of a type, which is not made if the source side has the
destination nodes. -/
def initRhs (rhsNodes : List (List ℕ)) (includeRhs : Bool) (ntype : ℕ) :
    Except String (IdHashMap × List ℕ) :=
  if includeRhs ∨ rhsNodes.getD ntype [] = [] then .ok (⟨[]⟩, [])
  else IdHashMap.init (rhsNodes.getD ntype []) (rhsNodes.getD ntype []).length []

/-- The new sources and destinations of the edges of a type. -/
def mapEdges (lhsMaps rhsMaps : List (IdHashMap × List ℕ)) (includeRhs : Bool)
    (w : Relation × Option (List Edge)) : Except String (List ℤ × List ℤ) :=
  if (w.2.getD []).map Edge.src = [] then .ok ([], [])
  else do
    let newLhs ← (lhsMaps.getD w.1.srctype (⟨[]⟩, [])).1.mapIds ((w.2.getD []).map Edge.src)
    let newRhs ← ((if includeRhs then lhsMaps else rhsMaps).getD w.1.dsttype (⟨[]⟩, [])).1.mapIds
      ((w.2.getD []).map Edge.dst)
    .ok (newLhs, newRhs)

/-- `CPUIdsMapper`: the mapped sources and destinations of every edge type, the source lists and
the counts.  `race` holds the outcome of the insertions for each type. -/
def cpuIdsMapper (g : HeteroGraph) (includeRhs : Bool) (edgeArrays : List (Option (List Edge)))
    (srcNodes rhsNodes lhsNodes : List (List ℕ)) (numNodesPerType : List ℤ)
    (race : ℕ → List Bool) :
    Except String (List (List ℤ × List ℤ) × List (List ℕ) × List ℤ) := do
  let lhsMaps ← (List.range g.numVertexTypes).mapM (initLhs srcNodes rhsNodes includeRhs race)
  let rhsMaps ← (List.range g.numVertexTypes).mapM (initRhs rhsNodes includeRhs)
  let newIds ← (g.rels.zip edgeArrays).mapM (mapEdges lhsMaps rhsMaps includeRhs)
  if lhsNodes = [] then
    .ok (newIds, lhsMaps.map Prod.snd,
      lhsMaps.map (fun m => (m.2.length : ℤ)) ++ numNodesPerType.drop g.numVertexTypes)
  else .ok (newIds, lhsNodes, numNodesPerType)

/-- `ProcessToBlock` on the CPU: the block, the source lists and the induced edges. -/
def processToBlock (g : HeteroGraph) (rhsNodes : List (List ℕ)) (includeRhs : Bool)
    (lhsNodes : List (List ℕ)) (race : ℕ → List Bool) :
    Except String (Block × List (List ℕ) × List (List ℕ)) := do
  if rhsNodes.length ≠ g.numVertexTypes then .error "rhs_nodes not given for every node type"
  else
    let edgeArrays := g.edgeArrays rhsNodes
    let numNodesPerType := List.replicate g.numVertexTypes 0 ++ rhsNodes.map fun l => (l.length : ℤ)
    let (newIds, lhsNodes, numNodesPerType) ← g.cpuIdsMapper includeRhs edgeArrays
      (g.srcNodes rhsNodes includeRhs lhsNodes) rhsNodes lhsNodes numNodesPerType race
    let inducedEdges := edgeArrays.map fun es => (es.getD []).map Edge.id
    let newMetaEdges := g.rels.map fun r => (r.srctype, r.dsttype + g.numVertexTypes)
    let relGraphs := (g.rels.zip newIds).map fun w =>
      let numSrc := (lhsNodes.getD w.1.srctype []).length
      let numDst := (rhsNodes.getD w.1.dsttype []).length
      if numDst = 0 then ⟨numSrc, numDst, []⟩ else ⟨numSrc, numDst, w.2.1.zip w.2.2⟩
    let block ← Block.create (g.numVertexTypes * 2) newMetaEdges relGraphs numNodesPerType
    .ok (block, lhsNodes, inducedEdges)

/-! ## Faithful blocks -/

/-- What `ProcessToBlock` is given: distinct destination nodes that cover the destinations of all
edges.  Source lists that the caller supplies are distinct, cover the sources of all edges, and
start with the destination nodes if these are included.  The threads decide `race`. -/
structure Input (g : HeteroGraph) (rhsNodes : List (List ℕ)) (includeRhs : Bool)
    (lhsNodes : List (List ℕ)) (race : ℕ → List Bool) : Prop where
  rhs_length : rhsNodes.length = g.numVertexTypes
  rhs_nodup : ∀ l ∈ rhsNodes, l.Nodup
  rhs_covers : ∀ r ∈ g.rels, ∀ e ∈ r.edges, e.dst ∈ rhsNodes.getD r.dsttype []
  lhs_length : lhsNodes ≠ [] → lhsNodes.length = g.numVertexTypes
  lhs_nodup : ∀ l ∈ lhsNodes, l.Nodup
  lhs_covers : lhsNodes ≠ [] → ∀ r ∈ g.rels, ∀ e ∈ r.edges, e.src ∈ lhsNodes.getD r.srctype []
  lhs_starts : lhsNodes ≠ [] → includeRhs = true → ∀ t, rhsNodes.getD t [] <+: lhsNodes.getD t []
  races : ∀ t, (g.srcNodes rhsNodes includeRhs lhsNodes).getD t [] ≠ [] →
    IdHashMap.Race ((g.srcNodes rhsNodes includeRhs lhsNodes).getD t [])
      (numSeeds rhsNodes includeRhs t) (race t)

/-- A faithful block, with its source lists and induced edges. -/
structure Faithful (g : HeteroGraph) (rhsNodes : List (List ℕ)) (includeRhs : Bool)
    (out : Block × List (List ℕ) × List (List ℕ)) : Prop where
  metaVertices_eq : out.1.metaVertices = g.numVertexTypes * 2
  metaEdges_eq : out.1.metaEdges = g.rels.map fun r => (r.srctype, r.dsttype + g.numVertexTypes)
  lhs_length : out.2.1.length = g.numVertexTypes
  starts_with_rhs : includeRhs = true → ∀ t, rhsNodes.getD t [] <+: out.2.1.getD t []
  lhs_nodup : ∀ l ∈ out.2.1, l.Nodup
  edges : ∀ (i : ℕ) (r : Relation), g.rels[i]? = some r →
    ∃ u : UnitGraph, out.1.relationGraphs[i]? = some u ∧
    u.numSrc = (out.2.1.getD r.srctype []).length ∧
    u.numDst = (rhsNodes.getD r.dsttype []).length ∧
    (u.edges.map fun p =>
        (load (out.2.1.getD r.srctype []) p.1, load (rhsNodes.getD r.dsttype []) p.2)) =
      r.edges.map fun e => (some e.src, some e.dst)
  induced : out.2.2 = g.rels.map fun r => r.edges.map Edge.id
  lhs_counts : ∀ t < g.numVertexTypes,
    out.1.numVertsPerType[t]? = some ((out.2.1.getD t []).length : ℤ)
  rhs_counts : ∀ t < g.numVertexTypes,
    out.1.numVertsPerType[g.numVertexTypes + t]? = some ((rhsNodes.getD t []).length : ℤ)

variable {g : HeteroGraph} {rhsNodes lhsNodes : List (List ℕ)} {includeRhs : Bool}
  {race : ℕ → List Bool}

/-- The source list of a type: what its hash map keeps of the gathered ids. -/
def lhsUnique (g : HeteroGraph) (rhsNodes : List (List ℕ)) (includeRhs : Bool)
    (lhsNodes : List (List ℕ)) (race : ℕ → List Bool) (t : ℕ) : List ℕ :=
  if (g.srcNodes rhsNodes includeRhs lhsNodes).getD t [] = [] then []
  else IdHashMap.uniqueIds ((g.srcNodes rhsNodes includeRhs lhsNodes).getD t [])
    (numSeeds rhsNodes includeRhs t) (race t)

lemma getD_range_map {α : Type} {n t : ℕ} (ht : t < n) (k : ℕ → α) (d : α) :
    ((List.range n).map k).getD t d = k t := by
  rw [List.getD_eq_getElem _ _ (by simpa using ht), List.getElem_map, List.getElem_range]

variable {t x : ℕ}

section

variable (h : Input g rhsNodes includeRhs lhsNodes race)
include h

/-- The seeds of a type are its destination nodes, which come first. -/
lemma Input.starts_srcNodes (hinc : includeRhs = true) (ht : t < g.numVertexTypes) :
    rhsNodes.getD t [] <+: (g.srcNodes rhsNodes includeRhs lhsNodes).getD t [] := by
  by_cases hgen : lhsNodes = []
  · rw [srcNodes, if_pos hgen, getD_range_map ht, gatherLhs, if_pos hinc]
    exact List.prefix_append _ _
  · rw [srcNodes, if_neg hgen]
    exact h.lhs_starts hgen hinc t

lemma Input.take_srcNodes (ht : t < g.numVertexTypes) :
    ((g.srcNodes rhsNodes includeRhs lhsNodes).getD t []).take (numSeeds rhsNodes includeRhs t) =
      if includeRhs then rhsNodes.getD t [] else [] := by
  by_cases hinc : includeRhs = true
  · rw [numSeeds, if_pos hinc, if_pos hinc]
    exact (List.prefix_iff_eq_take.1 (h.starts_srcNodes hinc ht)).symm
  · rw [numSeeds, if_neg hinc, if_neg hinc, List.take_zero]

lemma Input.nodup_rhs (t : ℕ) : (rhsNodes.getD t []).Nodup := by
  by_cases ht : t < rhsNodes.length
  · rw [List.getD_eq_getElem _ _ ht]
    exact h.rhs_nodup _ (List.getElem_mem ht)
  · rw [List.getD_eq_default _ _ (by omega)]
    exact List.nodup_nil

lemma Input.nodup_lhsUnique (ht : t < g.numVertexTypes) :
    (lhsUnique g rhsNodes includeRhs lhsNodes race t).Nodup := by
  unfold lhsUnique
  by_cases hnil : (g.srcNodes rhsNodes includeRhs lhsNodes).getD t [] = []
  · rw [if_pos hnil]
    exact List.nodup_nil
  · rw [if_neg hnil]
    refine (h.races t hnil).nodup_uniqueIds ?_
    rw [h.take_srcNodes ht]
    by_cases hinc : includeRhs = true
    · rw [if_pos hinc]
      exact h.nodup_rhs t
    · rw [if_neg hinc]
      exact List.nodup_nil

lemma Input.starts_lhsUnique (hinc : includeRhs = true) (ht : t < g.numVertexTypes) :
    rhsNodes.getD t [] <+: lhsUnique g rhsNodes includeRhs lhsNodes race t := by
  unfold lhsUnique
  have hpre := h.starts_srcNodes hinc ht
  by_cases hnil : (g.srcNodes rhsNodes includeRhs lhsNodes).getD t [] = []
  · rw [if_pos hnil]
    rwa [hnil] at hpre
  · rw [if_neg hnil, IdHashMap.uniqueIds, h.take_srcNodes ht, if_pos hinc]
    exact List.prefix_append _ _

lemma Input.mem_lhsUnique (hx : x ∈ (g.srcNodes rhsNodes includeRhs lhsNodes).getD t []) :
    x ∈ lhsUnique g rhsNodes includeRhs lhsNodes race t := by
  have hne : (g.srcNodes rhsNodes includeRhs lhsNodes).getD t [] ≠ [] := List.ne_nil_of_mem hx
  rw [lhsUnique, if_neg hne]
  exact (h.races t hne).covers x hx

/-- Supplied source lists are kept as they are. -/
lemma Input.lhsUnique_eq (hgen : lhsNodes ≠ []) (ht : t < g.numVertexTypes) :
    lhsUnique g rhsNodes includeRhs lhsNodes race t = lhsNodes.getD t [] := by
  have hsrc : g.srcNodes rhsNodes includeRhs lhsNodes = lhsNodes := if_neg hgen
  have hlt : t < lhsNodes.length := h.lhs_length hgen ▸ ht
  unfold lhsUnique
  by_cases hnil : (g.srcNodes rhsNodes includeRhs lhsNodes).getD t [] = []
  · rw [if_pos hnil, ← hsrc, hnil]
  · rw [if_neg hnil, (h.races t hnil).uniqueIds_eq, hsrc]
    rw [hsrc, List.getD_eq_getElem _ _ hlt]
    exact h.lhs_nodup _ (List.getElem_mem hlt)

end

variable {r : Relation}

/-- The sources of the edges of a type are gathered. -/
lemma Input.src_mem (h : Input g rhsNodes includeRhs lhsNodes race) (hr : r ∈ g.rels) {e : Edge}
    (he : e ∈ r.edges) : e.src ∈ (g.srcNodes rhsNodes includeRhs lhsNodes).getD r.srctype [] := by
  by_cases hgen : lhsNodes = []
  · have hdst : rhsNodes.getD r.dsttype [] ≠ [] := List.ne_nil_of_mem (h.rhs_covers r hr e he)
    rw [srcNodes, if_pos hgen, getD_range_map (g.endpoints r hr).1, gatherLhs]
    refine List.mem_append_right _ (List.mem_flatMap.2 ⟨(r, some r.edges), ?_, ?_⟩)
    · rw [edgeArrays, List.zip_map_right, List.mem_map]
      obtain ⟨i, hi, rfl⟩ := List.mem_iff_getElem.1 hr
      refine ⟨(g.rels[i], g.rels[i]), ?_, by simp only [Prod.map, if_neg hdst, id]⟩
      rw [List.mem_iff_getElem]
      exact ⟨i, by simpa using hi, by simp⟩
    · rw [if_pos rfl]
      exact List.mem_map_of_mem he
  · rw [srcNodes, if_neg hgen]
    exact h.lhs_covers hgen r hr e he

/-! ## The run under a proper input -/

/-- The source lists of the block. -/
def lhsLists (g : HeteroGraph) (rhsNodes : List (List ℕ)) (includeRhs : Bool)
    (lhsNodes : List (List ℕ)) (race : ℕ → List Bool) : List (List ℕ) :=
  if lhsNodes = [] then
    (List.range g.numVertexTypes).map (lhsUnique g rhsNodes includeRhs lhsNodes race)
  else lhsNodes

lemma Input.length_lhsLists (h : Input g rhsNodes includeRhs lhsNodes race) :
    (lhsLists g rhsNodes includeRhs lhsNodes race).length = g.numVertexTypes := by
  unfold lhsLists
  by_cases hgen : lhsNodes = []
  · rw [if_pos hgen, List.length_map, List.length_range]
  · rw [if_neg hgen, h.lhs_length hgen]

lemma Input.lhsLists_getD (h : Input g rhsNodes includeRhs lhsNodes race)
    (ht : t < g.numVertexTypes) : (lhsLists g rhsNodes includeRhs lhsNodes race).getD t [] =
      lhsUnique g rhsNodes includeRhs lhsNodes race t := by
  unfold lhsLists
  by_cases hgen : lhsNodes = []
  · rw [if_pos hgen, getD_range_map ht]
  · rw [if_neg hgen, h.lhsUnique_eq hgen ht]

/-- The ids by which destinations of a type are mapped. -/
def dstIds (g : HeteroGraph) (rhsNodes : List (List ℕ)) (includeRhs : Bool)
    (lhsNodes : List (List ℕ)) (race : ℕ → List Bool) (t : ℕ) : List ℕ :=
  if includeRhs then lhsUnique g rhsNodes includeRhs lhsNodes race t else rhsNodes.getD t []

/-- The new ids of the edges of a type. -/
def newIds (g : HeteroGraph) (rhsNodes : List (List ℕ)) (includeRhs : Bool)
    (lhsNodes : List (List ℕ)) (race : ℕ → List Bool) (r : Relation) : List ℤ × List ℤ :=
  (r.edges.map fun e => IdHashMap.mapId
      ⟨(lhsUnique g rhsNodes includeRhs lhsNodes race r.srctype).zipIdx⟩ e.src,
    r.edges.map fun e => IdHashMap.mapId
      ⟨(dstIds g rhsNodes includeRhs lhsNodes race r.dsttype).zipIdx⟩ e.dst)

/-- A hash map with nothing but seeds numbers them in order. -/
lemma init_seeds (ids : List ℕ) : IdHashMap.init ids ids.length [] = .ok (⟨ids.zipIdx⟩, ids) := by
  rw [IdHashMap.init, if_neg (lt_irrefl _), IdHashMap.uniqueIds, IdHashMap.inserted,
    List.take_length, List.zip_nil_right, List.filterMap_nil, List.append_nil]

lemma Input.initLhs_eq (h : Input g rhsNodes includeRhs lhsNodes race) (ht : t < g.numVertexTypes) :
    initLhs (g.srcNodes rhsNodes includeRhs lhsNodes) rhsNodes includeRhs race t =
      .ok (⟨(lhsUnique g rhsNodes includeRhs lhsNodes race t).zipIdx⟩,
        lhsUnique g rhsNodes includeRhs lhsNodes race t) := by
  unfold initLhs lhsUnique
  by_cases hnil : (g.srcNodes rhsNodes includeRhs lhsNodes).getD t [] = []
  · rw [if_pos hnil, if_pos hnil]
    rfl
  · have hle : numSeeds rhsNodes includeRhs t ≤
        ((g.srcNodes rhsNodes includeRhs lhsNodes).getD t []).length := by
      unfold numSeeds
      by_cases hinc : includeRhs = true
      · rw [if_pos hinc]
        exact (h.starts_srcNodes hinc ht).length_le
      · rw [if_neg hinc]
        exact Nat.zero_le _
    rw [if_neg hnil, if_neg hnil, IdHashMap.init, if_neg (by omega)]

/-- The ids that the hash map of the destination side stores. -/
def rhsIds (rhsNodes : List (List ℕ)) (includeRhs : Bool) (t : ℕ) : List ℕ :=
  if includeRhs then [] else rhsNodes.getD t []

lemma initRhs_eq (rhsNodes : List (List ℕ)) (includeRhs : Bool) (t : ℕ) :
    initRhs rhsNodes includeRhs t =
      .ok (⟨(rhsIds rhsNodes includeRhs t).zipIdx⟩, rhsIds rhsNodes includeRhs t) := by
  unfold initRhs rhsIds
  by_cases hinc : includeRhs = true
  · rw [if_pos (Or.inl hinc), if_pos hinc]
    rfl
  · rw [if_neg hinc]
    by_cases hnil : rhsNodes.getD t [] = []
    · rw [if_pos (Or.inr hnil), hnil]
      rfl
    · rw [if_neg (by tauto), init_seeds]

/-- Edges into a type without destination nodes do not exist. -/
lemma Input.edges_getD (h : Input g rhsNodes includeRhs lhsNodes race) (hr : r ∈ g.rels) :
    (if rhsNodes.getD r.dsttype [] = [] then none else some r.edges).getD [] = r.edges := by
  by_cases hnil : rhsNodes.getD r.dsttype [] = []
  · rw [if_pos hnil]
    cases hes : r.edges with
    | nil => rfl
    | cons e es =>
        have hmem := h.rhs_covers r hr e (hes ▸ List.mem_cons_self)
        rw [hnil] at hmem
        exact absurd hmem List.not_mem_nil
  · rw [if_neg hnil]
    rfl

lemma zip_edgeArrays (g : HeteroGraph) (rhsNodes : List (List ℕ)) :
    g.rels.zip (g.edgeArrays rhsNodes) = g.rels.map fun r =>
      (r, if rhsNodes.getD r.dsttype [] = [] then none else some r.edges) :=
  List.map_prod_left_eq_zip.symm

lemma Input.mapEdges_eq (h : Input g rhsNodes includeRhs lhsNodes race) (hr : r ∈ g.rels) : mapEdges
        ((List.range g.numVertexTypes).map fun t =>
          (⟨(lhsUnique g rhsNodes includeRhs lhsNodes race t).zipIdx⟩,
            lhsUnique g rhsNodes includeRhs lhsNodes race t))
        ((List.range g.numVertexTypes).map fun t =>
          (⟨(rhsIds rhsNodes includeRhs t).zipIdx⟩, rhsIds rhsNodes includeRhs t))
        includeRhs (r, if rhsNodes.getD r.dsttype [] = [] then none else some r.edges) =
      .ok (newIds g rhsNodes includeRhs lhsNodes race r) := by
  obtain ⟨hsrc, hdst⟩ := g.endpoints r hr
  rw [mapEdges, h.edges_getD hr]
  by_cases hnil : r.edges = []
  · rw [newIds, hnil]
    rfl
  · have hlen : ∀ k : Edge → ℕ, (r.edges.map k).length ≠ 0 := fun k => by
      rwa [List.length_map, Ne, List.length_eq_zero_iff]
    have hmap : ∀ (m : IdHashMap) (k : Edge → ℕ), m.mapIds (r.edges.map k) =
        .ok (r.edges.map fun e => m.mapId (k e)) := fun m k => by
      rw [IdHashMap.mapIds, if_neg (hlen k), List.map_map]
      rfl
    rw [if_neg fun hs => hnil (List.map_eq_nil_iff.1 hs), getD_range_map hsrc, hmap]
    by_cases hinc : includeRhs = true
    · rw [if_pos hinc, getD_range_map hdst, hmap, newIds, dstIds, if_pos hinc]
      rfl
    · rw [if_neg hinc, getD_range_map hdst, hmap, newIds, dstIds, if_neg hinc, rhsIds, if_neg hinc]
      rfl

/-- **The mapper** returns the new ids, the source lists, and counts of source nodes only if it has
computed them. -/
theorem Input.cpuIdsMapper_eq (h : Input g rhsNodes includeRhs lhsNodes race) (nums : List ℤ) :
    g.cpuIdsMapper includeRhs (g.edgeArrays rhsNodes) (g.srcNodes rhsNodes includeRhs lhsNodes)
        rhsNodes lhsNodes nums race =
      .ok (g.rels.map (newIds g rhsNodes includeRhs lhsNodes race),
        lhsLists g rhsNodes includeRhs lhsNodes race,
        if lhsNodes = [] then
          ((lhsLists g rhsNodes includeRhs lhsNodes race).map fun l => (l.length : ℤ)) ++
            nums.drop g.numVertexTypes
        else nums) := by
  have hlhs := mapM_ok fun t ht => h.initLhs_eq (List.mem_range.1 ht)
  have hrhs := mapM_ok fun t (_ : t ∈ List.range g.numVertexTypes) =>
    initRhs_eq rhsNodes includeRhs t
  have hedges := mapM_ok fun r (hr : r ∈ g.rels) => h.mapEdges_eq hr
  rw [cpuIdsMapper, hlhs, hrhs, zip_edgeArrays]
  simp only [bind, Except.bind]
  rw [List.mapM_map]
  simp only [Function.comp_def]
  rw [hedges]
  unfold lhsLists
  by_cases hgen : lhsNodes = []
  · simp only [if_pos hgen, List.map_map, Function.comp_def]
  · simp only [if_neg hgen]

/-- The relation graph of an edge type in the block. -/
def relGraph (g : HeteroGraph) (rhsNodes : List (List ℕ)) (includeRhs : Bool)
    (lhsNodes : List (List ℕ)) (race : ℕ → List Bool) (r : Relation) : UnitGraph where
  numSrc := ((lhsLists g rhsNodes includeRhs lhsNodes race).getD r.srctype []).length
  numDst := (rhsNodes.getD r.dsttype []).length
  edges := (newIds g rhsNodes includeRhs lhsNodes race r).1.zip
    (newIds g rhsNodes includeRhs lhsNodes race r).2

/-- The counts of nodes that the block records. -/
def counts (g : HeteroGraph) (rhsNodes : List (List ℕ)) (includeRhs : Bool)
    (lhsNodes : List (List ℕ)) (race : ℕ → List Bool) : List ℤ :=
  (if lhsNodes = [] then
      (lhsLists g rhsNodes includeRhs lhsNodes race).map fun l => (l.length : ℤ)
    else List.replicate g.numVertexTypes 0) ++ rhsNodes.map fun l => (l.length : ℤ)

/-- **The result** under a proper input. -/
theorem Input.processToBlock_eq (h : Input g rhsNodes includeRhs lhsNodes race) :
    g.processToBlock rhsNodes includeRhs lhsNodes race =
      .ok (⟨g.numVertexTypes * 2, g.rels.map fun r => (r.srctype, r.dsttype + g.numVertexTypes),
          counts g rhsNodes includeRhs lhsNodes race,
          g.rels.map (relGraph g rhsNodes includeRhs lhsNodes race)⟩,
        lhsLists g rhsNodes includeRhs lhsNodes race, g.rels.map fun r => r.edges.map Edge.id) := by
  have hinduced : (g.edgeArrays rhsNodes).map (fun es => (es.getD []).map Edge.id) =
      g.rels.map fun r => r.edges.map Edge.id := by
    rw [edgeArrays, List.map_map]
    refine List.map_congr_left fun r hr => ?_
    rw [Function.comp_apply, h.edges_getD hr]
  have hcounts : (if lhsNodes = [] then
        ((lhsLists g rhsNodes includeRhs lhsNodes race).map fun l => (l.length : ℤ)) ++
          (List.replicate g.numVertexTypes (0 : ℤ) ++
            rhsNodes.map fun l => (l.length : ℤ)).drop g.numVertexTypes
      else List.replicate g.numVertexTypes (0 : ℤ) ++ rhsNodes.map fun l => (l.length : ℤ)) =
      counts g rhsNodes includeRhs lhsNodes race := by
    have hdrop : (List.replicate g.numVertexTypes (0 : ℤ) ++
        rhsNodes.map fun l => (l.length : ℤ)).drop g.numVertexTypes =
          rhsNodes.map fun l => (l.length : ℤ) :=
      List.drop_left' (List.length_replicate ..)
    unfold counts
    by_cases hgen : lhsNodes = []
    · rw [if_pos hgen, if_pos hgen, hdrop]
    · rw [if_neg hgen, if_neg hgen]
  have hpos : 0 < g.numVertexTypes := by
    obtain ⟨r, hr⟩ := List.exists_mem_of_ne_nil _ g.rels_ne
    exact Nat.zero_lt_of_lt (g.endpoints r hr).1
  have hlen : (counts g rhsNodes includeRhs lhsNodes race).length ≠ 0 := by
    rw [counts, List.length_append, List.length_map, h.rhs_length]
    omega
  have hgraphs : ((g.rels.zip (g.rels.map (newIds g rhsNodes includeRhs lhsNodes race))).map fun w =>
        if (rhsNodes.getD w.1.dsttype []).length = 0 then
          (⟨((lhsLists g rhsNodes includeRhs lhsNodes race).getD w.1.srctype []).length,
            (rhsNodes.getD w.1.dsttype []).length, []⟩ : UnitGraph)
        else ⟨((lhsLists g rhsNodes includeRhs lhsNodes race).getD w.1.srctype []).length,
          (rhsNodes.getD w.1.dsttype []).length, w.2.1.zip w.2.2⟩) =
      g.rels.map (relGraph g rhsNodes includeRhs lhsNodes race) := by
    rw [← List.map_prod_left_eq_zip, List.map_map]
    refine List.map_congr_left fun r hr => ?_
    have hnil : (rhsNodes.getD r.dsttype []).length = 0 → r.edges = [] := fun h0 => by
      have hes := h.edges_getD hr
      rwa [if_pos (List.length_eq_zero_iff.1 h0), Option.getD_none, eq_comm] at hes
    by_cases h0 : (rhsNodes.getD r.dsttype []).length = 0
    · simp only [Function.comp_apply, if_pos h0, relGraph, newIds, hnil h0, List.map_nil,
        List.zip_nil_right]
    · simp only [Function.comp_apply, if_neg h0, relGraph]
  rw [processToBlock, if_neg (not_not.2 h.rhs_length)]
  simp only [bind, Except.bind]
  rw [h.cpuIdsMapper_eq]
  simp only [hinduced, hcounts, hgraphs]
  simp only [Block.create, if_neg hlen, bind, Except.bind, List.length_map, ne_eq,
    not_true_eq_false, if_false, List.map_eq_nil_iff, g.rels_ne]

/-! ## What is faithful about the block -/

/-- A position in distinct ids is the position in a prefix that has the id. -/
lemma load_of_starts {l l' : List ℕ} {v : ℤ} (hpre : l <+: l') (hnodup : l'.Nodup) (hx : x ∈ l)
    (hload : load l' v = some x) : load l v = some x := by
  obtain ⟨j, hj, rfl⟩ := List.mem_iff_getElem.1 hx
  obtain ⟨rest, rfl⟩ := hpre
  unfold load at hload ⊢
  by_cases h0 : 0 ≤ v
  · rw [if_pos h0] at hload ⊢
    obtain ⟨hlt, hget⟩ := List.getElem?_eq_some_iff.1 hload
    have hj' : j < (l ++ rest).length := by
      rw [List.length_append]
      omega
    have heq : v.toNat = j := by
      refine (List.Nodup.getElem_inj_iff hnodup).1 (?_ : (l ++ rest)[v.toNat] = (l ++ rest)[j])
      rw [hget, List.getElem_append_left hj]
    rw [heq, List.getElem?_eq_getElem hj]
  · rw [if_neg h0] at hload
    exact absurd hload (Option.some_ne_none _).symm

section

variable (h : Input g rhsNodes includeRhs lhsNodes race)
include h

/-- **The edges of the block** are those of the graph, under the new numbers. -/
theorem Input.relGraph_edges (hr : r ∈ g.rels) :
    ((relGraph g rhsNodes includeRhs lhsNodes race r).edges.map fun p =>
        (load ((lhsLists g rhsNodes includeRhs lhsNodes race).getD r.srctype []) p.1,
          load (rhsNodes.getD r.dsttype []) p.2)) =
      r.edges.map fun e => (some e.src, some e.dst) := by
  obtain ⟨hsrc, hdst⟩ := g.endpoints r hr
  rw [relGraph, newIds, List.zip_map', List.map_map, h.lhsLists_getD hsrc]
  refine List.map_congr_left fun e he => ?_
  have h1 := IdHashMap.load_mapId (h.mem_lhsUnique (h.src_mem hr he))
  have h2 : load (rhsNodes.getD r.dsttype []) (IdHashMap.mapId
      ⟨(dstIds g rhsNodes includeRhs lhsNodes race r.dsttype).zipIdx⟩ e.dst) = some e.dst := by
    have hmem := h.rhs_covers r hr e he
    unfold dstIds
    by_cases hinc : includeRhs = true
    · rw [if_pos hinc]
      have hpre := h.starts_lhsUnique hinc hdst
      exact load_of_starts hpre (h.nodup_lhsUnique hdst) hmem
        (IdHashMap.load_mapId (hpre.subset hmem))
    · rw [if_neg hinc]
      exact IdHashMap.load_mapId hmem
  rw [Function.comp_apply, h1, h2]

lemma Input.nodup_lhsLists : ∀ l ∈ lhsLists g rhsNodes includeRhs lhsNodes race, l.Nodup := by
  intro l hl
  obtain ⟨t, ht, rfl⟩ := List.mem_iff_getElem.1 hl
  have htn : t < g.numVertexTypes := h.length_lhsLists ▸ ht
  rw [← List.getD_eq_getElem _ [] ht, h.lhsLists_getD htn]
  exact h.nodup_lhsUnique htn

lemma Input.starts_lhsLists (hinc : includeRhs = true) (t : ℕ) :
    rhsNodes.getD t [] <+: (lhsLists g rhsNodes includeRhs lhsNodes race).getD t [] := by
  by_cases ht : t < g.numVertexTypes
  · rw [h.lhsLists_getD ht]
    exact h.starts_lhsUnique hinc ht
  · rw [List.getD_eq_default _ _ (by rw [h.rhs_length]; omega)]
    exact List.nil_prefix

lemma Input.counts_lhs (ht : t < g.numVertexTypes) :
    (counts g rhsNodes includeRhs lhsNodes race)[t]? =
      some (if lhsNodes = [] then
        (((lhsLists g rhsNodes includeRhs lhsNodes race).getD t []).length : ℤ) else 0) := by
  have hlt : t < (lhsLists g rhsNodes includeRhs lhsNodes race).length := h.length_lhsLists ▸ ht
  unfold counts
  by_cases hgen : lhsNodes = []
  · rw [if_pos hgen, if_pos hgen, List.getElem?_append_left (by rwa [List.length_map]),
      List.getElem?_map, List.getElem?_eq_getElem hlt, List.getD_eq_getElem _ _ hlt]
    rfl
  · rw [if_neg hgen, if_neg hgen, List.getElem?_append_left (by rwa [List.length_replicate]),
      List.getElem?_replicate, if_pos ht]

lemma Input.counts_rhs (ht : t < g.numVertexTypes) :
    (counts g rhsNodes includeRhs lhsNodes race)[g.numVertexTypes + t]? =
      some ((rhsNodes.getD t []).length : ℤ) := by
  have hlt : t < rhsNodes.length := h.rhs_length ▸ ht
  have hlen : (if lhsNodes = [] then
      (lhsLists g rhsNodes includeRhs lhsNodes race).map fun l => (l.length : ℤ)
    else List.replicate g.numVertexTypes 0).length = g.numVertexTypes := by
    by_cases hgen : lhsNodes = []
    · rw [if_pos hgen, List.length_map, h.length_lhsLists]
    · rw [if_neg hgen, List.length_replicate]
  rw [counts, List.getElem?_append_right (by rw [hlen]; exact Nat.le_add_right _ _), hlen,
    Nat.add_sub_cancel_left, List.getElem?_map, List.getElem?_eq_getElem hlt,
    List.getD_eq_getElem _ _ hlt]
  rfl

end

/-- **When the block is faithful**: exactly when the source lists are computed, or supplied and
empty.  The mapper counts the source nodes only while it computes them. -/
theorem processToBlock_faithful_iff (h : Input g rhsNodes includeRhs lhsNodes race) :
    (∃ out, g.processToBlock rhsNodes includeRhs lhsNodes race = .ok out ∧
        Faithful g rhsNodes includeRhs out) ↔ ∀ l ∈ lhsNodes, l = [] := by
  rw [h.processToBlock_eq]
  constructor
  · rintro ⟨out, hout, hf⟩ l hl
    obtain rfl := Except.ok.inj hout
    have hgen : lhsNodes ≠ [] := List.ne_nil_of_mem hl
    obtain ⟨t, ht, rfl⟩ := List.mem_iff_getElem.1 hl
    have htn : t < g.numVertexTypes := h.lhs_length hgen ▸ ht
    have hcount := (h.counts_lhs htn).symm.trans (hf.lhs_counts t htn)
    rw [if_neg hgen, lhsLists, if_neg hgen, List.getD_eq_getElem _ _ ht] at hcount
    have hzero := Option.some.inj hcount
    exact List.length_eq_zero_iff.1 (by exact_mod_cast hzero.symm)
  · intro hempty
    refine ⟨_, rfl, ⟨rfl, rfl, h.length_lhsLists, h.starts_lhsLists, h.nodup_lhsLists,
      fun i r hi => ?_, rfl, fun t ht => ?_, fun t ht => h.counts_rhs ht⟩⟩
    · refine ⟨_, ?_, rfl, rfl, h.relGraph_edges (List.mem_of_getElem? hi)⟩
      rw [List.getElem?_map, hi]
      rfl
    · rw [h.counts_lhs ht]
      by_cases hgen : lhsNodes = []
      · rw [if_pos hgen]
      · have hlt : t < lhsNodes.length := h.lhs_length hgen ▸ ht
        rw [if_neg hgen, lhsLists, if_neg hgen, List.getD_eq_getElem _ _ hlt,
          hempty _ (List.getElem_mem hlt)]
        rfl

/-! ## One edge -/

/-- One node type and one edge, from node 1 to node 0. -/
def oneEdge : HeteroGraph where
  numVertexTypes := 1
  rels := [⟨0, 0, [⟨1, 0, 0⟩]⟩]
  rels_ne := by simp
  endpoints := by simp

lemma race_oneEdge : IdHashMap.Race [0, 1] 1 [true] :=
  ⟨rfl, by decide, by decide, by decide⟩

/-- The block of node 0, with computed source nodes. -/
theorem processToBlock_faithful_iff_oneEdge :
    ∃ out, oneEdge.processToBlock [[0]] true [] (fun _ => [true]) = .ok out ∧
      Faithful oneEdge [[0]] true out := by
  refine (processToBlock_faithful_iff ⟨rfl, by decide, by decide, by simp, by simp, by simp,
    by simp, fun t ht => ?_⟩).2 (by simp)
  cases t with
  | zero => exact race_oneEdge
  | succ t => exact absurd rfl ht

/-- With the same source nodes supplied, the block records no source nodes. -/
theorem not_faithful_oneEdge :
    Input oneEdge [[0]] true [[0, 1]] (fun _ => [true]) ∧
      ¬∃ out, oneEdge.processToBlock [[0]] true [[0, 1]] (fun _ => [true]) = .ok out ∧
        Faithful oneEdge [[0]] true out := by
  refine ⟨⟨rfl, by decide, by decide, fun _ => rfl, by decide, fun _ => by decide, fun _ _ t => ?_,
    fun t ht => ?_⟩, ?_⟩
  · cases t with
    | zero => exact ⟨[1], rfl⟩
    | succ t => exact List.prefix_refl _
  · cases t with
    | zero => exact race_oneEdge
    | succ t => exact absurd rfl ht
  · rintro ⟨out, hout, hf⟩
    have hrun : oneEdge.processToBlock [[0]] true [[0, 1]] (fun _ => [true]) =
        .ok (⟨2, [(0, 1)], [0, 1], [⟨2, 1, [(1, 0)]⟩]⟩, [[0, 1]], [[0]]) := rfl
    obtain rfl := Except.ok.inj (hrun.symm.trans hout)
    have hcount := hf.lhs_counts 0 (by decide)
    simp at hcount

end HeteroGraph

end DglAscend.Graph
