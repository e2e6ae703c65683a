import DglAscend.Graph.FusedExclusion
import DglAscend.Hetero.HeteroGraph

/-!
# Excluding edges from a sample

`ExcludeCertainEdges` of `neighbor.cc` removes the excluded edges from a sampled heterograph: the ids, the
weights and the places of the edges that stay move to the front, and the edges at these places make the
new graph.  It passes over an edge type without sampled edges, which the variant for CSR matrices does not.
-/

namespace DglAscend.Graph

open Aten Hetero

/-- The arrays of an edge type, and `outId`. -/
structure ListScan (W : Type) where
  out : ℕ
  idx : List ℕ
  inducedEdges : List ℕ
  weights : List W

/-- What remains of an edge type. -/
structure Remaining (W : Type) where
  edges : List ℕ
  inducedEdges : List ℕ
  weights : List W
  deriving DecidableEq, Repr

section Definitions

variable {W : Type} [Inhabited W]

/-- The body of the loop over the edges. -/
def ListScan.entry (gone : ℕ → Bool) (s : ListScan W) (i : ℕ) : ListScan W :=
  if gone (s.inducedEdges.getD i default) then s
  else ⟨s.out + 1, moveTo s.idx s.out i, moveTo s.inducedEdges s.out i, moveWeights s.weights s.out i⟩

/-- `ExcludeCertainEdges` for an edge type. -/
def remaining (sort : StdSort ℕ) (inducedEdges excludeEdges : List ℕ) (weights : List W) :
    Except Fault (Remaining W) :=
  let edgeIds := List.range inducedEdges.length
  if excludeEdges = [] ∨ edgeIds = [] then .ok ⟨edgeIds, inducedEdges, weights⟩
  else do
    let s := (List.range inducedEdges.length).foldl (ListScan.entry (excluded sort excludeEdges))
      ⟨0, edgeIds, inducedEdges, weights⟩
    return ⟨← firstOf s.idx s.out, ← firstOf s.inducedEdges s.out, ← firstWeights s.weights s.out⟩

/-- `(*weights)[etype]`, nothing if the pointer is null. -/
def weightsOf (weights : Option (List (List W))) (etype : ℕ) : List W :=
  match weights with
  | none => []
  | some ws => ws.getD etype []

/-- `ExcludeCertainEdges`. -/
def excludeCertainEdges (host : Host) (sort : StdSort ℕ) (sg : HeteroSubgraph)
    (excludeEdges : List (List ℕ)) (weights : Option (List (List W))) :
    Except Fault (HeteroSubgraph × List (List W)) := do
  let remain ← (List.range sg.graph.numEdgeTypes).mapM fun etype =>
    remaining sort (sg.inducedEdges.getD etype []) (excludeEdges.getD etype []) (weightsOf weights etype)
  let subg ← sg.graph.edgeSubgraphPreserveNodes host (remain.map Remaining.edges)
  return ({ subg with inducedEdges := remain.map Remaining.inducedEdges }, remain.map Remaining.weights)

end Definitions

/-! ## Sampled edge types -/

/-- The arrays of an edge type of a sample. -/
structure ListedSample (W : Type) where
  coo : COOMatrix
  ids : List ℕ
  weights : List W
  deriving DecidableEq, Repr

/-- A sampled edge: its ends, id and weight. -/
structure ListedEdge (W : Type) where
  src : ℕ
  dst : ℕ
  id : ℕ
  weight : Option W
  deriving DecidableEq, Repr

namespace ListedSample

variable {W : Type}

/-- The arrays belong together. -/
structure Aligned (s : ListedSample W) : Prop where
  col : s.coo.col.length = s.coo.nnz
  ids : s.ids.length = s.coo.nnz
  weights : s.weights = [] ∨ s.weights.length = s.coo.nnz

/-- The edge at a place. -/
def edge (s : ListedSample W) (p : ℕ) : ListedEdge W :=
  ⟨s.coo.row.getD p 0, s.coo.col.getD p 0, s.ids.getD p 0, s.weights[p]?⟩

/-- The sampled edges in the order of the arrays. -/
def edges (s : ListedSample W) : List (ListedEdge W) := (List.range s.coo.nnz).map s.edge

/-- The sample has the edges that are not excluded, in their order, and nothing is changed if nothing is
to be excluded. -/
structure Filtered (s : ListedSample W) (excludeEdges : List ℕ) (s' : ListedSample W) : Prop where
  aligned : s'.Aligned
  numRows : s'.coo.numRows = s.coo.numRows
  numCols : s'.coo.numCols = s.coo.numCols
  edges : s'.edges = s.edges.filter fun e => e.id ∉ excludeEdges
  unchanged : excludeEdges = [] →
    s'.coo.row = s.coo.row ∧ s'.coo.col = s.coo.col ∧ s'.ids = s.ids ∧ s'.weights = s.weights

end ListedSample

/-- The graph of an edge type is a COO matrix with the arrays. -/
def IsListed {W : Type} (sg : HeteroSubgraph) (weights : List W) (etype : ℕ) (s : ListedSample W) : Prop :=
  (∃ n, sg.graph.rel etype = ⟨n, none, none, some s.coo, .all⟩) ∧
    sg.inducedEdges.getD etype [] = s.ids ∧ weights = s.weights

/-- What has been sampled for the edge types, with a list of edges to exclude for each. -/
structure Listed {W : Type} (sg : HeteroSubgraph) (excludeEdges : List (List ℕ))
    (weights : Option (List (List W))) (s : ℕ → ListedSample W) : Prop where
  nonempty : sg.graph.etypes ≠ []
  lists : excludeEdges.length = sg.graph.numEdgeTypes
  rel : ∀ t < sg.graph.numEdgeTypes, IsListed sg (weightsOf weights t) t (s t) ∧ (s t).Aligned

/-! ## One edge type -/

section EdgeType

variable {W : Type} [Inhabited W] {ids : List ℕ} {weights : List W}

/-- The places below `n` of the ids that stay. -/
def keptIds (gone : ℕ → Bool) (ids : List ℕ) (n : ℕ) : List ℕ :=
  keptBelow (fun p => !gone (ids.getD p default)) n

/-- The weights of the edges that stay. -/
def keptWeights (weights : List W) (kept : List ℕ) : List W :=
  if weights = [] then [] else kept.map (weights.getD · default)

lemma firstWeights_compacted {kept : List ℕ} (hkept : kept.length ≤ weights.length) :
    firstWeights (compactedWeights weights kept) kept.length = .ok (keptWeights weights kept) := by
  by_cases hnil : weights = []
  · rw [compactedWeights, keptWeights, if_pos hnil, if_pos hnil]
    rfl
  · have hpos := List.length_pos_iff.2 hnil
    have hlen := length_compacted hkept
    rw [compactedWeights, keptWeights, if_neg hnil, if_neg hnil, firstWeights, if_neg,
      firstOf_compacted hpos hkept]
    intro hcompacted
    rw [hcompacted, List.length_nil] at hlen
    omega

lemma entries_run_list (gone : ℕ → Bool) (hw : weights = [] ∨ weights.length = ids.length) {n : ℕ}
    (hn : n ≤ ids.length) :
    (List.range n).foldl (ListScan.entry gone) ⟨0, List.range ids.length, ids, weights⟩ =
      ⟨(keptIds gone ids n).length, compacted (List.range ids.length) (keptIds gone ids n),
        compacted ids (keptIds gone ids n), compactedWeights weights (keptIds gone ids n)⟩ := by
  induction n with
  | zero =>
      have hweights : compactedWeights weights [] = weights := by
        rw [compactedWeights, compacted_nil]
        split_ifs with hnil
        · exact hnil.symm
        · rfl
      show _ = ListScan.mk 0 _ _ (compactedWeights weights [])
      rw [hweights]
      rfl
  | succ n ih =>
      have hkept : (keptIds gone ids n).length ≤ n := length_keptBelow_le _ _
      have hsucc : keptIds gone ids (n + 1) = if !gone (ids.getD n default) then
          keptIds gone ids n ++ [n] else keptIds gone ids n := keptBelow_succ _ n
      rw [List.range_succ, List.foldl_append, ih (Nat.le_of_succ_le hn), List.foldl_cons, List.foldl_nil,
        ListScan.entry]
      show (if gone ((compacted ids (keptIds gone ids n)).getD n default) then _ else _) = _
      rw [compacted_getD hkept, hsucc]
      cases gone (ids.getD n default) with
      | true => rfl
      | false =>
          show ListScan.mk _ (moveTo _ _ _) (moveTo _ _ _) (moveWeights _ _ _) = ListScan.mk
            (keptIds gone ids n ++ [n]).length (compacted _ (keptIds gone ids n ++ [n])) (compacted _ _)
            (compactedWeights _ (keptIds gone ids n ++ [n]))
          rw [moveTo_compacted hkept hn, moveTo_compacted hkept (by rwa [List.length_range]),
            moveWeights_compacted hw hkept hn, List.length_append, List.length_singleton]
          rfl

/-- **What remains of an edge type.** -/
lemma remaining_eq (sort : StdSort ℕ) (excludeEdges : List ℕ)
    (hw : weights = [] ∨ weights.length = ids.length) :
    remaining sort ids excludeEdges weights =
      .ok ⟨keptIds (excluded sort excludeEdges) ids ids.length,
        (keptIds (excluded sort excludeEdges) ids ids.length).map (ids.getD · default),
        keptWeights weights (keptIds (excluded sort excludeEdges) ids ids.length)⟩ := by
  have hkept : (keptIds (excluded sort excludeEdges) ids ids.length).length ≤ ids.length :=
    length_keptBelow_le _ _
  by_cases hguard : excludeEdges = [] ∨ List.range ids.length = []
  · have hall : keptIds (excluded sort excludeEdges) ids ids.length = List.range ids.length := by
      rcases hguard with rfl | hnil
      · apply List.filter_eq_self.2
        intro p _
        rw [excluded_eq]
        rfl
      · rw [keptIds, keptBelow, hnil]
        rfl
    have hweights : keptWeights weights (List.range ids.length) = weights := by
      rw [keptWeights]
      split_ifs with hnil
      · exact hnil.symm
      · rw [← hw.resolve_left hnil, map_getD_range]
    rw [remaining, if_pos hguard, hall, map_getD_range, hweights]
  · have hpos : 0 < ids.length := by
      rw [not_or, List.range_eq_nil] at hguard
      omega
    have hidx : (keptIds (excluded sort excludeEdges) ids ids.length).map
        ((List.range ids.length).getD · default) = keptIds (excluded sort excludeEdges) ids ids.length := by
      conv_rhs => rw [← List.map_id (keptIds _ ids ids.length)]
      apply List.map_congr_left
      intro p hp
      have hlt : p < ids.length := List.mem_range.1 (List.mem_filter.1 hp).1
      rw [List.getD_eq_getElem _ _ (by rwa [List.length_range]), List.getElem_range]
      rfl
    have hws : firstWeights (compactedWeights weights
        (keptIds (excluded sort excludeEdges) ids ids.length))
        (keptIds (excluded sort excludeEdges) ids ids.length).length =
          .ok (keptWeights weights (keptIds (excluded sort excludeEdges) ids ids.length)) := by
      by_cases hnil : weights = []
      · rw [compactedWeights, keptWeights, if_pos hnil, if_pos hnil]
        rfl
      · exact firstWeights_compacted (by rwa [hw.resolve_left hnil])
    rw [remaining, if_neg hguard, entries_run_list _ hw le_rfl]
    show (firstOf (compacted (List.range ids.length) _) _).bind _ = _
    rw [firstOf_compacted (by rwa [List.length_range]) (by rwa [List.length_range]), hidx]
    show (firstOf (compacted ids _) _).bind _ = _
    rw [firstOf_compacted hpos hkept]
    show (firstWeights (compactedWeights weights _) _).bind _ = _
    rw [hws]
    rfl

end EdgeType

namespace ListedSample

variable {W : Type} [Inhabited W] {s : ListedSample W} {excludeEdges : List ℕ}

/-- The sample with the edges at some places. -/
def pick (s : ListedSample W) (kept : List ℕ) : ListedSample W :=
  ⟨⟨s.coo.bits, s.coo.numRows, s.coo.numCols, kept.map (s.coo.row.getD · 0),
    kept.map (s.coo.col.getD · 0), [], false, false⟩, kept.map (s.ids.getD · default),
    keptWeights s.weights kept⟩

variable (h : s.Aligned)
include h

omit h in
lemma pick_aligned (kept : List ℕ) : (s.pick kept).Aligned := by
  have hcount : ∀ xs : List ℕ, (kept.map (xs.getD · 0)).length = (s.pick kept).coo.nnz := by
    intro xs
    rw [List.length_map]
    exact (List.length_map _).symm
  refine ⟨hcount _, hcount _, ?_⟩
  show keptWeights s.weights kept = [] ∨ (keptWeights s.weights kept).length = _
  rw [keptWeights]
  split_ifs with hnil
  · exact Or.inl rfl
  · rw [List.length_map]
    exact Or.inr (List.length_map _).symm

lemma pick_edges {kept : List ℕ} (hkept : ∀ p ∈ kept, p < s.coo.nnz) :
    (s.pick kept).edges = kept.map s.edge := by
  have hlen : (s.pick kept).coo.nnz = kept.length := List.length_map _
  apply List.ext_getElem
  · rw [edges, List.length_map, List.length_map, List.length_range, hlen]
  · intro i hi hi'
    rw [List.length_map] at hi'
    have hlt := hkept _ (List.getElem_mem hi')
    have hget : ∀ xs : List ℕ, (kept.map (xs.getD · 0)).getD i 0 = xs.getD kept[i] 0 := by
      intro xs
      rw [List.getD_eq_getElem _ _ (by rwa [List.length_map]), List.getElem_map]
    have hweight : (keptWeights s.weights kept)[i]? = s.weights[kept[i]]? := by
      rw [keptWeights]
      split_ifs with hnil
      · rw [hnil]
        rfl
      · have hw : kept[i] < s.weights.length := (h.weights.resolve_left hnil).symm ▸ hlt
        rw [List.getElem?_map, List.getElem?_eq_getElem hi', List.getElem?_eq_getElem hw]
        exact congrArg some (List.getD_eq_getElem _ _ hw)
    have hedge : (s.pick kept).edge i = s.edge kept[i] := by
      rw [edge, edge]
      show ListedEdge.mk (List.getD (List.map _ _) i 0) (List.getD (List.map _ _) i 0)
        (List.getD (List.map _ _) i 0) (keptWeights s.weights kept)[i]? = _
      rw [hget, hget, hweight]
      exact congrArg (ListedEdge.mk _ _ · _) (hget s.ids)
    simp only [edges, List.getElem_map, List.getElem_range]
    exact hedge

/-- The edges that stay are the ones that are not excluded. -/
lemma filtered_pick (sort : StdSort ℕ) :
    s.Filtered excludeEdges (s.pick (keptIds (excluded sort excludeEdges) s.ids s.ids.length)) := by
  refine ⟨pick_aligned _, rfl, rfl, ?_, ?_⟩
  · rw [pick_edges h, edges, List.filter_map, keptIds, keptBelow, h.ids]
    · congr 1
      apply List.filter_congr
      intro p _
      rw [excluded_eq, ← decide_not]
      rfl
    · intro p hp
      rw [← h.ids]
      exact List.mem_range.1 (List.mem_filter.1 hp).1
  · rintro rfl
    have hall : keptIds (excluded sort []) s.ids s.ids.length = List.range s.ids.length := by
      apply List.filter_eq_self.2
      intro p _
      rw [excluded_eq]
      rfl
    have hback : ∀ xs : List ℕ, xs.length = s.coo.nnz →
        (List.range s.ids.length).map (xs.getD · 0) = xs := by
      intro xs hxs
      rw [h.ids, ← hxs]
      exact map_getD_range xs
    rw [hall]
    refine ⟨hback _ rfl, hback _ h.col, hback _ h.ids, ?_⟩
    show keptWeights s.weights _ = _
    rw [keptWeights]
    split_ifs with hnil
    · exact hnil.symm
    · rw [h.ids, ← h.weights.resolve_left hnil, map_getD_range]

end ListedSample

/-! ## The subgraph -/

/-- A COO object gives the edges at some places. -/
lemma subgraph_eq (host : Host) {n : ℕ} {coo : COOMatrix} {eids : List ℕ}
    (hcol : coo.col.length = coo.nnz) (heids : ∀ k ∈ eids, k < coo.nnz) :
    Stored.subgraph host ⟨n, none, none, some coo, .all⟩ (.edgeSubgraph [eids] true) =
      .ok (⟨n, none, none, some ⟨coo.bits, coo.numRows, coo.numCols, eids.map (coo.row.getD · 0),
        eids.map (coo.col.getD · 0), [], false, false⟩, .all⟩, [[], []], eids) := by
  have hsrc : indexSelect coo.row eids = .ok (eids.map (coo.row.getD · 0)) := indexSelect_eq heids
  have hdst : indexSelect coo.col eids = .ok (eids.map (coo.col.getD · 0)) :=
    indexSelect_eq fun k hk => hcol ▸ heids k hk
  have hcoo : COO.edgeSubgraph coo [eids] true = .ok (.subgraph (.coo ⟨coo.bits, coo.numRows,
      coo.numCols, eids.map (coo.row.getD · 0), eids.map (coo.col.getD · 0), [], false, false⟩)
      [[], []] eids) := by
    rw [COO.edgeSubgraph, if_neg (by simp)]
    show (indexSelect coo.row eids).bind _ = _
    rw [hsrc]
    show (indexSelect coo.col eids).bind _ = _
    rw [hdst]
    rfl
  show ((Except.map (Answer.mapGraph (Stored.pack n .coo)) (COO.edgeSubgraph coo [eids] true)).bind _) = _
  rw [hcoo]
  rfl

section Calls

variable {W : Type} [Inhabited W]

/-- The result is filtered in every edge type, over the same vertices. -/
def FilteredSubgraph (sg : HeteroSubgraph) (excludeEdges : List (List ℕ)) (s : ℕ → ListedSample W)
    (out : HeteroSubgraph × List (List W)) : Prop :=
  out.1.graph.etypes = sg.graph.etypes ∧ out.1.graph.numVerts = sg.graph.numVerts ∧
    ∀ t < sg.graph.numEdgeTypes, ∃ s', IsListed out.1 (out.2.getD t []) t s' ∧
      (s t).Filtered (excludeEdges.getD t []) s'

/-- **A sample of COO matrices is filtered**, whatever has been sampled and is to be excluded. -/
lemma Listed.filtered {sg : HeteroSubgraph} {excludeEdges : List (List ℕ)}
    {weights : Option (List (List W))} {s : ℕ → ListedSample W} (h : Listed sg excludeEdges weights s)
    (host : Host) (sort : StdSort ℕ) :
    ∃ out, excludeCertainEdges host sort sg excludeEdges weights = .ok out ∧
      FilteredSubgraph sg excludeEdges s out := by
  let kept (t : ℕ) : List ℕ :=
    keptIds (excluded sort (excludeEdges.getD t [])) (s t).ids (s t).ids.length
  let part (t : ℕ) : Remaining W :=
    ⟨kept t, (kept t).map ((s t).ids.getD · default), keptWeights (s t).weights (kept t)⟩
  let sub (t : ℕ) : Stored × List (List ℕ) × List ℕ :=
    (⟨(sg.graph.rel t).numVTypes, none, none, some ((s t).pick (kept t)).coo, .all⟩, [[], []], kept t)
  have hparts : (List.range sg.graph.numEdgeTypes).mapM (fun etype => remaining sort
      (sg.inducedEdges.getD etype []) (excludeEdges.getD etype []) (weightsOf weights etype)) =
        .ok ((List.range sg.graph.numEdgeTypes).map part) := by
    apply mapM_ok
    intro t ht
    obtain ⟨⟨-, hids, hweights⟩, hs⟩ := h.rel t (List.mem_range.1 ht)
    rw [hids, hweights]
    exact remaining_eq sort _ (hs.weights.imp_right fun hw => hw.trans hs.ids.symm)
  have hat : ∀ {α : Type} (f : ℕ → α) (d : α) (t : ℕ), t < sg.graph.numEdgeTypes →
      ((List.range sg.graph.numEdgeTypes).map f).getD t d = f t := by
    intro α f d t ht
    rw [List.getD_eq_getElem _ _ (by rwa [List.length_map, List.length_range]), List.getElem_map,
      List.getElem_range]
  have hsubs : (List.range sg.graph.numEdgeTypes).mapM (fun etype => (sg.graph.rel etype).subgraph host
      (.edgeSubgraph [(((List.range sg.graph.numEdgeTypes).map part).map Remaining.edges).getD etype []]
        true)) = .ok ((List.range sg.graph.numEdgeTypes).map sub) := by
    apply mapM_ok
    intro t ht
    obtain ⟨⟨⟨n, hrel⟩, -, -⟩, hs⟩ := h.rel t (List.mem_range.1 ht)
    have hedges : (((List.range sg.graph.numEdgeTypes).map part).map Remaining.edges).getD t [] =
        kept t := by
      rw [List.map_map]
      exact hat _ _ t (List.mem_range.1 ht)
    have hlt : ∀ k ∈ kept t, k < (s t).coo.nnz := by
      intro k hk
      rw [← hs.ids]
      exact List.mem_range.1 (List.mem_filter.1 hk).1
    have hsub := subgraph_eq host (n := n) hs.col hlt
    rw [hedges, hrel, hsub]
    show _ = Except.ok (Stored.mk (sg.graph.rel t).numVTypes none none _ .all, _, _)
    rw [hrel]
    rfl
  have hnew : HeteroGraph.new sg.graph.bits sg.graph.etypes
      (((List.range sg.graph.numEdgeTypes).map sub).map Prod.fst) sg.graph.numVerts =
        .ok ⟨sg.graph.bits, sg.graph.etypes,
          ((List.range sg.graph.numEdgeTypes).map sub).map Prod.fst, sg.graph.numVerts⟩ := by
    have hlen : sg.graph.etypes.length =
        (((List.range sg.graph.numEdgeTypes).map sub).map Prod.fst).length := by
      rw [List.length_map, List.length_map, List.length_range]
      rfl
    refine if_pos ⟨hlen, fun hnil => h.nonempty ?_⟩
    rw [hnil] at hlen
    exact List.eq_nil_of_length_eq_zero hlen
  have hcall : ∃ subg, sg.graph.edgeSubgraphPreserveNodes host
      (((List.range sg.graph.numEdgeTypes).map part).map Remaining.edges) = .ok subg ∧
        subg.graph = ⟨sg.graph.bits, sg.graph.etypes,
          ((List.range sg.graph.numEdgeTypes).map sub).map Prod.fst, sg.graph.numVerts⟩ := by
    rw [HeteroGraph.edgeSubgraphPreserveNodes, if_neg (by
      rw [List.length_map, List.length_map, List.length_range]; exact not_not.2 rfl), hsubs]
    show ∃ subg, (HeteroGraph.new _ _ (((List.range sg.graph.numEdgeTypes).map sub).map
      Prod.fst) _).bind _ = _ ∧ _
    rw [hnew]
    exact ⟨_, rfl, rfl⟩
  obtain ⟨subg, hcall, hgraph⟩ := hcall
  refine ⟨({ subg with
    inducedEdges := ((List.range sg.graph.numEdgeTypes).map part).map Remaining.inducedEdges },
    ((List.range sg.graph.numEdgeTypes).map part).map Remaining.weights), ?_,
    (congrArg HeteroGraph.etypes hgraph :), (congrArg HeteroGraph.numVerts hgraph :), ?_⟩
  · rw [excludeCertainEdges, hparts]
    show (sg.graph.edgeSubgraphPreserveNodes host
      (((List.range sg.graph.numEdgeTypes).map part).map Remaining.edges)).bind _ = _
    rw [hcall]
    rfl
  · intro t ht
    refine ⟨(s t).pick (kept t), ⟨⟨(sg.graph.rel t).numVTypes, ?_⟩, ?_, ?_⟩,
      ListedSample.filtered_pick (h.rel t ht).2 sort⟩
    · show subg.graph.rel t = _
      rw [hgraph]
      show List.getD (List.map Prod.fst _) t _ = _
      rw [List.map_map]
      exact hat _ _ t ht
    · show List.getD (List.map Remaining.inducedEdges _) t _ = _
      rw [List.map_map]
      exact hat _ _ t ht
    · show List.getD (List.map Remaining.weights _) t _ = _
      rw [List.map_map]
      exact hat _ _ t ht

/-- The fused variant filters the edge types of a list exactly if it filters each of them. -/
lemma excludeCertainEdgesFused_filters_iff (sort : StdSort ℕ) {samples : List (FusedSample W × List ℕ)} :
    (∃ out, excludeCertainEdgesFused sort samples = .ok out ∧
      List.Forall₂ (fun p s' => p.1.Filtered p.2 s') samples out) ↔
        ∀ p ∈ samples, ∃ s', excludeFused sort p.1 p.2 = .ok s' ∧ p.1.Filtered p.2 s' := by
  constructor
  · rintro ⟨out, hok, hall⟩ p hp
    obtain ⟨i, hi, rfl⟩ := List.mem_iff_getElem.1 hp
    have hi' : i < out.length := hall.length_eq ▸ hi
    exact ⟨out[i], (mapM_eq_ok_iff.1 hok).get hi hi', hall.get hi hi'⟩
  · intro hall
    have : Nonempty (FusedSample W) := ⟨⟨⟨0, 0, 0, [], [], [], false⟩, [], [], []⟩⟩
    choose! f hok hfiltered using hall
    refine ⟨samples.map f, mapM_ok hok, ?_⟩
    exact forall₂_map hfiltered

/-- When an edge type with edges to exclude is filtered by the fused variant: it has no rows, or it has a
sampled edge, and its weights are null or none of its edges is excluded. -/
def FilteredFused (sample : FusedSample W) (excludeEdges : List ℕ) : Prop :=
  excludeEdges = [] ∨ sample.csr.numRows = 0 ∨ sample.csr.nnz ≠ 0 ∧
    (sample.weights = [] ∨ ∀ id ∈ sample.csr.data, id ∉ excludeEdges)

/-- **Excluding edges is a filter** for a sample of COO matrices; for a sample of CSR matrices it is one
exactly if no edge type has rows without a sampled edge, or weights and an edge to remove. -/
theorem exclusion_filters_iff (host : Host) (sort : StdSort ℕ) :
    (∀ (sg : HeteroSubgraph) (excludeEdges : List (List ℕ)) (weights : Option (List (List W)))
        (s : ℕ → ListedSample W), Listed sg excludeEdges weights s →
      ∃ out, excludeCertainEdges host sort sg excludeEdges weights = .ok out ∧
        FilteredSubgraph sg excludeEdges s out) ∧
    ∀ samples : List (FusedSample W × List ℕ), (∀ p ∈ samples, p.1.Sampled) →
      ((∃ out, excludeCertainEdgesFused sort samples = .ok out ∧
        List.Forall₂ (fun p s' => p.1.Filtered p.2 s') samples out) ↔
          ∀ p ∈ samples, FilteredFused p.1 p.2) := by
  refine ⟨fun sg excludeEdges weights s h => h.filtered host sort, fun samples h => ?_⟩
  rw [excludeCertainEdgesFused_filters_iff]
  exact forall₂_congr fun p hp => (h p hp).filtered_iff

end Calls

/-! ## A vertex without edges -/

/-- A vertex for which no edge has been sampled. -/
def lonelyVertex : FusedSample ℕ := ⟨⟨64, 1, 0, [0, 0], [], [], false⟩, [], [], []⟩

lemma lonelyVertex_sampled : lonelyVertex.Sampled where
  framed := ⟨rfl, by decide, rfl⟩
  indptr := Or.inr rfl
  data := rfl
  cooRows := rfl
  weights := Or.inl rfl
  induced := rfl

/-- Two edges of a vertex, with one to be excluded. -/
def twoEdges : FusedSample ℕ := ⟨⟨64, 1, 2, [0, 2], [4, 5], [7, 8], false⟩, [7, 8], [3, 3], []⟩

lemma twoEdges_sampled : twoEdges.Sampled where
  framed := ⟨rfl, by decide, rfl⟩
  indptr := Or.inr rfl
  data := rfl
  cooRows := rfl
  weights := Or.inl rfl
  induced := rfl

/-- The two edges as a COO matrix. -/
def twoListed : ListedSample ℕ := ⟨⟨64, 9, 9, [4, 5], [3, 3], [], false, false⟩, [7, 8], []⟩

/-- A heterograph with the two edges. -/
def twoSubgraph : HeteroSubgraph :=
  ⟨⟨64, [(0, 0)], [⟨1, none, none, some twoListed.coo, .all⟩], [9]⟩, [[]], [twoListed.ids]⟩

lemma twoSubgraph_listed : Listed twoSubgraph [[7]] none fun _ => twoListed where
  nonempty := nofun
  lists := rfl
  rel := by
    intro t ht
    obtain rfl := Nat.lt_one_iff.1 ht
    exact ⟨⟨⟨1, rfl⟩, rfl, rfl⟩, rfl, rfl, Or.inl rfl⟩

/-- The second edge stays. -/
theorem exclusion_filters_two :
    (∃ out, excludeCertainEdges oneThread (stableSort ℕ) twoSubgraph [[7]] none = .ok out ∧
      FilteredSubgraph twoSubgraph [[7]] (fun _ => twoListed) out) ∧
    ∃ out, excludeCertainEdgesFused (stableSort ℕ) [(twoEdges, [7])] = .ok out ∧
      List.Forall₂ (fun p s' => p.1.Filtered p.2 s') [(twoEdges, [7])] out := by
  have hsampled : ∀ p ∈ [(twoEdges, [7])], p.1.Sampled := by
    intro p hp
    obtain rfl := List.mem_singleton.1 hp
    exact twoEdges_sampled
  obtain ⟨hlisted, hfused⟩ := exclusion_filters_iff (W := ℕ) oneThread (stableSort ℕ)
  refine ⟨hlisted _ _ _ _ twoSubgraph_listed, (hfused _ hsampled).2 ?_⟩
  intro p hp
  obtain rfl := List.mem_singleton.1 hp
  exact Or.inr (Or.inr ⟨nofun, Or.inl rfl⟩)

/-- **Nothing can be excluded for a vertex without edges**: the call is refused. -/
theorem exclusion_refused : lonelyVertex.Sampled ∧
    excludeCertainEdgesFused (stableSort ℕ) [(lonelyVertex, [0])] = .error .raised ∧
      ¬ ∃ out, excludeCertainEdgesFused (stableSort ℕ) [(lonelyVertex, [0])] = .ok out ∧
        List.Forall₂ (fun p s' => p.1.Filtered p.2 s') [(lonelyVertex, [0])] out := by
  have hrefused : excludeCertainEdgesFused (stableSort ℕ) [(lonelyVertex, [0])] = .error .raised := by
    rw [excludeCertainEdgesFused, List.mapM_cons,
      lonelyVertex_sampled.excludeFused_empty (by decide) rfl]
    rfl
  refine ⟨lonelyVertex_sampled, hrefused, ?_⟩
  rintro ⟨out, hok, -⟩
  rw [hrefused] at hok
  cases hok

end DglAscend.Graph
