import DglAscend.Hetero.HeteroGraph

/-!
# Subgraphs of heterographs

Which subgraphs are the induced ones.  A vertex subgraph is right if every unit graph gives its part.
An edge subgraph needs COO of every unit graph; without the other vertices it also needs an edge type
at every vertex type, and on the device, where `Relabel_` renumbers copies, it is right only for ends
that are numbered already.
-/

namespace DglAscend.Hetero

open Aten

namespace HeteroGraph

/-! ## What is asked for -/

/-- Distinct vertices of every vertex type. -/
structure VertexLists (hg : HeteroGraph) (vids : List (List ℕ)) : Prop where
  length : vids.length = hg.numVertexTypes
  nodup : ∀ v < hg.numVertexTypes, (vids.getD v []).Nodup
  lt : ∀ v < hg.numVertexTypes, ∀ u ∈ vids.getD v [], u < hg.numVertices v

/-- Distinct edges of every edge type. -/
structure EdgeLists (hg : HeteroGraph) (E : ℕ → Multiset Entry) (eids : List (List ℕ)) : Prop where
  length : eids.length = hg.numEdgeTypes
  nodup : ∀ t < hg.numEdgeTypes, (eids.getD t []).Nodup
  lt : ∀ t < hg.numEdgeTypes, ∀ k ∈ eids.getD t [], k < Multiset.card (E t)

/-! ## What is right -/

/-- The subgraph of some vertices: in every relation the edges between them, with the places of the
vertices as their names and the ids of the edges. -/
structure InducedByVertices (hg : HeteroGraph) (E : ℕ → Multiset Entry) (vids : List (List ℕ))
    (sg : HeteroSubgraph) : Prop where
  etypes : sg.graph.etypes = hg.etypes
  rels : sg.graph.rels.length = hg.numEdgeTypes
  numVerts : sg.graph.numVerts = vids.map List.length
  vertices : sg.inducedVertices = vids
  edges : sg.inducedEdges.length = hg.numEdgeTypes
  rel : ∀ t < hg.numEdgeTypes, Correct (E t) (hg.relVertexTypes t) (hg.numVertices (hg.srcType t))
    (hg.numVertices (hg.dstType t)) (.vertexSubgraph (hg.relVids vids t))
    (.subgraph (sg.graph.rel t) (hg.relVids vids t) (sg.inducedEdges.getD t []))

/-- The subgraph of some edges that keeps all vertices.  Empty arrays stand for all vertices. -/
structure InducedByEdges (hg : HeteroGraph) (E : ℕ → Multiset Entry) (eids : List (List ℕ))
    (sg : HeteroSubgraph) : Prop where
  etypes : sg.graph.etypes = hg.etypes
  rels : sg.graph.rels.length = hg.numEdgeTypes
  numVerts : sg.graph.numVerts = hg.numVerts
  vertices : sg.inducedVertices = List.replicate hg.numVertexTypes []
  edges : sg.inducedEdges = eids
  rel : ∀ t < hg.numEdgeTypes, Correct (E t) (hg.relVertexTypes t) (hg.numVertices (hg.srcType t))
    (hg.numVertices (hg.dstType t)) (.edgeSubgraph [eids.getD t []] true)
    (.subgraph (sg.graph.rel t) [[], []] (eids.getD t []))

/-- A listed edge ends at a vertex. -/
def Touches (hg : HeteroGraph) (E : ℕ → Multiset Entry) (eids : List (List ℕ)) (v x : ℕ) : Prop :=
  ∃ t < hg.numEdgeTypes, ∃ e ∈ E t, e.2.2 ∈ eids.getD t [] ∧
    (hg.srcType t = v ∧ e.1 = x ∨ hg.dstType t = v ∧ e.2.1 = x)

/-- The subgraph of some edges and their ends. -/
structure InducedByEnds (hg : HeteroGraph) (E : ℕ → Multiset Entry) (eids : List (List ℕ))
    (sg : HeteroSubgraph) : Prop where
  etypes : sg.graph.etypes = hg.etypes
  rels : sg.graph.rels.length = hg.numEdgeTypes
  vertices : sg.inducedVertices.length = hg.numVertexTypes
  nodup : ∀ v < hg.numVertexTypes, (sg.inducedVertices.getD v []).Nodup
  touched : ∀ v < hg.numVertexTypes, ∀ x, x ∈ sg.inducedVertices.getD v [] ↔ hg.Touches E eids v x
  numVerts : sg.graph.numVerts = sg.inducedVertices.map List.length
  edges : sg.inducedEdges = eids
  rel : ∀ t < hg.numEdgeTypes, ∃ es : List Entry, EdgesOf (E t) (eids.getD t []) es ∧
    (sg.graph.rel t).Shaped (sg.inducedVertices.getD (hg.srcType t) []).length
      (sg.inducedVertices.getD (hg.dstType t) []).length ∧
    PicksOut (sg.graph.rel t) ((sg.inducedVertices.getD (hg.srcType t) []).getD · 0)
      ((sg.inducedVertices.getD (hg.dstType t) []).getD · 0) (eids.getD t []) es

/-- The ends at a vertex type of some edges of every edge type, in the order of `vtype2incnodes`. -/
def endsOf (hg : HeteroGraph) (es : ℕ → List Entry) (v : ℕ) : List ℕ :=
  (List.range hg.numEdgeTypes).flatMap fun t =>
    (if hg.srcType t = v then (es t).map Prod.fst else []) ++
      if hg.dstType t = v then (es t).map fun e => e.2.1 else []

/-- The ids occur for the first time in the order `0, 1, …`. -/
def InOrder (ids : List ℕ) : Prop :=
  (IdHashMap.ofIds ids).ids = List.range (IdHashMap.ofIds ids).ids.length

instance (ids : List ℕ) : Decidable (InOrder ids) :=
  inferInstanceAs (Decidable (_ = List.range _))

/-- When the ends of some edges can be renumbered. -/
structure CanRelabel (device : Bool) (hg : HeteroGraph) (E : ℕ → Multiset Entry)
    (eids : List (List ℕ)) : Prop where
  coo : ∀ t < hg.numEdgeTypes, (hg.rel t).formats.coo = true
  incident : ∀ v < hg.numVertexTypes, ∃ t < hg.numEdgeTypes, hg.srcType t = v ∨ hg.dstType t = v
  inOrder : device = true → ∀ es : ℕ → List Entry,
    (∀ t < hg.numEdgeTypes, EdgesOf (E t) (eids.getD t []) (es t)) →
      ∀ v < hg.numVertexTypes, InOrder (hg.endsOf es v)

variable {numVerts : List ℕ}

section Right

variable {host : Host} {device : Bool} {hg : HeteroGraph} {E : ℕ → Multiset Entry}
  (h : hg.Shows E) {vids eids : List (List ℕ)}

/-- The result of a unit graph where there is none. -/
def noPart : Stored × List (List ℕ) × List ℕ := (⟨2, none, none, none, .all⟩, [], [])

variable (subs : List (Stored × List (List ℕ) × List ℕ)) (t : ℕ)

lemma rel_of_parts :
    (subs.map Prod.fst).getD t ⟨2, none, none, none, .all⟩ = (subs.getD t noPart).1 :=
  List.getD_map subs noPart Prod.fst

lemma edges_of_parts : (subs.map fun sub => sub.2.2).getD t [] = (subs.getD t noPart).2.2 :=
  List.getD_map subs noPart fun sub => sub.2.2

lemma eq_of_new {bits : ℕ} {etypes : List (ℕ × ℕ)} {rels : List Stored} {g : HeteroGraph}
    (hg : new bits etypes rels numVerts = .ok g) : g = ⟨bits, etypes, rels, numVerts⟩ := by
  rw [new] at hg
  split at hg
  · exact (Except.ok.inj hg).symm
  · cases hg

lemma new_eq {bits : ℕ} {etypes : List (ℕ × ℕ)} {rels : List Stored}
    (hlen : rels.length = etypes.length) (hne : etypes ≠ []) :
    new bits etypes rels numVerts = .ok ⟨bits, etypes, rels, numVerts⟩ := by
  refine if_pos ⟨hlen.symm, fun hnil => hne ?_⟩
  rw [hnil] at hlen
  exact List.eq_nil_of_length_eq_zero hlen.symm

lemma dstVids_relVids :
    dstVids (hg.relVertexTypes t) (hg.relVids vids t) = vids.getD (hg.dstType t) [] := by
  rw [dstVids, relVertexTypes, relVids]
  by_cases hsame : hg.srcType t = hg.dstType t
  · rw [if_pos hsame, if_pos hsame, if_pos rfl, hsame]
    rfl
  · rw [if_neg hsame, if_neg hsame]
    rfl

lemma srcVids_relVids : (hg.relVids vids t).getD 0 [] = vids.getD (hg.srcType t) [] := by
  rw [relVids]
  split <;> rfl

include h

/-! ## Vertex subgraphs -/

variable {t : ℕ}

lemma relVids_valid (hv : hg.VertexLists vids) (ht : t < hg.numEdgeTypes) :
    (Query.vertexSubgraph (hg.relVids vids t)).Valid (E t) (hg.relVertexTypes t)
      (hg.numVertices (hg.srcType t)) (hg.numVertices (hg.dstType t)) := by
  obtain ⟨hsrc, hdst⟩ := h.ends t ht
  refine ⟨?_, ?_, ?_⟩
  · rw [relVids, relVertexTypes]
    split <;> rfl
  · rw [srcVids_relVids]
    exact ⟨hv.nodup _ hsrc, hv.lt _ hsrc⟩
  · rw [dstVids_relVids]
    exact ⟨hv.nodup _ hdst, hv.lt _ hdst⟩

/-- **A vertex subgraph is the induced one** exactly if every unit graph gives its part. -/
lemma vertexSubgraph_right_iff (hv : hg.VertexLists vids) :
    (∃ sg, hg.vertexSubgraph host vids = .ok sg ∧ hg.InducedByVertices E vids sg) ↔
      ∀ t < hg.numEdgeTypes, (hg.rel t).GivesPart host (E t) (hg.numVertices (hg.dstType t))
        (vids.getD (hg.srcType t) []) (vids.getD (hg.dstType t) []) := by
  have hpart {t : ℕ} (ht : t < hg.numEdgeTypes) :=
    (h.rel t ht).vertexSubgraph_iff (relVids_valid h hv ht) host
  simp only [srcVids_relVids, dstVids_relVids] at hpart
  constructor
  · rintro ⟨sg, hok, hright⟩ t ht
    rw [vertexSubgraph, if_neg (not_not.2 hv.length)] at hok
    obtain ⟨subs, hsubs, hok⟩ := bind_eq_ok_iff.1 hok
    obtain ⟨graph, hgraph, hok⟩ := bind_eq_ok_iff.1 hok
    obtain rfl := Except.ok.inj hok
    obtain rfl := eq_of_new hgraph
    have hsub := ((mapM_range_eq_ok_iff noPart).1 hsubs).2 t ht
    have hrel := hright.rel t ht
    have hvs := (h.rel t ht).subgraph_vertices hsub
    refine (hpart ht).1 ⟨(subs.getD t noPart).1, (subs.getD t noPart).2.2, ?_, ?_⟩
    · rw [hsub]
      exact congrArg Except.ok (Prod.ext rfl (Prod.ext hvs rfl))
    · rw [← rel_of_parts, ← edges_of_parts]
      exact hrel
  · intro hall
    have hex : ∀ t < hg.numEdgeTypes, ∃ x,
        (hg.rel t).subgraph host (.vertexSubgraph (hg.relVids vids t)) = .ok x ∧
          Correct (E t) (hg.relVertexTypes t) (hg.numVertices (hg.srcType t))
            (hg.numVertices (hg.dstType t)) (.vertexSubgraph (hg.relVids vids t))
            (.subgraph x.1 (hg.relVids vids t) x.2.2) := by
      intro t ht
      obtain ⟨g, es, hok, hright⟩ := (hpart ht).2 (hall t ht)
      exact ⟨_, hok, hright⟩
    obtain ⟨subs, hsubs, hlen, hright⟩ := exists_mapM_range noPart hex
    refine ⟨⟨⟨hg.bits, hg.etypes, subs.map Prod.fst, vids.map List.length⟩, vids,
      subs.map fun sub => sub.2.2⟩, ?_, rfl, ?_, rfl, rfl, ?_, ?_⟩
    · rw [vertexSubgraph, if_neg (not_not.2 hv.length), hsubs]
      show (new hg.bits hg.etypes (subs.map Prod.fst) (vids.map List.length)).bind _ = _
      rw [new_eq (by rw [List.length_map, hlen]; rfl) h.nonempty]
      rfl
    · rw [List.length_map, hlen]
    · rw [List.length_map, hlen]
    · intro t ht
      have hrel := hright t ht
      rw [← rel_of_parts, ← edges_of_parts] at hrel
      exact hrel

/-! ## Edge subgraphs with all vertices -/

omit h in
lemma foldl_replicate {l : List ℕ} {i j : ℕ → ℕ} {a b : ℕ → List ℕ}
    (hl : ∀ t ∈ l, a t = [] ∧ b t = []) (n : ℕ) :
    l.foldl (fun vs t => (vs.set (i t) (a t)).set (j t) (b t)) (List.replicate n []) =
      List.replicate n [] := by
  induction l with
  | nil => rfl
  | cons t l ih =>
      obtain ⟨ha, hb⟩ := hl t List.mem_cons_self
      rw [List.foldl_cons, ha, hb, List.set_replicate_self, List.set_replicate_self]
      exact ih fun t ht => hl t (List.mem_cons_of_mem _ ht)

omit h in
lemma vertices_of_parts : (subs.map fun sub => sub.2.1).getD t [] = (subs.getD t noPart).2.1 :=
  List.getD_map subs noPart fun sub => sub.2.1

/-- **An edge subgraph with all vertices is the induced one** exactly if every unit graph may have
COO. -/
lemma edgeSubgraphPreserveNodes_right_iff (he : hg.EdgeLists E eids) :
    (∃ sg, hg.edgeSubgraphPreserveNodes host eids = .ok sg ∧ hg.InducedByEdges E eids sg) ↔
      ∀ t < hg.numEdgeTypes, (hg.rel t).formats.coo = true := by
  constructor
  · rintro ⟨sg, hok, -⟩ t ht
    rw [edgeSubgraphPreserveNodes, if_neg (not_not.2 he.length)] at hok
    obtain ⟨subs, hsubs, -⟩ := bind_eq_ok_iff.1 hok
    have hsub := ((mapM_range_eq_ok_iff noPart).1 hsubs).2 t ht
    by_contra hcoo
    rw [(h.rel t ht).edgeSubgraph_refused (Bool.eq_false_iff.2 hcoo)] at hsub
    cases hsub
  · intro hcoo
    have hex : ∀ t < hg.numEdgeTypes, ∃ x,
        (hg.rel t).subgraph host (.edgeSubgraph [eids.getD t []] true) = .ok x ∧
          x.2.1 = [[], []] ∧ Correct (E t) (hg.relVertexTypes t) (hg.numVertices (hg.srcType t))
            (hg.numVertices (hg.dstType t)) (.edgeSubgraph [eids.getD t []] true)
            (.subgraph x.1 [[], []] (eids.getD t [])) := by
      intro t ht
      obtain ⟨g, hok, hright⟩ := (h.rel t ht).edgeSubgraph_eq (hcoo t ht) (he.lt t ht)
      exact ⟨_, hok, rfl, hright⟩
    obtain ⟨subs, hsubs, hlen, hright⟩ := exists_mapM_range noPart hex
    have hvertices := foldl_replicate (l := List.range hg.numEdgeTypes) (i := hg.srcType)
      (j := hg.dstType) (a := fun t => ((subs.map fun sub => sub.2.1).getD t []).getD 0 [])
      (b := fun t => ((subs.map fun sub => sub.2.1).getD t []).getD 1 []) (fun t ht => by
        rw [vertices_of_parts, (hright t (List.mem_range.1 ht)).1]
        exact ⟨rfl, rfl⟩) hg.numVertexTypes
    refine ⟨⟨⟨hg.bits, hg.etypes, subs.map Prod.fst, hg.numVerts⟩,
      List.replicate hg.numVertexTypes [], eids⟩, ?_, rfl, ?_, rfl, rfl, rfl, ?_⟩
    · rw [edgeSubgraphPreserveNodes, if_neg (not_not.2 he.length), hsubs]
      show (new hg.bits hg.etypes (subs.map Prod.fst) hg.numVerts).bind _ = _
      rw [new_eq (by rw [List.length_map, hlen]; rfl) h.nonempty]
      exact congrArg (fun vs => Except.ok (HeteroSubgraph.mk _ vs eids)) hvertices
    · rw [List.length_map, hlen]
    · intro t ht
      have hrel := (hright t ht).2
      rw [← rel_of_parts] at hrel
      exact hrel

/-! ## Edge subgraphs with the ends only -/

section Ends

omit h

variable {es : ℕ → List Entry} {v x : ℕ}

lemma mem_endsOf : x ∈ hg.endsOf es v ↔ ∃ t < hg.numEdgeTypes, ∃ e ∈ es t,
    (hg.srcType t = v ∧ e.1 = x ∨ hg.dstType t = v ∧ e.2.1 = x) := by
  rw [endsOf, List.mem_flatMap]
  constructor
  · rintro ⟨t, ht, hx⟩
    refine ⟨t, List.mem_range.1 ht, ?_⟩
    rcases List.mem_append.1 hx with hx | hx
    · split at hx
      · obtain ⟨e, he, rfl⟩ := List.mem_map.1 hx
        exact ⟨e, he, Or.inl ⟨‹_›, rfl⟩⟩
      · cases hx
    · split at hx
      · obtain ⟨e, he, rfl⟩ := List.mem_map.1 hx
        exact ⟨e, he, Or.inr ⟨‹_›, rfl⟩⟩
      · cases hx
  · rintro ⟨t, ht, e, he, ⟨hv, rfl⟩ | ⟨hv, rfl⟩⟩
    · refine ⟨t, List.mem_range.2 ht, List.mem_append_left _ ?_⟩
      rw [if_pos hv]
      exact List.mem_map_of_mem he
    · refine ⟨t, List.mem_range.2 ht, List.mem_append_right _ ?_⟩
      rw [if_pos hv]
      exact List.mem_map_of_mem he

/-- The arrays of the edges that `FindEdges` returns. -/
def foundEdges (hg : HeteroGraph) (es : ℕ → List Entry) : List EdgeArray :=
  (List.range hg.numEdgeTypes).map fun t => .ofEntries (es t)

lemma foundEdges_getD (ht : t < hg.numEdgeTypes) :
    (hg.foundEdges es).getD t ⟨[], [], []⟩ = .ofEntries (es t) := by
  rw [foundEdges, List.getD_eq_getElem _ _ (by rwa [List.length_map, List.length_range]),
    List.getElem_map, List.getElem_range]

lemma incNodes_flatten : (hg.incNodes (hg.foundEdges es) v).flatten = hg.endsOf es v := by
  rw [incNodes, ← List.flatMap_id, List.flatMap_assoc, endsOf]
  apply List.flatMap_congr
  intro t ht
  rw [foundEdges_getD (List.mem_range.1 ht), List.flatMap_id, List.flatten_append]
  congr 1
  · split <;> simp [EdgeArray.ofEntries]
  · split <;> simp [EdgeArray.ofEntries]

lemma incNodes_eq_nil_iff {subedges : List EdgeArray} : hg.incNodes subedges v = [] ↔
    ¬ ∃ t < hg.numEdgeTypes, hg.srcType t = v ∨ hg.dstType t = v := by
  rw [incNodes, List.flatMap_eq_nil_iff]
  constructor
  · rintro hnil ⟨t, ht, hv⟩
    have hparts := List.append_eq_nil_iff.1 (hnil t (List.mem_range.2 ht))
    rcases hv with hv | hv
    · rw [if_pos hv] at hparts
      cases hparts.1
    · rw [if_pos hv] at hparts
      cases hparts.2
  · intro hnone t ht
    dsimp only
    rw [if_neg fun hv => hnone ⟨t, List.mem_range.1 ht, Or.inl hv⟩,
      if_neg fun hv => hnone ⟨t, List.mem_range.1 ht, Or.inr hv⟩]
    rfl

/-- The names of the vertices of a type. -/
def endNames (hg : HeteroGraph) (es : ℕ → List Entry) (v : ℕ) : List ℕ :=
  (IdHashMap.ofIds (hg.endsOf es v)).ids

lemma relabelIds_eq (hv : ∃ t < hg.numEdgeTypes, hg.srcType t = v ∨ hg.dstType t = v) :
    relabelIds (hg.incNodes (hg.foundEdges es) v) = .ok (hg.endNames es v) := by
  rw [relabelIds, if_neg fun hnil => incNodes_eq_nil_iff.1 hnil hv, incNodes_flatten, endNames]

lemma endNames_nodup : (hg.endNames es v).Nodup := IdHashMap.nodup_ofIds _

lemma mem_endNames : x ∈ hg.endNames es v ↔ ∃ t < hg.numEdgeTypes, ∃ e ∈ es t,
    (hg.srcType t = v ∧ e.1 = x ∨ hg.dstType t = v ∧ e.2.1 = x) :=
  IdHashMap.mem_ofIds.trans mem_endsOf

/-- The unit graph that is made of the edges of an edge type. -/
def endsRel (device : Bool) (hg : HeteroGraph) (es : ℕ → List Entry) (t : ℕ) : Stored :=
  let srcs := hg.endNames es (hg.srcType t)
  let dsts := hg.endNames es (hg.dstType t)
  ⟨hg.relVertexTypes t, none, none, some ⟨hg.bits, srcs.length, dsts.length,
    relabelled device srcs ((es t).map Prod.fst), relabelled device dsts ((es t).map fun e => e.2.1),
    [], false, false⟩, .all⟩

/-- What `EdgeSubgraph` returns for some edges. -/
def endsSubgraph (device : Bool) (hg : HeteroGraph) (es : ℕ → List Entry) (eids : List (List ℕ)) :
    HeteroSubgraph :=
  let vertices := (List.range hg.numVertexTypes).map (hg.endNames es)
  ⟨⟨hg.bits, hg.etypes, (List.range hg.numEdgeTypes).map (endsRel device hg es),
    vertices.map List.length⟩, vertices, eids⟩

lemma endNames_getD (hv : v < hg.numVertexTypes) :
    ((List.range hg.numVertexTypes).map (hg.endNames es)).getD v [] = hg.endNames es v := by
  rw [List.getD_eq_getElem _ _ (by rwa [List.length_map, List.length_range]), List.getElem_map,
    List.getElem_range]

lemma endsRel_getD (ht : t < hg.numEdgeTypes) (s : Stored) :
    ((List.range hg.numEdgeTypes).map (endsRel device hg es)).getD t s = endsRel device hg es t := by
  rw [List.getD_eq_getElem _ _ (by rwa [List.length_map, List.length_range]), List.getElem_map,
    List.getElem_range]

end Ends

/-! ### Edges with some ids -/

section EdgesOf

omit h

variable {F : Multiset Entry} {ids : List ℕ} {fs fs' : List Entry}

lemma ids_of_edgesOf (hfs : EdgesOf F ids fs) : fs.map (fun e => e.2.2) = ids := by
  induction hfs with
  | nil => rfl
  | cons hhead _ ih => rw [List.map_cons, ih, hhead.2]

lemma mem_of_edgesOf (hfs : EdgesOf F ids fs) {e : Entry} (he : e ∈ fs) : e ∈ F := by
  induction hfs with
  | nil => cases he
  | cons hhead _ ih =>
      rcases List.mem_cons.1 he with rfl | he
      · exact hhead.1
      · exact ih he

lemma mem_edgesOf_iff (hF : Numbered F) (hfs : EdgesOf F ids fs) {e : Entry} :
    e ∈ fs ↔ e ∈ F ∧ e.2.2 ∈ ids := by
  constructor
  · intro he
    refine ⟨mem_of_edgesOf hfs he, ?_⟩
    rw [← ids_of_edgesOf hfs]
    exact List.mem_map_of_mem he
  · rintro ⟨he, hid⟩
    rw [← ids_of_edgesOf hfs] at hid
    obtain ⟨e', he', hid⟩ := List.mem_map.1 hid
    rwa [← hF.eq_of_id (mem_of_edgesOf hfs he') he hid]

lemma edgesOf_unique (hF : Numbered F) (hfs : EdgesOf F ids fs) (hfs' : EdgesOf F ids fs') :
    fs = fs' := by
  induction hfs generalizing fs' with
  | nil => exact (List.forall₂_nil_left_iff.1 hfs').symm
  | cons hhead _ ih =>
      obtain ⟨e', rest, hhead', hrest, rfl⟩ := List.forall₂_cons_left_iff.1 hfs'
      rw [ih hrest, hF.eq_of_id hhead.1 hhead'.1 (hhead.2.trans hhead'.2.symm)]

end EdgesOf

section Found

variable {es : ℕ → List Entry}
  (hes : ∀ t < hg.numEdgeTypes, EdgesOf (E t) (eids.getD t []) (es t))
include hes

lemma touches_iff {v x : ℕ} : hg.Touches E eids v x ↔ x ∈ hg.endNames es v := by
  rw [mem_endNames]
  constructor
  · rintro ⟨t, ht, e, he, hid, hv⟩
    exact ⟨t, ht, e, (mem_edgesOf_iff (h.rel t ht).numbered (hes t ht)).2 ⟨he, hid⟩, hv⟩
  · rintro ⟨t, ht, e, he, hv⟩
    obtain ⟨he, hid⟩ := (mem_edgesOf_iff (h.rel t ht).numbered (hes t ht)).1 he
    exact ⟨t, ht, e, he, hid, hv⟩

omit hes in
lemma createRelation_eq (ht : t < hg.numEdgeTypes) :
    hg.createRelation device ((List.range hg.numVertexTypes).map (hg.endNames es))
      (hg.foundEdges es) t = .ok (endsRel device hg es t) := by
  obtain ⟨hsrc, hdst⟩ := h.ends t ht
  rw [createRelation, endNames_getD hsrc, endNames_getD hdst, foundEdges_getD ht, if_neg]
  · rfl
  · rintro ⟨hone, hne⟩
    rw [relVertexTypes] at hone
    split at hone
    · rename_i hsame
      exact hne (by rw [hsame])
    · cases hone

omit hes in
/-- What `EdgeSubgraph` returns. -/
lemma edgeSubgraphNoPreserveNodes_eq (hlen : eids.length = hg.numEdgeTypes)
    (hfind : ∀ t < hg.numEdgeTypes, (hg.rel t).findEdges host (eids.getD t []) = .ok (.ofEntries (es t)))
    (hincident : ∀ v < hg.numVertexTypes, ∃ t < hg.numEdgeTypes, hg.srcType t = v ∨ hg.dstType t = v) :
    hg.edgeSubgraphNoPreserveNodes host device eids = .ok (endsSubgraph device hg es eids) := by
  rw [edgeSubgraphNoPreserveNodes, if_neg (not_not.2 hlen),
    mapM_ok fun t ht => hfind t (List.mem_range.1 ht)]
  show (List.mapM (fun v => relabelIds (hg.incNodes (hg.foundEdges es) v)) _ >>= _) = _
  rw [mapM_ok fun v hv => relabelIds_eq (hincident v (List.mem_range.1 hv))]
  show (List.mapM (hg.createRelation device _ (hg.foundEdges es)) _ >>= _) = _
  rw [mapM_ok fun t ht => createRelation_eq h (List.mem_range.1 ht)]
  show (new hg.bits hg.etypes _ _).bind _ = _
  rw [new_eq (by rw [List.length_map, List.length_range]; rfl) h.nonempty]
  rfl

omit h hes in
lemma relabelled_eq {mapping ids : List ℕ} (hnodup : mapping.Nodup)
    (hrange : device = true → mapping = List.range mapping.length) (hmem : ∀ x ∈ ids, x ∈ mapping) :
    relabelled device mapping ids = ids.map mapping.idxOf := by
  rw [relabelled]
  split
  · rename_i hdevice
    have hrange := hrange hdevice
    conv_lhs => rw [← List.map_id ids]
    apply List.map_congr_left
    intro x hx
    have hlt : x < mapping.length := by
      have hx := hmem x hx
      rw [hrange] at hx
      exact List.mem_range.1 hx
    have hget : mapping[x] = x := by
      have hget := congrArg (fun l => l[x]?) hrange
      simpa [hlt] using hget
    rw [id_eq]
    conv_rhs => rw [← hget, hnodup.idxOf_getElem x hlt]
  · rfl

omit h hes in
/-- A list of names in which everything has its own place. -/
lemma eq_range_of_fixed {l : List ℕ} (hnodup : l.Nodup)
    (hfixed : ∀ x ∈ l, x < l.length ∧ l.getD x 0 = x) : l = List.range l.length := by
  apply List.ext_getElem
  · rw [List.length_range]
  · intro i hi hi'
    obtain ⟨hlt, hget⟩ := hfixed l[i] (List.getElem_mem hi)
    rw [List.getD_eq_getElem _ _ hlt] at hget
    rw [List.getElem_range]
    exact (hnodup.getElem_inj_iff).1 hget

/-- The unit graph of the relabelled edges shows them. -/
lemma endsRel_picks (ht : t < hg.numEdgeTypes)
    (hin : device = true → ∀ v < hg.numVertexTypes, InOrder (hg.endsOf es v)) :
    PicksOut (endsRel device hg es t) ((hg.endNames es (hg.srcType t)).getD · 0)
      ((hg.endNames es (hg.dstType t)).getD · 0) (eids.getD t []) (es t) := by
  obtain ⟨hsrc, hdst⟩ := h.ends t ht
  have hmem : ∀ e ∈ es t, e.1 ∈ hg.endNames es (hg.srcType t) ∧
      e.2.1 ∈ hg.endNames es (hg.dstType t) := by
    intro e he
    exact ⟨mem_endNames.2 ⟨t, ht, e, he, Or.inl ⟨rfl, rfl⟩⟩,
      mem_endNames.2 ⟨t, ht, e, he, Or.inr ⟨rfl, rfl⟩⟩⟩
  have hrow : relabelled device (hg.endNames es (hg.srcType t)) ((es t).map Prod.fst) =
      (es t).map fun e => (hg.endNames es (hg.srcType t)).idxOf e.1 := by
    rw [relabelled_eq endNames_nodup (fun hd => hin hd _ hsrc) fun x hx => ?_, List.map_map]
    · rfl
    · obtain ⟨e, he, rfl⟩ := List.mem_map.1 hx
      exact (hmem e he).1
  have hcol : relabelled device (hg.endNames es (hg.dstType t)) ((es t).map fun e => e.2.1) =
      (es t).map fun e => (hg.endNames es (hg.dstType t)).idxOf e.2.1 := by
    rw [relabelled_eq endNames_nodup (fun hd => hin hd _ hdst) fun x hx => ?_, List.map_map]
    · rfl
    · obtain ⟨e, he, rfl⟩ := List.mem_map.1 hx
      exact (hmem e he).2
  obtain ⟨hof, hnamed⟩ := ListsCOO.renumbered ⟨hg.bits, (hg.endNames es (hg.srcType t)).length,
    (hg.endNames es (hg.dstType t)).length, _, _, [], false, false⟩ rfl rfl rfl rfl hrow hcol hmem
  rw [ids_of_edgesOf (hes t ht)] at hnamed
  exact packCOO_picks hof hnamed

/-- If the unit graph shows the edges although the ends have not been renumbered, the ends have their
own places. -/
lemma fixed_of_picks (ht : t < hg.numEdgeTypes)
    (hpicks : PicksOut (endsRel true hg es t) ((hg.endNames es (hg.srcType t)).getD · 0)
      ((hg.endNames es (hg.dstType t)).getD · 0) (eids.getD t []) (es t))
    {e : Entry} (he : e ∈ es t) : (e.1 < (hg.endNames es (hg.srcType t)).length ∧
        (hg.endNames es (hg.srcType t)).getD e.1 0 = e.1) ∧
      e.2.1 < (hg.endNames es (hg.dstType t)).length ∧
        (hg.endNames es (hg.dstType t)).getD e.2.1 0 = e.2.1 := by
  obtain ⟨-, E', hhas, hnamed⟩ := hpicks
  have hof := hhas.coo _ rfl
  rw [← hof.entries, ← ids_of_edgesOf (hes t ht), Multiset.map_coe,
    ListsCOO.map_named rfl rfl rfl] at hnamed
  have hrow := hof.valid.row_lt e.1 (List.mem_map_of_mem he)
  have hcol := hof.valid.col_lt e.2.1 (List.mem_map_of_mem he)
  have hin : ((hg.endNames es (hg.srcType t)).getD e.1 0, (hg.endNames es (hg.dstType t)).getD e.2.1 0,
      e.2.2) ∈ (es t : Multiset Entry) := by
    rw [← hnamed]
    exact Multiset.mem_coe.2 (List.mem_map_of_mem he)
  have hsame := (h.rel t ht).numbered.eq_of_id (mem_of_edgesOf (hes t ht) (Multiset.mem_coe.1 hin))
    (mem_of_edgesOf (hes t ht) he) rfl
  exact ⟨⟨hrow, congrArg Prod.fst hsame⟩, hcol, congrArg (fun e => e.2.1) hsame⟩

/-- The subgraph is the induced one if the ends are renumbered, or need not be. -/
lemma endsSubgraph_right_iff : hg.InducedByEnds E eids (endsSubgraph device hg es eids) ↔
    (device = true → ∀ v < hg.numVertexTypes, InOrder (hg.endsOf es v)) := by
  constructor
  · rintro hright rfl v hv
    apply eq_range_of_fixed endNames_nodup
    intro x hx
    obtain ⟨t, ht, e, he, hend⟩ := mem_endNames.1 hx
    obtain ⟨hsrc, hdst⟩ := h.ends t ht
    obtain ⟨fs, hfs, -, hpicks⟩ := hright.rel t ht
    rw [edgesOf_unique (h.rel t ht).numbered hfs (hes t ht)] at hpicks
    have hpicks : PicksOut (((List.range hg.numEdgeTypes).map (endsRel true hg es)).getD t _)
      ((((List.range hg.numVertexTypes).map (hg.endNames es)).getD (hg.srcType t) []).getD · 0)
      ((((List.range hg.numVertexTypes).map (hg.endNames es)).getD (hg.dstType t) []).getD · 0)
      (eids.getD t []) (es t) := hpicks
    rw [endNames_getD hsrc, endNames_getD hdst, endsRel_getD ht] at hpicks
    obtain ⟨hfst, hsnd⟩ := fixed_of_picks h hes ht hpicks he
    rcases hend with ⟨rfl, rfl⟩ | ⟨rfl, rfl⟩
    · exact hfst
    · exact hsnd
  · intro hin
    have hvertices {v : ℕ} (hv : v < hg.numVertexTypes) :
        (endsSubgraph device hg es eids).inducedVertices.getD v [] = hg.endNames es v :=
      endNames_getD hv
    have hrel {t : ℕ} (ht : t < hg.numEdgeTypes) :
        (endsSubgraph device hg es eids).graph.rel t = endsRel device hg es t :=
      endsRel_getD ht _
    refine ⟨rfl, ?_, ?_, ?_, ?_, rfl, rfl, ?_⟩
    · show ((List.range hg.numEdgeTypes).map _).length = _
      rw [List.length_map, List.length_range]
    · show ((List.range hg.numVertexTypes).map _).length = _
      rw [List.length_map, List.length_range]
    · intro v hv
      rw [hvertices hv]
      exact endNames_nodup
    · intro v hv x
      rw [hvertices hv]
      exact (touches_iff h hes).symm
    · intro t ht
      obtain ⟨hsrc, hdst⟩ := h.ends t ht
      rw [hvertices hsrc, hvertices hdst, hrel ht]
      refine ⟨es t, hes t ht, ⟨nofun, nofun, fun m hm => ?_⟩, endsRel_picks h hes ht hin⟩
      obtain rfl := Option.some.inj hm
      exact ⟨rfl, rfl⟩

end Found

/-- **An edge subgraph with the ends only is the induced one** exactly in these cases. -/
lemma edgeSubgraphNoPreserveNodes_right_iff (he : hg.EdgeLists E eids) :
    (∃ sg, hg.edgeSubgraphNoPreserveNodes host device eids = .ok sg ∧ hg.InducedByEnds E eids sg) ↔
      CanRelabel device hg E eids := by
  -- The edges that are found, if all unit graphs may have COO.
  have hfound (hcoo : ∀ t < hg.numEdgeTypes, (hg.rel t).formats.coo = true) :
      ∃ es : ℕ → List Entry, ∀ t < hg.numEdgeTypes,
        (hg.rel t).findEdges host (eids.getD t []) = .ok (.ofEntries (es t)) ∧
          EdgesOf (E t) (eids.getD t []) (es t) := by
    have hex (t : ℕ) : ∃ fs, t < hg.numEdgeTypes →
        (hg.rel t).findEdges host (eids.getD t []) = .ok (.ofEntries fs) ∧
          EdgesOf (E t) (eids.getD t []) fs := by
      by_cases ht : t < hg.numEdgeTypes
      · obtain ⟨fs, hfs⟩ := (h.rel t ht).findEdges_eq host (hcoo t ht) (he.lt t ht)
        exact ⟨fs, fun _ => hfs⟩
      · exact ⟨[], fun hlt => absurd hlt ht⟩
    choose es hes using hex
    exact ⟨es, hes⟩
  constructor
  · rintro ⟨sg, hok, hright⟩
    have hcoo : ∀ t < hg.numEdgeTypes, (hg.rel t).formats.coo = true := by
      intro t ht
      by_contra hcoo
      have hok' := hok
      rw [edgeSubgraphNoPreserveNodes, if_neg (not_not.2 he.length)] at hok'
      obtain ⟨subedges, hsub, -⟩ := bind_eq_ok_iff.1 hok'
      have hfind := ((mapM_range_eq_ok_iff ⟨[], [], []⟩).1 hsub).2 t ht
      rw [(h.rel t ht).findEdges_refused (Bool.eq_false_iff.2 hcoo)] at hfind
      cases hfind
    obtain ⟨es, hes⟩ := hfound hcoo
    have hincident : ∀ v < hg.numVertexTypes,
        ∃ t < hg.numEdgeTypes, hg.srcType t = v ∨ hg.dstType t = v := by
      intro v hv
      rw [edgeSubgraphNoPreserveNodes, if_neg (not_not.2 he.length)] at hok
      obtain ⟨subedges, -, hok⟩ := bind_eq_ok_iff.1 hok
      obtain ⟨vertices, hvertices, -⟩ := bind_eq_ok_iff.1 hok
      have hrelabel := ((mapM_range_eq_ok_iff []).1 hvertices).2 v hv
      by_contra hnone
      rw [relabelIds, if_pos (incNodes_eq_nil_iff.2 hnone)] at hrelabel
      cases hrelabel
    have heq : _ = Except.ok (endsSubgraph device hg es eids) :=
      edgeSubgraphNoPreserveNodes_eq h he.length (fun t ht => (hes t ht).1) hincident
    obtain rfl := Except.ok.inj (hok.symm.trans heq)
    refine ⟨hcoo, hincident, fun hdevice fs hfs v hv => ?_⟩
    have hsame : hg.endsOf fs v = hg.endsOf es v := by
      apply List.flatMap_congr
      intro t ht
      have ht := List.mem_range.1 ht
      rw [edgesOf_unique (h.rel t ht).numbered (hfs t ht) (hes t ht).2]
    rw [hsame]
    exact (endsSubgraph_right_iff h fun t ht => (hes t ht).2).1 hright hdevice v hv
  · rintro ⟨hcoo, hincident, hin⟩
    obtain ⟨es, hes⟩ := hfound hcoo
    refine ⟨_, edgeSubgraphNoPreserveNodes_eq h he.length (fun t ht => (hes t ht).1) hincident,
      (endsSubgraph_right_iff h fun t ht => (hes t ht).2).2 fun hdevice => ?_⟩
    exact hin hdevice es fun t ht => (hes t ht).2

end Right

/-- **Subgraphs of heterographs**: when the subgraph of distinct vertices, and that of distinct edges
with all vertices or with their ends only, is the induced one. -/
theorem subgraphs_right_iff (host : Host) (device : Bool) {hg : HeteroGraph} {E : ℕ → Multiset Entry}
    (h : hg.Shows E) :
    (∀ vids, hg.VertexLists vids →
      ((∃ sg, hg.vertexSubgraph host vids = .ok sg ∧ hg.InducedByVertices E vids sg) ↔
        ∀ t < hg.numEdgeTypes, (hg.rel t).GivesPart host (E t) (hg.numVertices (hg.dstType t))
          (vids.getD (hg.srcType t) []) (vids.getD (hg.dstType t) []))) ∧
    ∀ eids, hg.EdgeLists E eids →
      ((∃ sg, hg.edgeSubgraph host device eids true = .ok sg ∧ hg.InducedByEdges E eids sg) ↔
        ∀ t < hg.numEdgeTypes, (hg.rel t).formats.coo = true) ∧
      ((∃ sg, hg.edgeSubgraph host device eids false = .ok sg ∧ hg.InducedByEnds E eids sg) ↔
        CanRelabel device hg E eids) := by
  refine ⟨fun vids hv => vertexSubgraph_right_iff h hv, fun eids he => ⟨?_, ?_⟩⟩
  · exact edgeSubgraphPreserveNodes_right_iff h he
  · exact edgeSubgraphNoPreserveNodes_right_iff h he

/-- Two vertex types with two vertices each, and the edge from 0 to 1 between them. -/
def between (rel : Stored) (numVerts : List ℕ) : HeteroGraph := ⟨64, [(0, 1)], [rel], numVerts⟩

/-- The relation as COO. -/
def cooRel : Stored := ⟨2, none, none, some oneEdge, .all⟩

/-- The relation as CSC only. -/
def cscRel : Stored := ⟨2, some oneEdge.transpose.bucketed, none, none, ⟨false, false, true⟩⟩

lemma oneEdge_lists : ListsCOO oneEdge.entries 2 2 oneEdge := ⟨⟨oneEdge_valid, rfl, rfl⟩, rfl, rfl, nofun⟩

lemma cooRel_presents : cooRel.Presents oneEdge.entries 2 2 2 where
  numVTypes := rfl
  inCsr := nofun
  outCsr := nofun
  coo m hm := by
    obtain rfl := Option.some.inj hm
    exact oneEdge_lists
  created := rfl
  within := rfl
  square := nofun

lemma cscRel_presents : cscRel.Presents oneEdge.entries 2 2 2 where
  numVTypes := rfl
  inCsr m hm := by
    obtain rfl := Option.some.inj hm
    exact oneEdge_lists.transpose.toCSR (T := 1) (by decide)
  outCsr := nofun
  coo := nofun
  created := rfl
  within := rfl
  square := nofun

lemma between_shows {rel : Stored} (hrel : rel.Presents oneEdge.entries 2 2 2)
    (hverts : [2, 2] <+: numVerts) :
    (between rel numVerts).Shows fun _ => (oneEdge.entries : Multiset Entry) := by
  obtain ⟨rest, rfl⟩ := hverts
  refine ⟨rfl, nofun, fun t ht => ?_, fun t ht => ?_⟩
  · obtain rfl := Nat.lt_one_iff.1 ht
    exact ⟨Nat.succ_pos _, Nat.succ_lt_succ (Nat.succ_pos _)⟩
  · obtain rfl := Nat.lt_one_iff.1 ht
    exact hrel

/-- The subgraph of all vertices, and the one of the edge and its ends. -/
theorem subgraphs_right_between :
    (∃ sg, (between cooRel [2, 2]).vertexSubgraph oneThread [[0], [0, 1]] = .ok sg ∧
      (between cooRel [2, 2]).InducedByVertices (fun _ => oneEdge.entries) [[0], [0, 1]] sg) ∧
    ∃ sg, (between cooRel [2, 2]).edgeSubgraph oneThread false [[0]] false = .ok sg ∧
      (between cooRel [2, 2]).InducedByEnds (fun _ => oneEdge.entries) [[0]] sg := by
  have hall := subgraphs_right_iff oneThread false (between_shows cooRel_presents (List.prefix_refl _))
  constructor
  · refine (hall.1 _ ⟨rfl, by decide, by decide⟩).2 fun t ht => ⟨?_, ?_⟩
    · obtain rfl := Nat.lt_one_iff.1 ht
      rfl
    · obtain rfl := Nat.lt_one_iff.1 ht
      exact nofun
  · exact (hall.2 _ ⟨rfl, by decide, by decide⟩).2.2 ⟨by decide, by decide, nofun⟩

/-- The only edge is lost on CSC, as the sources are looked up among the destinations; its destination is
not renumbered on the device; and a vertex type without edge types is not there to be relabelled. -/
theorem subgraphs_wrong :
    ((between cscRel [2, 2]).Shows (fun _ => oneEdge.entries) ∧
      (between cscRel [2, 2]).VertexLists [[0], [0, 1]] ∧
      ¬ ∃ sg, (between cscRel [2, 2]).vertexSubgraph oneThread [[0], [0, 1]] = .ok sg ∧
        (between cscRel [2, 2]).InducedByVertices (fun _ => oneEdge.entries) [[0], [0, 1]] sg) ∧
    ((between cooRel [2, 2]).Shows (fun _ => oneEdge.entries) ∧
      (between cooRel [2, 2]).EdgeLists (fun _ => oneEdge.entries) [[0]] ∧
      ¬ ∃ sg, (between cooRel [2, 2]).edgeSubgraphNoPreserveNodes oneThread true [[0]] = .ok sg ∧
        (between cooRel [2, 2]).InducedByEnds (fun _ => oneEdge.entries) [[0]] sg) ∧
    ((between cooRel [2, 2, 1]).Shows (fun _ => oneEdge.entries) ∧
      (between cooRel [2, 2, 1]).EdgeLists (fun _ => oneEdge.entries) [[0]] ∧
      (between cooRel [2, 2, 1]).edgeSubgraphNoPreserveNodes oneThread false [[0]] =
        .error .outOfBounds) := by
  have hcsc : (between cscRel [2, 2]).Shows fun _ => oneEdge.entries :=
    between_shows cscRel_presents (List.prefix_refl _)
  have hcoo : (between cooRel [2, 2]).Shows fun _ => oneEdge.entries :=
    between_shows cooRel_presents (List.prefix_refl _)
  have hvids : (between cscRel [2, 2]).VertexLists [[0], [0, 1]] := ⟨rfl, by decide, by decide⟩
  have heids : (between cooRel [2, 2]).EdgeLists (fun _ => oneEdge.entries) [[0]] :=
    ⟨rfl, by decide, by decide⟩
  refine ⟨⟨hcsc, hvids, ?_⟩, ⟨hcoo, heids, ?_⟩, between_shows cooRel_presents ⟨[1], rfl⟩,
    ⟨rfl, by decide, by decide⟩, rfl⟩
  · rw [vertexSubgraph_right_iff hcsc hvids]
    intro hall
    exact absurd ((hall 0 (Nat.succ_pos _)).2 rfl).2.1 (by decide)
  · rw [edgeSubgraphNoPreserveNodes_right_iff hcoo heids]
    rintro ⟨-, -, hin⟩
    have horder := hin rfl (fun _ => oneEdge.entries) (fun t ht => ?_) 1 (by decide)
    · exact absurd horder (by decide)
    · obtain rfl := Nat.lt_one_iff.1 ht
      exact List.Forall₂.cons ⟨by decide, rfl⟩ List.Forall₂.nil

end HeteroGraph

end DglAscend.Hetero
