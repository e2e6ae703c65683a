import DglAscend.Hetero.QueriesByFormat
import DglAscend.Lib.Loops

/-!
# Heterographs

`heterograph.cc`: a unit graph for each edge type, over vertex types that the edge types share.  A
subgraph asks each unit graph for its part.  What an edge type shows is a multiset of edges
(`HeteroGraph.Shows`), and whether a unit graph gives its part of a subgraph depends on the formats
that it may have.
-/

namespace DglAscend.Hetero

open Aten

/-- `HeteroGraph`; the meta graph is the list of the end types of the edge types. -/
structure HeteroGraph where
  bits : ℕ
  etypes : List (ℕ × ℕ)
  rels : List Stored
  numVerts : List ℕ
  deriving DecidableEq, Repr

/-- `HeteroSubgraph`. -/
structure HeteroSubgraph where
  graph : HeteroGraph
  inducedVertices : List (List ℕ)
  inducedEdges : List (List ℕ)
  deriving DecidableEq, Repr

/-- The parts of the answer of a unit graph. -/
def Stored.subgraph (host : Host) (s : Stored) (q : Query) :
    Except Fault (Stored × List (List ℕ) × List ℕ) := do
  match ← s.query host q with
  | .subgraph g vs es => .ok (g, vs, es)
  | _ => .error .raised

/-- `UnitGraph::FindEdges`. -/
def Stored.findEdges (host : Host) (s : Stored) (eids : List ℕ) : Except Fault EdgeArray := do
  match ← s.query host (.findEdges eids) with
  | .edges a => .ok a
  | _ => .error .raised

/-- `aten::Relabel_`: the numbering of the ids of some arrays. -/
def relabelIds (arrays : List (List ℕ)) : Except Fault (List ℕ) :=
  if arrays = [] then .error .outOfBounds else .ok (IdHashMap.ofIds arrays.flatten).ids

/-- What `aten::Relabel_` leaves in an array.  On the device it renumbers a copy. -/
def relabelled (device : Bool) (mapping ids : List ℕ) : List ℕ :=
  if device then ids else ids.map mapping.idxOf

namespace HeteroGraph

/-- The constructor with `HeteroGraphSanityCheck`. -/
def new (bits : ℕ) (etypes : List (ℕ × ℕ)) (rels : List Stored) (numVerts : List ℕ) :
    Except Fault HeteroGraph :=
  if etypes.length = rels.length ∧ rels ≠ [] then .ok ⟨bits, etypes, rels, numVerts⟩
  else .error .raised

variable (host : Host) (device : Bool) (hg : HeteroGraph)

/-- `NumVertexTypes`. -/
def numVertexTypes : ℕ := hg.numVerts.length

/-- `NumEdgeTypes`. -/
def numEdgeTypes : ℕ := hg.etypes.length

/-- The source type of `meta_graph_->FindEdge`. -/
def srcType (etype : ℕ) : ℕ := (hg.etypes.getD etype (0, 0)).1

/-- The destination type of `meta_graph_->FindEdge`. -/
def dstType (etype : ℕ) : ℕ := (hg.etypes.getD etype (0, 0)).2

/-- `GetRelationGraph`. -/
def rel (etype : ℕ) : Stored := hg.rels.getD etype ⟨2, none, none, none, .all⟩

/-- `NumVertices`. -/
def numVertices (vtype : ℕ) : ℕ := hg.numVerts.getD vtype 0

/-- The vertex types of the unit graph of an edge type. -/
def relVertexTypes (etype : ℕ) : ℕ := if hg.srcType etype = hg.dstType etype then 1 else 2

/-- `rel_vids` -/
def relVids (vids : List (List ℕ)) (etype : ℕ) : List (List ℕ) :=
  if hg.srcType etype = hg.dstType etype then [vids.getD (hg.srcType etype) []]
  else [vids.getD (hg.srcType etype) [], vids.getD (hg.dstType etype) []]

/-- `VertexSubgraph`. -/
def vertexSubgraph (vids : List (List ℕ)) : Except Fault HeteroSubgraph :=
  if vids.length ≠ hg.numVertexTypes then .error .raised
  else do
    let subs ← (List.range hg.numEdgeTypes).mapM fun etype =>
      (hg.rel etype).subgraph host (.vertexSubgraph (hg.relVids vids etype))
    let graph ← new hg.bits hg.etypes (subs.map Prod.fst) (vids.map List.length)
    return ⟨graph, vids, subs.map fun sub => sub.2.2⟩

/-- `EdgeSubgraphPreserveNodes`. -/
def edgeSubgraphPreserveNodes (eids : List (List ℕ)) : Except Fault HeteroSubgraph :=
  if eids.length ≠ hg.numEdgeTypes then .error .raised
  else do
    let subs ← (List.range hg.numEdgeTypes).mapM fun etype =>
      (hg.rel etype).subgraph host (.edgeSubgraph [eids.getD etype []] true)
    let graph ← new hg.bits hg.etypes (subs.map Prod.fst) hg.numVerts
    let inducedVertices := (List.range hg.numEdgeTypes).foldl (fun vs etype =>
      let sub := (subs.map fun sub => sub.2.1).getD etype []
      (vs.set (hg.srcType etype) (sub.getD 0 [])).set (hg.dstType etype) (sub.getD 1 []))
      (List.replicate hg.numVertexTypes [])
    return ⟨graph, inducedVertices, eids⟩

/-- `vtype2incnodes` -/
def incNodes (subedges : List EdgeArray) (vtype : ℕ) : List (List ℕ) :=
  (List.range hg.numEdgeTypes).flatMap fun etype =>
    let earray := subedges.getD etype ⟨[], [], []⟩
    (if hg.srcType etype = vtype then [earray.src] else []) ++
      if hg.dstType etype = vtype then [earray.dst] else []

/-- `UnitGraph::CreateFromCOO` for the relabelled edges of an edge type. -/
def createRelation (inducedVertices : List (List ℕ)) (subedges : List EdgeArray) (etype : ℕ) :
    Except Fault Stored :=
  let srcs := inducedVertices.getD (hg.srcType etype) []
  let dsts := inducedVertices.getD (hg.dstType etype) []
  let earray := subedges.getD etype ⟨[], [], []⟩
  if hg.relVertexTypes etype = 1 ∧ srcs.length ≠ dsts.length then .error .raised
  else .ok ⟨hg.relVertexTypes etype, none, none, some ⟨hg.bits, srcs.length, dsts.length,
    relabelled device srcs earray.src, relabelled device dsts earray.dst, [], false, false⟩, .all⟩

/-- `EdgeSubgraphNoPreserveNodes`. -/
def edgeSubgraphNoPreserveNodes (eids : List (List ℕ)) : Except Fault HeteroSubgraph :=
  if eids.length ≠ hg.numEdgeTypes then .error .raised
  else do
    let subedges ← (List.range hg.numEdgeTypes).mapM fun etype =>
      (hg.rel etype).findEdges host (eids.getD etype [])
    let inducedVertices ← (List.range hg.numVertexTypes).mapM fun vtype =>
      relabelIds (hg.incNodes subedges vtype)
    let subrels ← (List.range hg.numEdgeTypes).mapM
      (hg.createRelation device inducedVertices subedges)
    let graph ← new hg.bits hg.etypes subrels (inducedVertices.map List.length)
    return ⟨graph, inducedVertices, eids⟩

/-- `EdgeSubgraph`. -/
def edgeSubgraph (eids : List (List ℕ)) (preserveNodes : Bool) : Except Fault HeteroSubgraph :=
  if preserveNodes then hg.edgeSubgraphPreserveNodes host eids
  else hg.edgeSubgraphNoPreserveNodes host device eids

end HeteroGraph

/-! ## What a graph shows -/

/-- The graph has the edges in every format that it has at hand, it has one, and may have it. -/
structure Stored.Presents (s : Stored) (E : Multiset Entry) (n a b : ℕ) : Prop
    extends s.Lists E n a b where
  created : s.createdFormats.nonzero = true
  within : s.createdFormats.within s.formats = true
  square : n = 1 → a = b

/-- The edges `E t` of the edge types, between vertices of their end types. -/
structure HeteroGraph.Shows (hg : HeteroGraph) (E : ℕ → Multiset Entry) : Prop where
  rels : hg.rels.length = hg.numEdgeTypes
  nonempty : hg.etypes ≠ []
  ends : ∀ t < hg.numEdgeTypes, hg.srcType t < hg.numVertexTypes ∧ hg.dstType t < hg.numVertexTypes
  rel : ∀ t < hg.numEdgeTypes, (hg.rel t).Presents (E t) (hg.relVertexTypes t)
    (hg.numVertices (hg.srcType t)) (hg.numVertices (hg.dstType t))

section Relation

variable {E : Multiset Entry} {n a b : ℕ} {s : Stored} {host : Host}

namespace Stored.Presents

variable (h : s.Presents E n a b)
include h

lemma cooMatrix_isSome : s.cooMatrix.isSome = true := by
  have hcreated := h.created
  rw [Formats.nonzero, Stored.createdFormats] at hcreated
  rw [Stored.cooMatrix]
  split
  · rfl
  · rename_i hcoo
    split
    · rfl
    · rename_i hin
      rw [hcoo, hin] at hcreated
      rw [Option.isSome_map]
      simpa using hcreated

lemma numbered : Numbered E := by
  obtain ⟨m, hm⟩ := Option.isSome_iff_exists.1 h.cooMatrix_isSome
  exact (h.cooMatrix hm).of.numbered

/-- A query for COO gets it if the graph may have it. -/
lemma selectFormat_coo_iff : s.selectFormat ⟨true, false, false⟩ = .coo ↔ s.formats.coo = true := by
  have hwithin := Formats.within_iff.1 h.within .coo
  rw [Formats.has, Formats.has] at hwithin
  unfold Stored.selectFormat
  simp only [Formats.inter, Formats.nonzero, Formats.decode, Bool.true_and, Bool.false_and,
    Bool.or_false, Bool.false_eq_true, if_false]
  cases hcoo : s.formats.coo with
  | true =>
      refine iff_of_true ?_ rfl
      cases s.createdFormats.coo <;> rfl
  | false =>
      refine iff_of_false ?_ Bool.false_ne_true
      have hnone : s.createdFormats.coo = false := by
        rw [hcoo] at hwithin
        exact Bool.eq_false_iff.2 fun hc => Bool.false_ne_true (hwithin hc)
      simp only [hnone, Bool.false_and, Bool.false_eq_true, if_false]
      split <;> exact SparseFormat.noConfusion

lemma getFormat_coo (host : Host) (hcoo : s.formats.coo = true) :
    ∃ m, s.getFormat host .coo = some (.coo m) ∧ ListsCOO E a b m := by
  obtain ⟨m, hm⟩ := Option.isSome_iff_exists.1 h.cooMatrix_isSome
  refine ⟨m, ?_, h.cooMatrix hm⟩
  rw [Stored.getFormat, Formats.has, if_pos hcoo, hm]
  rfl

/-- A query that only COO answers is refused if the graph may not have COO. -/
lemma refused (hcoo : s.formats.coo = false) {q : Query}
    (hq : s.formatFor host q = s.selectFormat ⟨true, false, false⟩)
    (hraise : ∀ fmt m, s.dispatch host fmt (.csr m) q = .error .raised) :
    s.query host q = .error .raised := by
  have hfmt : s.formatFor host q ≠ .coo := by
    rw [hq, Ne, h.selectFormat_coo_iff, hcoo]
    exact nofun
  unfold Stored.query
  cases hadj : s.getFormat host (s.formatFor host q) with
  | none => rfl
  | some adj =>
      rcases h.getFormat hadj with ⟨hc, -⟩ | ⟨-, m, rfl, -⟩ | ⟨-, m, rfl, -⟩
      · exact absurd hc hfmt
      · exact hraise _ m
      · exact hraise _ m

/-- A query for COO is asked of the COO object. -/
lemma query_coo (host : Host) (hcoo : s.formats.coo = true) {q : Query}
    (hq : s.formatFor host q = s.selectFormat ⟨true, false, false⟩) :
    ∃ m, ListsCOO E a b m ∧ s.query host q = s.dispatch host .coo (.coo m) q := by
  obtain ⟨m, hm, hlist⟩ := h.getFormat_coo host hcoo
  refine ⟨m, hlist, ?_⟩
  unfold Stored.query
  rw [hq, h.selectFormat_coo_iff.2 hcoo, hm]

/-- `FindEdges` answers if the graph may have COO. -/
lemma findEdges_eq (host : Host) (hcoo : s.formats.coo = true) {ids : List ℕ}
    (hids : ∀ k ∈ ids, k < Multiset.card E) :
    ∃ es, s.findEdges host ids = .ok (.ofEntries es) ∧ EdgesOf E ids es := by
  obtain ⟨m, hm, hquery⟩ := h.query_coo host hcoo (q := .findEdges ids) rfl
  obtain ⟨es, hask, hes⟩ := hm.findEdges s.numVTypes host hids
  refine ⟨es, ?_, hes⟩
  rw [Stored.findEdges, hquery]
  show (((COO.ask host s.numVTypes m (.findEdges ids)).map
    (Answer.mapGraph (Stored.pack s.numVTypes .coo))).bind _) = _
  rw [hask]
  rfl

lemma findEdges_refused (hcoo : s.formats.coo = false) (ids : List ℕ) :
    s.findEdges host ids = .error .raised := by
  rw [Stored.findEdges, h.refused hcoo rfl fun _ _ => rfl]
  rfl

/-- `EdgeSubgraph` with all vertices answers if the graph may have COO. -/
lemma edgeSubgraph_eq (hcoo : s.formats.coo = true) {ids : List ℕ}
    (hids : ∀ k ∈ ids, k < Multiset.card E) :
    ∃ g, s.subgraph host (.edgeSubgraph [ids] true) = .ok (g, [[], []], ids) ∧
      Correct E n a b (.edgeSubgraph [ids] true) (.subgraph g [[], []] ids) := by
  obtain ⟨m, hm, hquery⟩ := h.query_coo host hcoo (q := .edgeSubgraph [ids] true) rfl
  obtain ⟨sub, es, hask, hes, hrows, hcols, hof, hpicked⟩ :=
    hm.edgeSubgraph_preserve s.numVTypes host (List.length_singleton (a := ids)) hids
  refine ⟨Stored.pack s.numVTypes .coo (.coo sub), ?_, rfl, es, hes, rfl,
    packCOO_shaped hrows hcols, packCOO_picks hof hpicked⟩
  rw [Stored.subgraph, hquery]
  show (((COO.ask host s.numVTypes m (.edgeSubgraph [ids] true)).map
    (Answer.mapGraph (Stored.pack s.numVTypes .coo))).bind _) = _
  rw [hask]
  rfl

lemma edgeSubgraph_refused (hcoo : s.formats.coo = false) (ids : List ℕ) :
    s.subgraph host (.edgeSubgraph [ids] true) = .error .raised := by
  rw [Stored.subgraph, h.refused hcoo rfl fun _ _ => rfl]
  rfl

end Stored.Presents

/-- When a unit graph gives the part of a vertex subgraph between some of its `b` destinations: its
matrix can be made, and a CSC matrix is not asked for sources and destinations exchanged. -/
def Stored.GivesPart (host : Host) (s : Stored) (E : Multiset Entry) (b : ℕ) (srcs dsts : List ℕ) :
    Prop :=
  let fmt := s.selectFormat ⟨false, true, false⟩
  (s.getFormat host fmt).isSome = true ∧
    (fmt = .csc → (∀ u ∈ srcs, u < b) ∧ srcs.length = dsts.length ∧
      ∀ e ∈ E, subPlace srcs dsts e.swap = (subPlace srcs dsts e).map Prod.swap)

lemma CSR.vertexSubgraph_eq_ok {m : CSRMatrix} {vids : List (List ℕ)} {ans : Answer Adj}
    (hans : CSR.vertexSubgraph n m vids = .ok ans) :
    (∃ g es, ans = .subgraph g vids es) ∧ ∀ u ∈ vids.getD 0 [], u < m.numRows := by
  rw [CSR.vertexSubgraph] at hans
  split at hans
  · cases hans
  · rw [CSRMatrix.sliceMatrix] at hans
    split at hans
    · cases hans
    · rename_i hany
      obtain rfl := Except.ok.inj hans
      refine ⟨⟨_, _, rfl⟩, fun u hu => ?_⟩
      by_contra hle
      exact hany (List.any_eq_true.2 ⟨u, hu, decide_eq_true (Nat.le_of_not_lt hle)⟩)

lemma CSR.vertexSubgraph_ok {m : CSRMatrix} {vids : List (List ℕ)} (hlen : vids.length = n)
    (hlt : ∀ u ∈ vids.getD 0 [], u < m.numRows) : ∃ ans, CSR.vertexSubgraph n m vids = .ok ans := by
  have hany : ¬ ((vids.getD 0 []).any fun r => m.numRows ≤ r) = true := by
    rw [List.any_eq_true]
    rintro ⟨u, hu, hle⟩
    exact absurd (hlt u hu) (Nat.not_lt.2 (of_decide_eq_true hle))
  rw [CSR.vertexSubgraph, if_neg (not_not.2 hlen), CSRMatrix.sliceMatrix, if_neg hany]
  exact ⟨_, rfl⟩

namespace Stored.Presents

variable (h : s.Presents E n a b) {vids : List (List ℕ)}
  (hq : (Query.vertexSubgraph vids).Valid E n a b)
include h hq

omit hq in
/-- The answer to a vertex subgraph names the vertices that are asked for, and a CSC matrix has rows for
the sources. -/
lemma vertexSubgraph_named {ans : Answer Stored}
    (hans : s.query host (.vertexSubgraph vids) = .ok ans) :
    (∃ g es, ans = .subgraph g vids es) ∧
      (s.selectFormat ⟨false, true, false⟩ = .csc → ∀ u ∈ vids.getD 0 [], u < b) := by
  unfold Stored.query at hans
  have hfmt : s.formatFor host (.vertexSubgraph vids) = s.selectFormat ⟨false, true, false⟩ := rfl
  rw [hfmt] at hans
  cases hadj : s.getFormat host (s.selectFormat ⟨false, true, false⟩) with
  | none =>
      rw [hadj] at hans
      cases hans
  | some adj =>
      rw [hadj] at hans
      obtain ⟨x, hx, hans⟩ := bind_eq_ok_iff.1 (show
        ((adj.ask host s.numVTypes (.vertexSubgraph vids)).bind fun x =>
          Except.ok (Answer.mapGraph (Stored.pack s.numVTypes _) x)) = _ from hans)
      obtain rfl := Except.ok.inj hans
      rcases h.getFormat hadj with ⟨hc, m, rfl, hm⟩ | ⟨hc, m, rfl, hm⟩ | ⟨hc, m, rfl, hm⟩
      · have hx : COO.vertexSubgraph s.numVTypes m vids = .ok x := hx
        rw [COO.vertexSubgraph] at hx
        split at hx
        · cases hx
        obtain rfl := Except.ok.inj hx
        exact ⟨⟨_, _, rfl⟩, fun hcsc => SparseFormat.noConfusion (hc.symm.trans hcsc)⟩
      · obtain ⟨⟨g, es, rfl⟩, -⟩ := CSR.vertexSubgraph_eq_ok hx
        exact ⟨⟨_, _, rfl⟩, fun hcsc => SparseFormat.noConfusion (hc.symm.trans hcsc)⟩
      · obtain ⟨⟨g, es, rfl⟩, hlt⟩ := CSR.vertexSubgraph_eq_ok hx
        rw [hm.rows] at hlt
        exact ⟨⟨_, _, rfl⟩, fun _ => hlt⟩

omit hq in
lemma subgraph_vertices {x : Stored × List (List ℕ) × List ℕ}
    (hx : s.subgraph host (.vertexSubgraph vids) = .ok x) : x.2.1 = vids := by
  obtain ⟨ans, hans, hx⟩ := bind_eq_ok_iff.1 hx
  obtain ⟨⟨g, es, rfl⟩, -⟩ := h.vertexSubgraph_named hans
  obtain rfl := Except.ok.inj hx
  rfl

/-- **A unit graph gives its part** of a vertex subgraph exactly in these cases. -/
lemma vertexSubgraph_iff (host : Host) :
    (∃ g es, s.subgraph host (.vertexSubgraph vids) = .ok (g, vids, es) ∧
      Correct E n a b (.vertexSubgraph vids) (.subgraph g vids es)) ↔
      s.GivesPart host E b (vids.getD 0 []) (dstVids n vids) := by
  have hfmt : s.formatFor host (.vertexSubgraph vids) = s.selectFormat ⟨false, true, false⟩ := rfl
  have hn := h.numVTypes
  subst hn
  have hsub (ans : Answer Stored) : s.query host (.vertexSubgraph vids) = .ok ans →
      ∀ g es, s.subgraph host (.vertexSubgraph vids) = .ok (g, vids, es) ↔
        ans = .subgraph g vids es := by
    intro hans g es
    obtain ⟨⟨g', es', rfl⟩, -⟩ := h.vertexSubgraph_named hans
    rw [Stored.subgraph, hans]
    show Except.ok (g', vids, es') = _ ↔ _
    simp
  constructor
  · rintro ⟨g, es, hok, hright⟩
    obtain ⟨ans, hans, -⟩ := bind_eq_ok_iff.1 hok
    obtain rfl := (hsub ans hans g es).1 hok
    obtain ⟨-, hlt⟩ := h.vertexSubgraph_named hans
    unfold Stored.query at hans
    rw [hfmt] at hans
    cases hadj : s.getFormat host (s.selectFormat ⟨false, true, false⟩) with
    | none =>
        rw [hadj] at hans
        cases hans
    | some adj =>
        rw [hadj] at hans
        have hdispatch : s.dispatch host (s.selectFormat ⟨false, true, false⟩) adj
            (.vertexSubgraph vids) = .ok (.subgraph g vids es) := hans
        have hanswered : Answered E s.numVTypes a b _ (s.dispatch host _ adj _) ↔ _ :=
          vertexSubgraph_answered (h.getFormat hadj) h.numbered hq
        rw [hdispatch] at hanswered
        have hserved := hanswered.1 hright
        refine ⟨by rw [hadj]; rfl, fun hcsc => ⟨hlt hcsc, ?_⟩⟩
        refine (hserved hcsc).resolve_left ?_
        rintro ⟨u, hu, hle⟩
        exact absurd (hlt hcsc u hu) (Nat.not_lt.2 hle)
  · rintro ⟨hsome, hcsc⟩
    obtain ⟨adj, hadj⟩ := Option.isSome_iff_exists.1 hsome
    have hquery : s.query host (.vertexSubgraph vids) =
        s.dispatch host (s.selectFormat ⟨false, true, false⟩) adj (.vertexSubgraph vids) := by
      unfold Stored.query
      rw [hfmt, hadj]
    have hanswered : Answered E s.numVTypes a b _ (s.dispatch host _ adj _) :=
      (vertexSubgraph_answered (h.getFormat hadj) h.numbered hq).2 fun hc => Or.inr (hcsc hc).2
    have hok : ∃ x, adj.ask host s.numVTypes (.vertexSubgraph vids) = .ok x := by
      rcases h.getFormat hadj with ⟨-, m, rfl, -⟩ | ⟨-, m, rfl, hm⟩ | ⟨hc, m, rfl, hm⟩
      · exact ⟨_, if_neg (not_not.2 hq.1)⟩
      · refine CSR.vertexSubgraph_ok hq.1 ?_
        rw [hm.rows]
        exact hq.2.1.2
      · refine CSR.vertexSubgraph_ok hq.1 ?_
        rw [hm.rows]
        exact (hcsc hc).1
    obtain ⟨x, hx⟩ := hok
    have hans : s.query host (.vertexSubgraph vids) =
        .ok (x.mapGraph (Stored.pack s.numVTypes (s.selectFormat ⟨false, true, false⟩))) := by
      rw [hquery]
      show (adj.ask host s.numVTypes (.vertexSubgraph vids)).map _ = _
      rw [hx]
      rfl
    rw [← hquery, hans] at hanswered
    obtain ⟨⟨g, es, hg⟩, -⟩ := h.vertexSubgraph_named hans
    rw [hg] at hans hanswered
    exact ⟨g, es, (hsub _ hans g es).2 rfl, hanswered⟩

end Stored.Presents

end Relation

end DglAscend.Hetero
