import DglAscend.Hetero.HeteroGraph
import DglAscend.Lib.Numbering

/-!
# Flattening

`HeteroGraph::FlattenImpl` puts some edge types into one relation.  The vertices of the source types
get consecutive numbers, and those of the destination types; the ends of the edges are moved by the
offsets of their types.
-/

namespace DglAscend.Hetero

open Aten

/-- `FlattenedHeteroGraph`.  The graph is made of the arrays `src` and `dst`. -/
structure Flattened where
  numVTypes : ℕ
  numSrc : ℕ
  numDst : ℕ
  src : List ℤ
  dst : List ℤ
  /-- `induced_srctype` and `induced_srcid` -/
  inducedSrc : List (ℕ × ℕ)
  inducedSrctypeSet : List ℕ
  inducedEtype : List ℕ
  inducedEtypeSet : List ℕ
  inducedEid : List ℕ
  /-- `induced_dsttype` and `induced_dstid` -/
  inducedDst : List (ℕ × ℕ)
  inducedDsttypeSet : List ℕ
  deriving DecidableEq, Repr

/-- `UnitGraph::Edges` without an order. -/
def Stored.edges (host : Host) (s : Stored) : Except Fault EdgeArray := do
  match ← s.query host (.edges "") with
  | .edges a => .ok a
  | _ => .error .raised

/-- `UnitGraph::NumEdges`, which asks `GetAny`. -/
def Stored.numEdges (s : Stored) : ℕ :=
  match s.inCsr, s.outCsr, s.coo with
  | some csc, _, _ => csc.nnz
  | none, some csr, _ => csr.nnz
  | none, none, some coo => coo.nnz
  | none, none, none => 0

/-- `aten::Concat` -/
def concatIds {α : Type} (arrays : List (List α)) : Except Fault (List α) :=
  if arrays = [] then .error .outOfBounds else .ok arrays.flatten

/-- `COOMatrix::CheckValidity` for arrays of one dtype in one context. -/
def checkValidity (bits numRows numCols : ℕ) : Except Fault Unit :=
  if noOverflow bits numRows && noOverflow bits numCols then .ok () else .error .raised

namespace HeteroGraph

variable (host : Host) (hg : HeteroGraph)

/-- `edges.src + srctype_offset` -/
def shifted (offset : ℕ) (ids : List ℕ) : List ℤ :=
  ids.map fun id => ((id + offset : ℕ) : ℤ).bmod (2 ^ hg.bits)

/-- `srctype_set` or `dsttype_set`: every type once, and sorted. -/
def typeSet (types : List ℕ) : List ℕ := (IdHashMap.ofIds types).ids.insertionSort (· ≤ ·)

/-- `FlattenImpl`. -/
def flatten (etypes : List ℕ) : Except Fault Flattened := do
  let srctypeSet := typeSet (etypes.map hg.srcType)
  let dsttypeSet := typeSet (etypes.map hg.dstType)
  let inducedSrc := blockTable srctypeSet hg.numVertices
  let inducedDst := blockTable dsttypeSet hg.numVertices
  let edges ← etypes.mapM fun etype => (hg.rel etype).edges host
  let src ← concatIds ((etypes.zip edges).map fun e =>
    hg.shifted (blockOffset srctypeSet hg.numVertices (hg.srcType e.1)) e.2.src)
  let dst ← concatIds ((etypes.zip edges).map fun e =>
    hg.shifted (blockOffset dsttypeSet hg.numVertices (hg.dstType e.1)) e.2.dst)
  -- `UnitGraph::CreateFromCOO` makes a `COOMatrix`.
  checkValidity hg.bits inducedSrc.length inducedDst.length
  let inducedEtype ← concatIds (etypes.map fun etype =>
    List.replicate (hg.rel etype).numEdges etype)
  let inducedEid ← concatIds (edges.map EdgeArray.id)
  return ⟨if srctypeSet = dsttypeSet then 1 else 2, inducedSrc.length, inducedDst.length, src, dst,
    inducedSrc, srctypeSet, inducedEtype, etypes, inducedEid, inducedDst, dsttypeSet⟩

end HeteroGraph

/-! ## The edges of a unit graph -/

section Relation

variable {E : Multiset Entry} {n a b : ℕ} {s : Stored}

namespace Stored.Presents

variable (h : s.Presents E n a b)
include h

lemma selectFormat_all : s.selectFormat .all = s.createdFormats.decode := by
  have hcommon : (Formats.all.inter s.formats).inter s.createdFormats = s.createdFormats := by
    have hwithin := Formats.within_iff.1 h.within
    have hand {x y : Bool} (hxy : x = true → y = true) : (y && x) = x := by
      cases x
      · exact Bool.and_false y
      · rw [hxy rfl, Bool.and_true]
    have hcoo : (s.formats.coo && s.createdFormats.coo) = s.createdFormats.coo := hand (hwithin .coo)
    have hcsr : (s.formats.csr && s.createdFormats.csr) = s.createdFormats.csr := hand (hwithin .csr)
    have hcsc : (s.formats.csc && s.createdFormats.csc) = s.createdFormats.csc := hand (hwithin .csc)
    simp only [Formats.all, Formats.inter, Bool.true_and, hcoo, hcsr, hcsc]
  unfold Stored.selectFormat
  simp only [hcommon]
  rw [if_pos h.created]

lemma getFormat_created (host : Host) {fmt : SparseFormat} (hfmt : s.createdFormats.has fmt = true) :
    (s.getFormat host fmt).isSome = true := by
  unfold Stored.getFormat
  rw [if_pos (Formats.within_iff.1 h.within fmt hfmt)]
  cases fmt with
  | coo =>
      obtain ⟨m, hm⟩ := Option.isSome_iff_exists.1 (show s.coo.isSome = true from hfmt)
      simp only [Stored.cooMatrix, hm, Option.map_some, Option.isSome_some]
  | csr =>
      obtain ⟨m, hm⟩ := Option.isSome_iff_exists.1 (show s.outCsr.isSome = true from hfmt)
      simp only [Stored.csrMatrix, hm, Option.map_some, Option.isSome_some]
  | csc =>
      obtain ⟨m, hm⟩ := Option.isSome_iff_exists.1 (show s.inCsr.isSome = true from hfmt)
      simp only [Stored.cscMatrix, hm, Option.map_some, Option.isSome_some]

lemma edges_eq (host : Host) : ∃ es : List Entry, s.edges host = .ok (.ofEntries es) ∧
    (es : Multiset Entry) = E := by
  have hfmt : s.formatFor host (.edges "") = s.createdFormats.decode := by
    rw [← h.selectFormat_all]
    rfl
  obtain ⟨adj, hadj⟩ := Option.isSome_iff_exists.1
    (h.getFormat_created host (Formats.has_decode h.created))
  have hquery : s.query host (.edges "") =
      s.dispatch host s.createdFormats.decode adj (.edges "") := by
    unfold Stored.query
    rw [hfmt, hadj]
  rw [Stored.edges, hquery]
  rcases h.getFormat hadj with ⟨hc, m, rfl, hm⟩ | ⟨hc, m, rfl, hm⟩ | ⟨hc, m, rfl, hm⟩
  · rw [hc]
    refine ⟨m.entries, ?_, hm.of.entries⟩
    show (Except.ok (Answer.edges ⟨m.row, m.col, List.range m.nnz⟩)).bind _ = _
    rw [← hm.coo_ofEntries]
    rfl
  · obtain ⟨es, hask, hes, -⟩ := hm.edges s.numVTypes host (Or.inl (rfl : "" = ""))
    rw [hc]
    refine ⟨es, ?_, hes⟩
    show (((CSR.ask host s.numVTypes m (.edges "")).map _).bind _) = _
    rw [hask]
    rfl
  · obtain ⟨es, hask, hes, -⟩ := hm.edges s.numVTypes host (Or.inl (rfl : "" = ""))
    rw [hc]
    refine ⟨es.map .swap, ?_, ?_⟩
    · show ((((CSR.ask host s.numVTypes m (.edges "")).map _).map _).bind _) = _
      rw [hask, ← swap_ofEntries]
      rfl
    · rw [← reversed_coe, hes, reversed_reversed]

lemma numEdges_eq : s.numEdges = Multiset.card E := by
  have hcsr {F : Multiset Entry} {m : CSRMatrix} (hm : OfCSR F m) : m.nnz = Multiset.card F := by
    rw [← hm.entries, Multiset.coe_card, hm.valid.length_entries]
  rw [Stored.numEdges]
  split
  · rename_i m hm
    rw [hcsr (h.inCsr m hm).of, card_reversed]
  · rename_i m _ hm
    exact hcsr (h.outCsr m hm).of
  · rename_i m _ _ hm
    exact (h.coo m hm).nnz
  · rename_i hin hout hcoo
    have hcreated := h.created
    rw [Formats.nonzero, Stored.createdFormats, hin, hout, hcoo] at hcreated
    cases hcreated

lemma ends_lt {e : Entry} (he : e ∈ E) : e.1 < a ∧ e.2.1 < b := by
  obtain ⟨m, hm⟩ := Option.isSome_iff_exists.1 h.cooMatrix_isSome
  have hlist := h.cooMatrix hm
  rw [← hlist.of.entries, Multiset.mem_coe] at he
  have hlt := hlist.of.valid.entry_lt he
  rwa [hlist.rows, hlist.cols] at hlt

end Stored.Presents

end Relation

/-! ## What a flattened graph records -/

namespace HeteroGraph

/-- The edges of the listed edge types. -/
def listedEdges (E : ℕ → Multiset Entry) (etypes : List ℕ) : Multiset (ℕ × Entry) :=
  (etypes.map fun t => (E t).map (Prod.mk t)).sum

/-- A number in a table of vertices is that of a vertex. -/
def NumberOf (table : List (ℕ × ℕ)) (vertex : ℕ × ℕ) (x : ℤ) : Prop :=
  ∃ k : ℕ, x = k ∧ table[k]? = some vertex

/-- The flattened graph has the vertices of the types at the ends, each once, and the edges of the listed
types, each once, between the numbers of their ends. -/
structure FlattenedRight (hg : HeteroGraph) (E : ℕ → Multiset Entry) (etypes : List ℕ)
    (f : Flattened) : Prop where
  srcNodup : f.inducedSrc.Nodup
  srcMem : ∀ v j, (v, j) ∈ f.inducedSrc ↔ v ∈ etypes.map hg.srcType ∧ j < hg.numVertices v
  dstNodup : f.inducedDst.Nodup
  dstMem : ∀ v j, (v, j) ∈ f.inducedDst ↔ v ∈ etypes.map hg.dstType ∧ j < hg.numVertices v
  numSrc : f.numSrc = f.inducedSrc.length
  numDst : f.numDst = f.inducedDst.length
  /-- The vertices of both sides are the same if their types are. -/
  merged : f.numVTypes = 1 ∧ f.inducedSrc = f.inducedDst ∧
      (∀ v, v ∈ etypes.map hg.srcType ↔ v ∈ etypes.map hg.dstType) ∨
    f.numVTypes = 2 ∧ ¬ ∀ v, v ∈ etypes.map hg.srcType ↔ v ∈ etypes.map hg.dstType
  edges : ∃ es : List (ℕ × Entry), (es : Multiset (ℕ × Entry)) = listedEdges E etypes ∧
    f.inducedEtype = es.map Prod.fst ∧ f.inducedEid = es.map (fun p => p.2.2.2) ∧
    List.Forall₂ (fun p => NumberOf f.inducedSrc (hg.srcType p.1, p.2.1)) es f.src ∧
    List.Forall₂ (fun p => NumberOf f.inducedDst (hg.dstType p.1, p.2.2.1)) es f.dst
  origins : (f.inducedEtype.zip f.inducedEid).Nodup

section TypeSets

variable {types types' : List ℕ} {v : ℕ}

lemma mem_typeSet : v ∈ typeSet types ↔ v ∈ types := by
  rw [typeSet, List.mem_insertionSort, IdHashMap.mem_ofIds]

lemma nodup_typeSet (types : List ℕ) : (typeSet types).Nodup :=
  (List.perm_insertionSort _ _).nodup_iff.2 (IdHashMap.nodup_ofIds types)

lemma typeSet_eq_iff : typeSet types = typeSet types' ↔ ∀ v, v ∈ types ↔ v ∈ types' := by
  constructor
  · intro h v
    rw [← mem_typeSet, h, mem_typeSet]
  · intro h
    have hperm : (typeSet types).Perm (typeSet types') := by
      rw [List.perm_ext_iff_of_nodup (nodup_typeSet _) (nodup_typeSet _)]
      intro v
      rw [mem_typeSet, mem_typeSet]
      exact h v
    exact hperm.eq_of_sortedLE (List.sortedLE_insertionSort) (List.sortedLE_insertionSort)

end TypeSets

/-! ## The flattened graph -/

section Flattened

variable {host : Host} {hg : HeteroGraph} {E : ℕ → Multiset Entry} {etypes : List ℕ}
  {es : ℕ → List Entry}

/-- The edges in the order of the flattened graph. -/
def flatEdges (etypes : List ℕ) (es : ℕ → List Entry) : List (ℕ × Entry) :=
  etypes.flatMap fun t => (es t).map (Prod.mk t)

/-- The number of the source of an edge. -/
def srcNumber (hg : HeteroGraph) (etypes : List ℕ) (p : ℕ × Entry) : ℕ :=
  blockOffset (typeSet (etypes.map hg.srcType)) hg.numVertices (hg.srcType p.1) + p.2.1

/-- The number of the destination of an edge. -/
def dstNumber (hg : HeteroGraph) (etypes : List ℕ) (p : ℕ × Entry) : ℕ :=
  blockOffset (typeSet (etypes.map hg.dstType)) hg.numVertices (hg.dstType p.1) + p.2.2.1

/-- What `FlattenImpl` returns for some edges. -/
def flattened (hg : HeteroGraph) (etypes : List ℕ) (es : ℕ → List Entry) : Flattened :=
  let srctypeSet := typeSet (etypes.map hg.srcType)
  let dsttypeSet := typeSet (etypes.map hg.dstType)
  let inducedSrc := blockTable srctypeSet hg.numVertices
  let inducedDst := blockTable dsttypeSet hg.numVertices
  ⟨if srctypeSet = dsttypeSet then 1 else 2, inducedSrc.length, inducedDst.length,
    (flatEdges etypes es).map fun p => (hg.srcNumber etypes p : ℤ).bmod (2 ^ hg.bits),
    (flatEdges etypes es).map fun p => (hg.dstNumber etypes p : ℤ).bmod (2 ^ hg.bits),
    inducedSrc, srctypeSet, (flatEdges etypes es).map Prod.fst, etypes,
    (flatEdges etypes es).map fun p => p.2.2.2, inducedDst, dsttypeSet⟩

/-- The vertices of the flattened graph on the side of the sources. -/
def srcNodes (hg : HeteroGraph) (etypes : List ℕ) : ℕ :=
  ((typeSet (etypes.map hg.srcType)).map hg.numVertices).sum

/-- The vertices of the flattened graph on the side of the destinations. -/
def dstNodes (hg : HeteroGraph) (etypes : List ℕ) : ℕ :=
  ((typeSet (etypes.map hg.dstType)).map hg.numVertices).sum

lemma map_zip_map {α β γ : Type} (l : List α) (f : α → β) (g : α × β → γ) :
    (l.zip (l.map f)).map g = l.map fun a => g (a, f a) := by
  induction l with
  | nil => rfl
  | cons a l ih => rw [List.map_cons, List.zip_cons_cons, List.map_cons, ih, List.map_cons]

lemma concatIds_map {β : Type} (hne : etypes ≠ []) (f : ℕ → Entry → β) {g : ℕ → List β}
    (hg : ∀ t ∈ etypes, g t = (es t).map (f t)) :
    concatIds (etypes.map g) = .ok ((flatEdges etypes es).map fun p => f p.1 p.2) := by
  rw [concatIds, if_neg fun hnil => hne (List.map_eq_nil_iff.1 hnil), ← List.flatMap_def, flatEdges,
    List.map_flatMap]
  congr 1
  apply List.flatMap_congr
  intro t ht
  rw [hg t ht, List.map_map]
  rfl

lemma flatten_eq (hne : etypes ≠ [])
    (hedges : ∀ t ∈ etypes, (hg.rel t).edges host = .ok (.ofEntries (es t)))
    (hnum : ∀ t ∈ etypes, (hg.rel t).numEdges = (es t).length) :
    hg.flatten host etypes =
      if noOverflow hg.bits (hg.srcNodes etypes) && noOverflow hg.bits (hg.dstNodes etypes) then
        .ok (hg.flattened etypes es)
      else .error .raised := by
  have hsrc : concatIds ((etypes.zip (etypes.map fun t => EdgeArray.ofEntries (es t))).map fun e =>
      hg.shifted (blockOffset (typeSet (etypes.map hg.srcType)) hg.numVertices (hg.srcType e.1))
        e.2.src) = .ok (hg.flattened etypes es).src := by
    rw [map_zip_map]
    refine concatIds_map hne (fun t e => (hg.srcNumber etypes (t, e) : ℤ).bmod (2 ^ hg.bits))
      fun t _ => ?_
    show ((es t).map Prod.fst).map _ = _
    rw [List.map_map]
    apply List.map_congr_left
    intro e _
    rw [Function.comp_apply, srcNumber, Nat.add_comm]
  have hdst : concatIds ((etypes.zip (etypes.map fun t => EdgeArray.ofEntries (es t))).map fun e =>
      hg.shifted (blockOffset (typeSet (etypes.map hg.dstType)) hg.numVertices (hg.dstType e.1))
        e.2.dst) = .ok (hg.flattened etypes es).dst := by
    rw [map_zip_map]
    refine concatIds_map hne (fun t e => (hg.dstNumber etypes (t, e) : ℤ).bmod (2 ^ hg.bits))
      fun t _ => ?_
    show ((es t).map fun e => e.2.1).map _ = _
    rw [List.map_map]
    apply List.map_congr_left
    intro e _
    rw [Function.comp_apply, dstNumber, Nat.add_comm]
  have hetype : concatIds (etypes.map fun t => List.replicate (hg.rel t).numEdges t) =
      .ok (hg.flattened etypes es).inducedEtype := by
    refine concatIds_map hne (fun t _ => t) fun t ht => ?_
    rw [hnum t ht, List.map_const']
  have heid : concatIds ((etypes.map fun t => EdgeArray.ofEntries (es t)).map EdgeArray.id) =
      .ok (hg.flattened etypes es).inducedEid := by
    rw [List.map_map]
    exact concatIds_map hne (fun _ e => e.2.2) fun t _ => rfl
  have hcheck : checkValidity hg.bits (blockTable (typeSet (etypes.map hg.srcType)) hg.numVertices).length
      (blockTable (typeSet (etypes.map hg.dstType)) hg.numVertices).length =
        if noOverflow hg.bits (hg.srcNodes etypes) && noOverflow hg.bits (hg.dstNodes etypes) then .ok ()
        else .error .raised := by
    rw [length_blockTable, length_blockTable, checkValidity, srcNodes, dstNodes]
  rw [flatten, mapM_ok hedges]
  show (concatIds _).bind _ = _
  rw [hsrc]
  show (concatIds _).bind _ = _
  rw [hdst]
  show (checkValidity _ _ _).bind _ = _
  rw [hcheck]
  split
  · show (concatIds _).bind _ = _
    rw [hetype]
    show (concatIds _).bind _ = _
    rw [heid]
    rfl
  · rfl

/-! ## When it is right -/

section Right

variable (hes : ∀ t ∈ etypes, (es t : Multiset Entry) = E t)
include hes

lemma coe_flatEdges : (flatEdges etypes es : Multiset (ℕ × Entry)) = listedEdges E etypes := by
  induction etypes with
  | nil => rfl
  | cons t etypes ih =>
      have hrest := ih fun t' ht' => hes t' (List.mem_cons_of_mem _ ht')
      rw [flatEdges, List.flatMap_cons, ← Multiset.coe_add, listedEdges, List.map_cons,
        List.sum_cons, ← hes t List.mem_cons_self, Multiset.map_coe]
      exact congrArg _ hrest

lemma mem_flatEdges {p : ℕ × Entry} : p ∈ flatEdges etypes es ↔ p.1 ∈ etypes ∧ p.2 ∈ E p.1 := by
  rw [flatEdges, List.mem_flatMap]
  constructor
  · rintro ⟨t, ht, hp⟩
    obtain ⟨e, he, rfl⟩ := List.mem_map.1 hp
    exact ⟨ht, by rw [← hes t ht]; exact he⟩
  · rintro ⟨ht, he⟩
    rw [← hes _ ht] at he
    exact ⟨p.1, ht, List.mem_map.2 ⟨p.2, he, rfl⟩⟩

/-- The edges come from different places if no edge type with edges is listed twice. -/
lemma nodup_origins_iff (hE : ∀ t ∈ etypes, Numbered (E t)) :
    ((flatEdges etypes es).map fun p => (p.1, p.2.2.2)).Nodup ↔
      etypes.Pairwise fun t t' => t = t' → E t = 0 := by
  have hpart : (flatEdges etypes es).map (fun p => (p.1, p.2.2.2)) =
      etypes.flatMap fun t => (es t).map fun e => (t, e.2.2) := by
    rw [flatEdges, List.map_flatMap]
    apply List.flatMap_congr
    intro t _
    rw [List.map_map]
    rfl
  have hids : ∀ t ∈ etypes, ((es t).map fun e => (t, e.2.2)).Nodup := by
    intro t ht
    have hnodup : ((es t).map fun e => e.2.2).Nodup := by
      have hnodup := (hE t ht).nodup_ids
      rwa [← hes t ht] at hnodup
    have hpair : (es t).map (fun e => (t, e.2.2)) = ((es t).map fun e => e.2.2).map (Prod.mk t) := by
      rw [List.map_map]
      rfl
    rw [hpair]
    exact hnodup.map (Prod.mk_right_injective t)
  rw [hpart, List.nodup_flatMap, and_iff_right hids]
  apply List.Pairwise.iff_of_mem
  intro t t' ht _
  show List.Disjoint _ _ ↔ _
  constructor
  · rintro hdisjoint rfl
    rw [← hes t ht, Multiset.coe_eq_zero, ← List.map_eq_nil_iff]
    exact List.eq_nil_iff_forall_not_mem.2 fun p hp => hdisjoint hp hp
  · intro hzero p hp hp'
    obtain ⟨e, he, rfl⟩ := List.mem_map.1 hp
    obtain ⟨e', -, heq⟩ := List.mem_map.1 hp'
    have hnone := hzero (Prod.mk.inj heq).1.symm
    rw [← hes t ht, Multiset.coe_eq_zero] at hnone
    rw [hnone] at he
    cases he

omit hes in
lemma numberOf_iff {set : List ℕ} {size : ℕ → ℕ} {bits v j : ℕ} (hbits : bits = 32 ∨ bits = 64)
    (hset : set.Nodup) (hv : v ∈ set) (hj : j < size v) :
    NumberOf (blockTable set size) (v, j) (((blockOffset set size v + j : ℕ) : ℤ).bmod (2 ^ bits)) ↔
      blockOffset set size v + j < 2 ^ (bits - 1) := by
  constructor
  · rintro ⟨k, hk, hget⟩
    obtain rfl := (blockTable_get_iff hset hv hj).1 hget
    have hlt := Int.bmod_lt (x := ((blockOffset set size v + j : ℕ) : ℤ)) (Nat.two_pow_pos bits)
    rw [hk] at hlt
    rcases hbits with rfl | rfl
    · omega
    · omega
  · intro hlt
    refine ⟨_, ?_, blockTable_get hv hj⟩
    rcases hbits with rfl | rfl
    · exact Int.bmod_eq_of_le (by omega) (by omega)
    · exact Int.bmod_eq_of_le (by omega) (by omega)

omit hes in
lemma forall₂_shifted {table : List (ℕ × ℕ)} {vertex : ℕ × Entry → ℕ × ℕ} {number : ℕ × Entry → ℕ}
    {bits : ℕ} {l : List (ℕ × Entry)} (h : ∀ p ∈ l,
      NumberOf table (vertex p) ((number p : ℤ).bmod (2 ^ bits)) ↔ number p < 2 ^ (bits - 1)) :
    List.Forall₂ (fun p => NumberOf table (vertex p)) l
        (l.map fun p => (number p : ℤ).bmod (2 ^ bits)) ↔ ∀ p ∈ l, number p < 2 ^ (bits - 1) := by
  rw [List.forall₂_map_right_iff, List.forall₂_same]
  exact forall₂_congr h

/-- **The flattened graph is right** if no edge type with edges is listed twice and the numbers of the
ends are ids. -/
lemma flattened_right_iff (h : hg.Shows E) (hbits : hg.bits = 32 ∨ hg.bits = 64)
    (hlt : ∀ t ∈ etypes, t < hg.numEdgeTypes) : hg.FlattenedRight E etypes (hg.flattened etypes es) ↔
      (etypes.Pairwise fun t t' => t = t' → E t = 0) ∧ ∀ t ∈ etypes, ∀ e ∈ E t,
        hg.srcNumber etypes (t, e) < 2 ^ (hg.bits - 1) ∧
          hg.dstNumber etypes (t, e) < 2 ^ (hg.bits - 1) := by
  have hE : ∀ t ∈ etypes, Numbered (E t) := fun t ht => (h.rel t (hlt t ht)).numbered
  have hends {p : ℕ × Entry} (hp : p ∈ flatEdges etypes es) := by
    obtain ⟨ht, he⟩ := (mem_flatEdges hes).1 hp
    exact (h.rel p.1 (hlt _ ht)).ends_lt he
  have hsrcs := forall₂_shifted (l := flatEdges etypes es) fun p hp =>
    numberOf_iff hbits (nodup_typeSet (etypes.map hg.srcType))
      (mem_typeSet.2 (List.mem_map_of_mem ((mem_flatEdges hes).1 hp).1)) (hends hp).1
  have hdsts := forall₂_shifted (l := flatEdges etypes es) fun p hp =>
    numberOf_iff hbits (nodup_typeSet (etypes.map hg.dstType))
      (mem_typeSet.2 (List.mem_map_of_mem ((mem_flatEdges hes).1 hp).1)) (hends hp).2
  have hzip : (hg.flattened etypes es).inducedEtype.zip (hg.flattened etypes es).inducedEid =
      (flatEdges etypes es).map fun p => (p.1, p.2.2.2) := List.zip_map' ..
  have hfits : (∀ p ∈ flatEdges etypes es, hg.srcNumber etypes p < 2 ^ (hg.bits - 1)) ∧
      (∀ p ∈ flatEdges etypes es, hg.dstNumber etypes p < 2 ^ (hg.bits - 1)) ↔
        ∀ t ∈ etypes, ∀ e ∈ E t, hg.srcNumber etypes (t, e) < 2 ^ (hg.bits - 1) ∧
          hg.dstNumber etypes (t, e) < 2 ^ (hg.bits - 1) := by
    constructor
    · rintro ⟨hsrc, hdst⟩ t ht e he
      have hp : (t, e) ∈ flatEdges etypes es := (mem_flatEdges hes).2 ⟨ht, he⟩
      exact ⟨hsrc _ hp, hdst _ hp⟩
    · intro hall
      exact ⟨fun p hp => (hall p.1 ((mem_flatEdges hes).1 hp).1 p.2 ((mem_flatEdges hes).1 hp).2).1,
        fun p hp => (hall p.1 ((mem_flatEdges hes).1 hp).1 p.2 ((mem_flatEdges hes).1 hp).2).2⟩
  rw [← nodup_origins_iff hes hE, ← hzip, ← hfits]
  constructor
  · intro hright
    refine ⟨hright.origins, ?_⟩
    obtain ⟨fs, hfs, hetype, heid, hsrc, hdst⟩ := hright.edges
    -- Types and ids tell the edges apart.
    have hsame : fs = flatEdges etypes es := by
      have hlen := congrArg List.length hetype
      rw [List.length_map] at hlen
      apply List.ext_getElem (hlen.symm.trans (List.length_map _))
      intro i hi hi'
      have hfst : (flatEdges etypes es)[i].1 = fs[i].1 := by
        have hget := congrArg (fun l => l[i]?) hetype
        simpa [flattened, hi, hi'] using hget
      have hid : (flatEdges etypes es)[i].2.2.2 = fs[i].2.2.2 := by
        have hget := congrArg (fun l => l[i]?) heid
        simpa [flattened, hi, hi'] using hget
      have hmem : fs[i] ∈ flatEdges etypes es := by
        rw [← Multiset.mem_coe, coe_flatEdges hes, ← hfs]
        exact Multiset.mem_coe.2 (List.getElem_mem hi)
      obtain ⟨ht, he⟩ := (mem_flatEdges hes).1 hmem
      obtain ⟨-, he'⟩ := (mem_flatEdges hes).1 (List.getElem_mem hi')
      rw [hfst] at he'
      exact Prod.ext hfst.symm ((hE _ ht).eq_of_id he he' hid.symm)
    rw [hsame] at hsrc hdst
    exact ⟨hsrcs.1 hsrc, hdsts.1 hdst⟩
  · rintro ⟨horigins, hsrc, hdst⟩
    refine ⟨nodup_blockTable (nodup_typeSet _), fun v j => ?_, nodup_blockTable (nodup_typeSet _),
      fun v j => ?_, rfl, rfl, ?_, ⟨_, coe_flatEdges hes, rfl, rfl, hsrcs.2 hsrc, hdsts.2 hdst⟩,
      horigins⟩
    · exact mem_blockTable.trans (and_congr_left' mem_typeSet)
    · exact mem_blockTable.trans (and_congr_left' mem_typeSet)
    · by_cases hsame : typeSet (etypes.map hg.srcType) = typeSet (etypes.map hg.dstType)
      · exact Or.inl ⟨if_pos hsame, congrArg (blockTable · hg.numVertices) hsame,
          typeSet_eq_iff.1 hsame⟩
      · exact Or.inr ⟨if_neg hsame, fun hall => hsame (typeSet_eq_iff.2 hall)⟩

end Right

/-- The numbers of the ends of edges are less than the numbers of vertices. -/
lemma numbers_lt (h : hg.Shows E) (hlt : ∀ t ∈ etypes, t < hg.numEdgeTypes) {t : ℕ}
    (ht : t ∈ etypes) {e : Entry} (he : e ∈ E t) :
    hg.srcNumber etypes (t, e) < hg.srcNodes etypes ∧
      hg.dstNumber etypes (t, e) < hg.dstNodes etypes := by
  have hends := (h.rel t (hlt t ht)).ends_lt he
  have hsrc := blockTable_get
    (mem_typeSet.2 (List.mem_map_of_mem (f := hg.srcType) ht)) hends.1
  have hdst := blockTable_get
    (mem_typeSet.2 (List.mem_map_of_mem (f := hg.dstType) ht)) hends.2
  rw [srcNodes, dstNodes, ← length_blockTable, ← length_blockTable]
  exact ⟨(List.getElem?_eq_some_iff.1 hsrc).1, (List.getElem?_eq_some_iff.1 hdst).1⟩

/-- **Flattening is invertible** exactly if an edge type is listed, no edge type with edges is listed
twice, the vertices have 32-bit numbers where the ids have 32 bits, and the numbers of the ends of the
edges are ids where they have 64. -/
theorem flatten_right_iff (host : Host) (h : hg.Shows E) (hbits : hg.bits = 32 ∨ hg.bits = 64)
    (hlt : ∀ t ∈ etypes, t < hg.numEdgeTypes) :
    (∃ f, hg.flatten host etypes = .ok f ∧ hg.FlattenedRight E etypes f) ↔
      etypes ≠ [] ∧ (etypes.Pairwise fun t t' => t = t' → E t = 0) ∧
        (hg.bits = 32 → hg.srcNodes etypes < 2 ^ 31 ∧ hg.dstNodes etypes < 2 ^ 31) ∧
        (hg.bits = 64 → ∀ t ∈ etypes, ∀ e ∈ E t,
          hg.srcNumber etypes (t, e) < 2 ^ 63 ∧ hg.dstNumber etypes (t, e) < 2 ^ 63) := by
  have hex (t : ℕ) : ∃ fs : List Entry, t < hg.numEdgeTypes →
      (hg.rel t).edges host = .ok (.ofEntries fs) ∧ (fs : Multiset Entry) = E t := by
    by_cases ht : t < hg.numEdgeTypes
    · obtain ⟨fs, hfs⟩ := (h.rel t ht).edges_eq host
      exact ⟨fs, fun _ => hfs⟩
    · exact ⟨[], fun hlt => absurd hlt ht⟩
  choose es hes using hex
  have hedges : ∀ t ∈ etypes, (es t : Multiset Entry) = E t := fun t ht => (hes t (hlt t ht)).2
  by_cases hne : etypes = []
  · rw [hne]
    exact iff_of_false (fun ⟨f, hf, _⟩ => nomatch hf) fun hall => hall.1 rfl
  have hflat := @flatten_eq host hg etypes es hne (fun t ht => (hes t (hlt t ht)).1)
    fun t ht => by rw [(h.rel t (hlt t ht)).numEdges_eq, ← hedges t ht, Multiset.coe_card]
  have hright := flattened_right_iff hedges h hbits hlt
  have hresult : (∃ f, hg.flatten host etypes = .ok f ∧ hg.FlattenedRight E etypes f) ↔
      (noOverflow hg.bits (hg.srcNodes etypes) && noOverflow hg.bits (hg.dstNodes etypes)) = true ∧
        hg.FlattenedRight E etypes (hg.flattened etypes es) := by
    rw [hflat]
    split
    · rename_i hfits
      exact ⟨fun ⟨f, hf, hr⟩ => ⟨hfits, Except.ok.inj hf ▸ hr⟩, fun hr => ⟨_, rfl, hr.2⟩⟩
    · rename_i hfits
      exact iff_of_false (fun ⟨f, hf, _⟩ => nomatch hf) fun hall => hfits hall.1
  rw [hresult, hright, and_iff_right hne]
  rcases hbits with hbits | hbits
  · have hno (n : ℕ) : noOverflow hg.bits n = true ↔ n < 2 ^ 31 := by
      rw [noOverflow, decide_eq_true_iff, hbits]
      omega
    rw [Bool.and_eq_true, hno, hno, hbits]
    constructor
    · rintro ⟨hnodes, htwice, -⟩
      exact ⟨htwice, fun _ => hnodes, fun h64 => absurd h64 (by decide)⟩
    · rintro ⟨htwice, hnodes, -⟩
      refine ⟨hnodes rfl, htwice, fun t ht e he => ?_⟩
      have hnumbers := numbers_lt h hlt ht he
      exact ⟨hnumbers.1.trans (hnodes rfl).1, hnumbers.2.trans (hnodes rfl).2⟩
  · have hno (n : ℕ) : noOverflow hg.bits n = true := by
      rw [noOverflow, decide_eq_true_iff, hbits]
      exact fun h32 => absurd h32 (by decide)
    rw [hno, hno, hbits]
    constructor
    · rintro ⟨-, htwice, hnumbers⟩
      exact ⟨htwice, fun h32 => absurd h32 (by decide), fun _ => hnumbers⟩
    · rintro ⟨htwice, -, hnumbers⟩
      exact ⟨rfl, htwice, hnumbers rfl⟩

end Flattened

/-! ## Two vertex types -/

/-- No edge from `n` vertices to two. -/
def noEdges (n : ℕ) : COOMatrix := ⟨32, n, 2, [], [], [], false, false⟩

/-- The edge from the second of two vertices to the first of `n`. -/
def backEdge (n : ℕ) : COOMatrix := ⟨32, 2, n, [1], [0], [], false, false⟩

/-- `n` vertices of one type and two of another one, with 32 bits for the ids. -/
def twoTypes (n : ℕ) : HeteroGraph :=
  ⟨32, [(0, 1), (1, 0)], [⟨2, none, none, some (noEdges n), .all⟩,
    ⟨2, none, none, some (backEdge n), .all⟩], [n, 2]⟩

/-- The edges of the edge types. -/
def twoTypesEdges (n t : ℕ) : Multiset Entry := if t = 0 then (noEdges n).entries else (backEdge n).entries

lemma presents_of_coo {m : COOMatrix} (hm : m.Valid) (hdata : m.data = []) (hcols : m.colSorted = false) :
    Stored.Presents ⟨2, none, none, some m, .all⟩ m.entries 2 m.numRows m.numCols where
  numVTypes := rfl
  inCsr := nofun
  outCsr := nofun
  coo m' hm' := by
    obtain rfl := Option.some.inj hm'
    exact ⟨⟨hm, hdata, rfl⟩, rfl, rfl, fun h => nomatch hcols.symm.trans h⟩
  created := rfl
  within := rfl
  square := nofun

lemma twoTypes_shows {n : ℕ} (hn : 0 < n) : (twoTypes n).Shows (twoTypesEdges n) where
  rels := rfl
  nonempty := nofun
  ends t ht := by
    match t, ht with
    | 0, _ => exact ⟨Nat.succ_pos _, Nat.succ_lt_succ (Nat.succ_pos _)⟩
    | 1, _ => exact ⟨Nat.succ_lt_succ (Nat.succ_pos _), Nat.succ_pos _⟩
  rel t ht := by
    match t, ht with
    | 0, _ => exact presents_of_coo ⟨rfl, nofun, nofun, Or.inl rfl, nofun⟩ rfl rfl
    | 1, _ =>
        refine presents_of_coo ⟨rfl, ?_, ?_, Or.inl rfl, nofun⟩ rfl rfl
        · intro r hr
          obtain rfl := List.mem_singleton.1 hr
          exact Nat.lt_succ_self 1
        · intro c hc
          obtain rfl := List.mem_singleton.1 hc
          exact hn

/-- Three vertices and two: the edge is found again. -/
theorem flatten_right_three : ∃ f, (twoTypes 3).flatten oneThread [0, 1] = .ok f ∧
    (twoTypes 3).FlattenedRight (twoTypesEdges 3) [0, 1] f :=
  (flatten_right_iff oneThread (twoTypes_shows (Nat.succ_pos _)) (Or.inl rfl) (by decide)).2
    ⟨nofun, by decide, fun _ => by decide, nofun⟩

/-- After `2 ^ 31 - 1` vertices of another type there is no number left for two more, and an edge type
that is listed twice has its edge twice. -/
theorem flatten_wrong :
    ((twoTypes (2 ^ 31 - 1)).Shows (twoTypesEdges (2 ^ 31 - 1)) ∧
      (twoTypes (2 ^ 31 - 1)).flatten oneThread [0, 1] = .error .raised) ∧
    ((twoTypes 3).Shows (twoTypesEdges 3) ∧ ¬ ∃ f, (twoTypes 3).flatten oneThread [1, 1] = .ok f ∧
      (twoTypes 3).FlattenedRight (twoTypesEdges 3) [1, 1] f) := by
  refine ⟨⟨twoTypes_shows (by norm_num), ?_⟩, twoTypes_shows (Nat.succ_pos _), ?_⟩
  · let es : ℕ → List Entry := fun t =>
      if t = 0 then (noEdges (2 ^ 31 - 1)).entries else (backEdge (2 ^ 31 - 1)).entries
    rw [@flatten_eq _ _ _ es (List.cons_ne_nil _ _) (fun t ht => ?_) fun t ht => ?_]
    · exact if_neg (by decide +kernel)
    · rcases List.mem_pair.1 ht with rfl | rfl <;> rfl
    · rcases List.mem_pair.1 ht with rfl | rfl <;> rfl
  · rintro ⟨f, hf, hright⟩
    have hrel : ∀ t ∈ [1, 1], (twoTypes 3).rel t = (twoTypes 3).rel 1 := by decide
    have hflat := @flatten_eq oneThread (twoTypes 3) [1, 1] (fun _ => (backEdge 3).entries)
      (List.cons_ne_nil _ _) (fun t ht => by rw [hrel t ht]; rfl) fun t ht => by rw [hrel t ht]; rfl
    obtain rfl := Except.ok.inj (hf.symm.trans hflat)
    exact absurd hright.origins (by decide)

end HeteroGraph

end DglAscend.Hetero
