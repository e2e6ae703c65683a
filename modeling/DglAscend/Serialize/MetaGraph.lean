import DglAscend.Hetero.EdgeLists
import DglAscend.Serialize.Arrays

/-!
# Meta graphs in a stream

`ImmutableGraph::Save` and `ImmutableGraph::Load`, which keep the out-CSR.  The edges of a meta graph
are the edge types in their order, and they come back in this order from the ids in the CSR
(`MetaGraph.load_save`).
-/

namespace DglAscend.Serialize

open Aten Hetero

/-- A meta graph: the vertex types, and the end types of the edge types. -/
structure MetaGraph where
  numVertices : ℕ
  edges : List (ℕ × ℕ)
  deriving DecidableEq, Repr

/-- `kDGLSerialize_ImGraph` -/
def imGraphMagic : ℕ := 0xDD3c5FFE20046ABF

namespace MetaGraph

variable {σ : Type} (w : Stream σ) (T : ℕ+) (g : MetaGraph)

/-- `ImmutableGraph::CreateFromCOO` -/
def coo : COOMatrix where
  bits := 64
  numRows := g.numVertices
  numCols := g.numVertices
  row := g.edges.map Prod.fst
  col := g.edges.map Prod.snd
  data := []
  rowSorted := false
  colSorted := false

/-- `GetOutCSR`: the three arrays of the conversion. -/
def outCsr : Option CSRMatrix :=
  (g.coo.cooToCSR T).map fun m => { m with numCols := m.numRows, sorted := false }

/-- The meta graph of an out-CSR; `GetCOO` brings the edges in the order of their ids. -/
def ofCsr (m : CSRMatrix) : MetaGraph :=
  ⟨m.indptr.length - 1, m.toCOODataAsOrder.row.zip m.toCOODataAsOrder.col⟩

/-- `ImmutableGraph::Save`; nothing is written if the conversion fails. -/
def save : List σ :=
  match g.outCsr T with
  | some m => w.u64.put imGraphMagic ++ w.csr.put m
  | none => []

/-- `ImmutableGraph::Load` -/
def load : Scan σ MetaGraph := do
  let magic ← w.u64.get
  Scan.check (magic = imGraphMagic)
  let m ← w.csr.get
  pure (ofCsr m)

/-- The edges end at vertices, and the numbers fit. -/
structure Storable : Prop where
  ends : ∀ e ∈ g.edges, e.1 < g.numVertices ∧ e.2 < g.numVertices
  vertices : g.numVertices < 2 ^ 59
  edges_lt : g.edges.length < 2 ^ 59

end MetaGraph

/-! ## Edges in the order of their ids -/

section Order

variable {E : Multiset Entry} {a b : COOMatrix}

lemma entry_of_null (h : a.data = []) (i : ℕ) : a.entry i = (a.row.getD i 0, a.col.getD i 0, i) := by
  rw [COOMatrix.entry, h, idAt, if_pos rfl]

/-- The edges and their numbers determine the arrays. -/
lemma OfCOO.arrays_eq (ha : OfCOO E a) (hb : OfCOO E b) : a.row = b.row ∧ a.col = b.col := by
  have hnnz : a.nnz = b.nnz := by
    have hcard := congrArg Multiset.card (ha.entries.trans hb.entries.symm)
    simpa [COOMatrix.entries] using hcard
  have hentry {i : ℕ} (hi : i < a.nnz) : a.entry i = b.entry i := by
    have hmem : a.entry i ∈ (b.entries : Multiset Entry) := by
      rw [hb.entries, ← ha.entries]
      exact Multiset.mem_coe.2 (List.mem_map.2 ⟨i, List.mem_range.2 hi, rfl⟩)
    obtain ⟨j, -, hj⟩ := List.mem_map.1 (Multiset.mem_coe.1 hmem)
    have hid := congrArg (fun e : Entry => e.2.2) hj
    simp only [entry_of_null ha.data, entry_of_null hb.data] at hid
    rw [← hj, hid]
  have hla := ha.valid.col_length
  have hlb := hb.valid.col_length
  constructor
  · refine List.ext_getElem hnnz fun i hi hi' => ?_
    have hfst := congrArg Prod.fst (hentry hi)
    rw [entry_of_null ha.data, entry_of_null hb.data] at hfst
    rwa [List.getD_eq_getElem _ _ hi, List.getD_eq_getElem _ _ hi'] at hfst
  · refine List.ext_getElem (by rw [hla, hlb, hnnz]) fun i hi hi' => ?_
    have hsnd := congrArg (fun e : Entry => e.2.1) (hentry (hla ▸ hi))
    simp only [entry_of_null ha.data, entry_of_null hb.data] at hsnd
    rwa [List.getD_eq_getElem _ _ hi, List.getD_eq_getElem _ _ hi'] at hsnd

end Order

/-! ## Sizes -/

/-- Numbers that ids of a width have, in arrays that fit the memory. -/
structure Sizes (bits a b n : ℕ) : Prop where
  width : bits = 32 ∨ bits = 64
  rows : a < 2 ^ (bits - 1)
  cols : b < 2 ^ (bits - 1)
  entries : n < 2 ^ (bits - 1)
  rows_lt : a < 2 ^ 59
  cols_lt : b < 2 ^ 59
  entries_lt : n < 2 ^ 59

lemma noOverflow_of_lt {bits n : ℕ} (hn : n < 2 ^ (bits - 1)) : noOverflow bits n = true := by
  refine decide_eq_true fun hbits => ?_
  subst hbits
  norm_num at hn
  omega

lemma Sizes.shape {bits a b n : ℕ} (h : Sizes bits a b n) : Shape bits a b :=
  ⟨h.rows_lt.trans (by norm_num), h.cols_lt.trans (by norm_num), noOverflow_of_lt h.rows,
    noOverflow_of_lt h.cols⟩

lemma Numbers.ids {data : List ℕ} {bits a b n : ℕ} (hdata : Numbers data n) (h : Sizes bits a b n) :
    Ids bits data := by
  refine ⟨h.width, ?_, fun x hx => ?_⟩
  · have hlt := h.entries_lt
    rcases eq_or_ne data [] with rfl | hne
    · norm_num
    · rw [hdata.length hne]
      omega
  · rcases hdata with rfl | hperm
    · cases hx
    · exact (List.mem_range.1 (hperm.mem_iff.1 hx)).trans h.entries

lemma csrStorable {m : CSRMatrix} (hm : m.Valid) (h : Sizes m.bits m.numRows m.numCols m.nnz) :
    CSRStorable m := by
  have hrows := h.rows_lt
  have hentries := h.entries_lt
  refine ⟨h.shape, ⟨h.width, ?_, fun x hx => ?_⟩, ⟨h.width, ?_, fun x hx => ?_⟩, Numbers.ids hm.numbers h,
    hm.indptr_length⟩
  · rw [hm.indptr_length]
    omega
  · obtain ⟨i, hi, rfl⟩ := List.mem_iff_getElem.1 hx
    rw [hm.indptr_length] at hi
    have hle := hm.ptr_le (Nat.lt_succ_iff.1 hi) le_rfl
    rw [hm.ptr_last] at hle
    rw [CSRMatrix.ptr, List.getD_eq_getElem _ _ (by rw [hm.indptr_length]; omega)] at hle
    exact hle.trans_lt h.entries
  · exact hentries.trans (by norm_num)
  · exact (hm.col_lt x hx).trans h.cols

lemma cooStorable {m : COOMatrix} (hm : m.Valid) (h : Sizes m.bits m.numRows m.numCols m.nnz) :
    COOStorable m := by
  have hentries := h.entries_lt
  refine ⟨h.shape, ⟨h.width, ?_, fun x hx => ?_⟩, ⟨h.width, ?_, fun x hx => ?_⟩, Numbers.ids hm.numbers h⟩
  · exact hentries.trans (by norm_num)
  · exact (hm.row_lt x hx).trans h.rows
  · rw [hm.col_length]
    exact hentries.trans (by norm_num)
  · exact (hm.col_lt x hx).trans h.cols

/-! ## Reading back -/

namespace MetaGraph

variable {σ : Type} {w : Stream σ} {T : ℕ+} {g : MetaGraph}

lemma Storable.valid_coo (h : g.Storable) : g.coo.Valid where
  col_length := by rw [COOMatrix.nnz, coo, List.length_map, List.length_map]
  row_lt r hr := by
    obtain ⟨e, he, rfl⟩ := List.mem_map.1 hr
    exact (h.ends e he).1
  col_lt c hc := by
    obtain ⟨e, he, rfl⟩ := List.mem_map.1 hc
    exact (h.ends e he).2
  numbers := Or.inl rfl
  sorted hsorted := absurd hsorted Bool.false_ne_true

/-- The CSR that is written has the edges with their numbers. -/
lemma Storable.outCsr (h : g.Storable) : ∃ m, g.outCsr T = some m ∧ CSRStorable m ∧ ofCsr m = g := by
  have hnnz : g.coo.nnz = g.edges.length := by rw [COOMatrix.nnz, coo, List.length_map]
  have hof : OfCOO (g.coo.entries : Multiset Entry) g.coo := ⟨h.valid_coo, rfl, rfl⟩
  have hvalid := COOMatrix.valid_bucketed h.valid_coo
  set m : CSRMatrix := { g.coo.bucketed with numCols := g.coo.bucketed.numRows, sorted := false } with hm
  have hm_valid : m.Valid :=
    ⟨hvalid.indptr_length, hvalid.ptr_zero, hvalid.ptr_mono, hvalid.ptr_last, hvalid.col_lt, hvalid.numbers⟩
  have hm_nnz : m.nnz = g.edges.length := (COOMatrix.bucketed_nnz h.valid_coo).trans hnnz
  have hm_of : OfCSR (g.coo.entries : Multiset Entry) m :=
    ⟨hm_valid, Multiset.coe_eq_coe.2 (COOMatrix.entries_bucketed_perm h.valid_coo)⟩
  refine ⟨m, ?_, csrStorable hm_valid ?_, ?_⟩
  · rw [MetaGraph.outCsr, h.valid_coo.cooToCSR_eq T.pos, if_pos (by rfl), Option.map_some]
  · have hvertices : g.numVertices < 2 ^ 63 := h.vertices.trans (by norm_num)
    have hedges : g.edges.length < 2 ^ 63 := h.edges_lt.trans (by norm_num)
    rw [hm_nnz]
    exact ⟨Or.inr rfl, hvertices, hvertices, hedges, h.vertices, h.vertices, h.edges_lt⟩
  · obtain ⟨hrow, hcol⟩ := OfCOO.arrays_eq hm_of.toCOO hof
    have hlen : m.indptr.length - 1 = g.numVertices := by
      rw [hm_valid.indptr_length]
      rfl
    have hzip : g.edges = (g.edges.map Prod.fst).zip (g.edges.map Prod.snd) := List.zip_of_prod rfl rfl
    rw [ofCsr, hrow, hcol, hlen, coo, ← hzip]

/-- **A meta graph is read back.** -/
theorem Storable.load_save (h : g.Storable) (rest : List σ) :
    (load w).run (g.save w T ++ rest) = some (g, rest) := by
  obtain ⟨m, hm, hok, hg⟩ := h.outCsr (T := T)
  simp only [save, load, hm, List.append_assoc]
  rw [w.u64.run_bind (w.u64_ok (by decide)), Scan.run_check rfl, w.csr.run_bind hok, hg]
  rfl

end MetaGraph

/-- Meta graphs in a stream. -/
def Stream.metaGraph {σ : Type} (w : Stream σ) (T : ℕ+) : Codec σ MetaGraph where
  put := MetaGraph.save w T
  get := MetaGraph.load w
  Ok := MetaGraph.Storable
  get_put h := h.load_save

end DglAscend.Serialize
