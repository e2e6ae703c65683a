import DglAscend.Hetero.EdgeLists

/-!
# The answers to queries

What a query asks of a relation, in terms of its edges, and what the `COO` and `CSR` objects of
these edges answer.
-/

namespace DglAscend.Hetero

open Aten

/-! ## The right answers -/

section Right

variable (E : Multiset Entry)

/-- The edges into a vertex. -/
def into (v : ℕ) : Multiset Entry := E.filter fun e => e.2.1 = v

/-- The edges out of a vertex. -/
def outOf (u : ℕ) : Multiset Entry := E.filter fun e => e.1 = u

/-- The edges from a source to a destination. -/
def between (p : ℕ × ℕ) : Multiset Entry := E.filter fun e => e.1 = p.1 ∧ e.2.1 = p.2

/-- The order `srcdst`. -/
def SrcDstLE (e e' : Entry) : Prop := e.1 < e'.1 ∨ e.1 = e'.1 ∧ e.2.1 ≤ e'.2.1

instance : DecidableRel SrcDstLE := fun e e' =>
  inferInstanceAs (Decidable (e.1 < e'.1 ∨ e.1 = e'.1 ∧ e.2.1 ≤ e'.2.1))

/-- What an order of `Edges` promises; there are no other orders. -/
def InEdgeOrder (order : String) (es : List Entry) : Prop :=
  order = "" ∨ (order = "eid" ∧ (es.map fun e => e.2.2).Pairwise (· < ·)) ∨
    (order = "srcdst" ∧ es.Pairwise SrcDstLE)

/-- A graph from `a` sources to `b` destinations. -/
structure Stored.Shaped (s : Stored) (a b : ℕ) : Prop where
  inCsr : ∀ m, s.inCsr = some m → m.numRows = b ∧ m.numCols = a
  outCsr : ∀ m, s.outCsr = some m → m.numRows = a ∧ m.numCols = b
  coo : ∀ m, s.coo = some m → m.numRows = a ∧ m.numCols = b

/-- The edge of a subgraph under the names that its vertices and edges have in the graph. -/
def named (src dst : ℕ → ℕ) (ids : List ℕ) (e : Entry) : Entry :=
  (src e.1, dst e.2.1, ids.getD e.2.2 0)

/-- The subgraph has the picked edges. -/
def PicksOut (sg : Stored) (src dst : ℕ → ℕ) (ids : List ℕ) (picked : Multiset Entry) : Prop :=
  sg.createdFormats.nonzero = true ∧ ∃ E', sg.Has E' ∧ E'.map (named src dst ids) = picked

/-- The edges with the ids `ids`, in their order. -/
def EdgesOf (ids : List ℕ) (es : List Entry) : Prop :=
  List.Forall₂ (fun k e => e ∈ E ∧ e.2.2 = k) ids es

/-- The right answers for the relation with `n` vertex types and the edges `E` from `a` sources to
`b` destinations, whatever the order that a query leaves open. -/
def Correct (n a b : ℕ) : Query → Answer Stored → Prop
  | .hasEdgesBetween src dst, .flags xs =>
      List.Forall₂ (fun p x => x = true ↔ ∃ e ∈ E, e.1 = p.1 ∧ e.2.1 = p.2) (broadcast src dst) xs
  | .predecessors v, .nodes xs => (xs : Multiset ℕ) = (into E v).map Prod.fst
  | .successors u, .nodes xs => (xs : Multiset ℕ) = (outOf E u).map fun e => e.2.1
  | .edgeId u v, .ids xs => (xs : Multiset ℕ) = (between E (u, v)).map fun e => e.2.2
  | .edgeIdsAll src dst, .edges arr =>
      ∃ found : List (List Entry), arr = .ofEntries found.flatten ∧
        List.Forall₂ (fun p (es : List Entry) => (es : Multiset Entry) = between E p)
          (broadcast src dst) found
  | .findEdges ids, .edges arr => ∃ es, arr = .ofEntries es ∧ EdgesOf E ids es
  | .inEdges v, .edges arr => ∃ es : List Entry, arr = .ofEntries es ∧ (es : Multiset Entry) = into E v
  | .inEdgesOf vs, .edges arr =>
      ∃ es : List Entry, arr = .ofEntries es ∧ (es : Multiset Entry) = (vs.map (into E)).sum
  | .outEdges u, .edges arr =>
      ∃ es : List Entry, arr = .ofEntries es ∧ (es : Multiset Entry) = outOf E u
  | .outEdgesOf us, .edges arr =>
      ∃ es : List Entry, arr = .ofEntries es ∧ (es : Multiset Entry) = (us.map (outOf E)).sum
  | .edges order, .edges arr =>
      ∃ es : List Entry, arr = .ofEntries es ∧ (es : Multiset Entry) = E ∧ InEdgeOrder order es
  | .inDegrees vs, .degrees xs => xs = vs.map fun v => Multiset.card (into E v)
  | .outDegrees us, .degrees xs => xs = us.map fun u => Multiset.card (outOf E u)
  | .vertexSubgraph vids, .subgraph sg vs ids =>
      let srcs := vids.getD 0 []
      let dsts := dstVids n vids
      vs = vids ∧ sg.Shaped srcs.length dsts.length ∧
        PicksOut sg (srcs.getD · 0) (dsts.getD · 0) ids
          (E.filter fun e => e.1 ∈ srcs ∧ e.2.1 ∈ dsts)
  | .edgeSubgraph eids preserveNodes, .subgraph sg vs ids =>
      ids = eids.getD 0 [] ∧ ∃ es : List Entry, EdgesOf E ids es ∧
        if preserveNodes then
          vs = [[], []] ∧ sg.Shaped a b ∧ PicksOut sg id id ids es
        else
          ∃ srcs dsts : List ℕ, vs = [srcs, dsts] ∧ srcs.Nodup ∧ dsts.Nodup ∧
            (∀ x, x ∈ srcs ↔ ∃ e ∈ es, e.1 = x) ∧ (∀ x, x ∈ dsts ↔ ∃ e ∈ es, e.2.1 = x) ∧
            sg.Shaped srcs.length dsts.length ∧
            PicksOut sg (srcs.getD · 0) (dsts.getD · 0) ids es
  | _, _ => False

/-- The arguments are vertices and edges of the relation, and arrays that belong together fit.  The
vertices of a subgraph are distinct. -/
def Query.Valid (n a b : ℕ) : Query → Prop
  | .hasEdgesBetween src dst =>
      readsWithin src dst = true ∧ (∀ u ∈ src, u < a) ∧ ∀ v ∈ dst, v < b
  | .predecessors v => v < b
  | .successors u => u < a
  | .edgeId u v => u < a ∧ v < b
  | .edgeIdsAll src dst => fits src dst = true ∧ (∀ u ∈ src, u < a) ∧ ∀ v ∈ dst, v < b
  | .findEdges ids => ∀ k ∈ ids, k < Multiset.card E
  | .inEdges v => v < b
  | .inEdgesOf vs => ∀ v ∈ vs, v < b
  | .outEdges u => u < a
  | .outEdgesOf us => ∀ u ∈ us, u < a
  | .edges _ => True
  | .inDegrees vs => ∀ v ∈ vs, v < b
  | .outDegrees us => ∀ u ∈ us, u < a
  | .vertexSubgraph vids =>
      vids.length = n ∧ ((vids.getD 0 []).Nodup ∧ ∀ u ∈ vids.getD 0 [], u < a) ∧
        (dstVids n vids).Nodup ∧ ∀ v ∈ dstVids n vids, v < b
  | .edgeSubgraph eids _ => eids.length = 1 ∧ ∀ k ∈ eids.getD 0 [], k < Multiset.card E

end Right

/-! ## Reversed edges -/

variable {us vs : List ℕ}

section Reversed

variable {E : Multiset Entry}

lemma outOf_reversed (v : ℕ) : outOf (reversed E) v = reversed (into E v) := by
  rw [outOf, reversed, Multiset.filter_map]
  rfl

lemma between_reversed (p : ℕ × ℕ) : between (reversed E) p.swap = reversed (between E p) := by
  rw [between, reversed, Multiset.filter_map, reversed, between]
  congr 1
  apply Multiset.filter_congr
  intro e _
  exact and_comm

lemma sum_reversed (f : ℕ → Multiset Entry) (l : List ℕ) :
    (l.map fun x => reversed (f x)).sum = reversed (l.map f).sum := by
  induction l with
  | nil => rfl
  | cons x l ih => rw [List.map_cons, List.sum_cons, ih, List.map_cons, List.sum_cons, reversed,
      reversed, reversed, Multiset.map_add]

lemma sum_outOf_of_nodup (h : us.Nodup) : (us.map (outOf E)).sum = E.filter fun e => e.1 ∈ us := by
  induction us with
  | nil => simp
  | cons u us ih =>
      rw [List.nodup_cons] at h
      have hboth : (E.filter fun e => e.1 = u ∧ e.1 ∈ us) = 0 := by
        rw [Multiset.filter_eq_nil]
        rintro e - ⟨rfl, he⟩
        exact h.1 he
      rw [List.map_cons, List.sum_cons, ih h.2, outOf, Multiset.filter_add_filter, hboth, add_zero]
      apply Multiset.filter_congr
      intro e _
      exact List.mem_cons.symm

lemma swap_ofEntries (es : List Entry) :
    (EdgeArray.ofEntries es).swap = .ofEntries (es.map .swap) := by
  simp only [EdgeArray.ofEntries, EdgeArray.swap, List.map_map]
  rfl

lemma reversed_coe (es : List Entry) : reversed (es : Multiset Entry) = (es.map .swap : List Entry) := rfl

end Reversed

/-! ## `CSR` objects -/

lemma indexSelect_eq {array index : List ℕ} (h : ∀ i ∈ index, i < array.length) :
    indexSelect array index = .ok (index.map (array.getD · 0)) := by
  apply mapM_ok
  intro i hi
  rw [if_neg (Nat.not_le.2 (h i hi))]

lemma forall₂_map {α β : Type} {R : α → β → Prop} {f : α → β} {l : List α} (h : ∀ x ∈ l, R x (f x)) :
    List.Forall₂ R l (l.map f) := by
  rw [List.forall₂_map_right_iff, List.forall₂_same]
  exact h

variable {n a b u v : ℕ}

lemma forall₂_singleton {β : Type} {R : ℕ × ℕ → β → Prop} {l : List β}
    (h : List.Forall₂ R (broadcast [u] [v]) l) : ∃ x, R (u, v) x ∧ l = [x] := by
  obtain ⟨x, l, hx, hl, rfl⟩ := List.forall₂_cons_left_iff.1 (show List.Forall₂ R [(u, v)] l from h)
  obtain rfl := List.forall₂_nil_left_iff.1 hl
  exact ⟨x, hx, rfl⟩

/-- The checks of `EdgeId`. -/
lemma in_range (hsquare : n = 1 → a = b) (hu : u < a) (hv : v < b) :
    ¬ (a ≤ u ∨ numDstVertices n a b ≤ v) := by
  rw [numDstVertices]
  split
  · rename_i hn
    have hab := hsquare hn
    omega
  · omega

/-- The arrays of a COO matrix whose data array is full. -/
lemma coo_arrays {m : COOMatrix} (hcol : m.col.length = m.nnz) (hdata : m.data.length = m.nnz) :
    m.row = m.entries.map Prod.fst ∧ (m.col = m.entries.map fun e => e.2.1) ∧
      m.data = m.entries.map fun e => e.2.2 := by
  simp only [COOMatrix.entries, List.map_map]
  refine ⟨?_, ?_, ?_⟩
  · apply List.ext_getElem
    · simp [COOMatrix.nnz]
    · intro i hi hi'
      simp [COOMatrix.entry, hi]
  · apply List.ext_getElem
    · simp [hcol]
    · intro i hi hi'
      simp [COOMatrix.entry, hi]
  · apply List.ext_getElem
    · simp [hdata]
    · intro i hi hi'
      have hne : m.data ≠ [] := fun hnil => by simp [hnil] at hi
      simp [COOMatrix.entry, idAt, hne, hi]

/-- The entries of a matrix of collected rows. -/
def rowList (rows : List (List (ℕ × ℕ))) : List Entry :=
  (List.range rows.length).flatMap fun i => (rows.getD i []).map fun x => (i, x)

lemma map_rowList {β : Type} (us : List ℕ) (f : ℕ → List (ℕ × ℕ)) (g : ℕ → ℕ × ℕ → β) :
    (rowList (us.map f)).map (fun e => g (us.getD e.1 0) e.2) =
      us.flatMap fun u => (f u).map (g u) := by
  have hus : us = (List.range us.length).map fun i => us.getD i 0 := by
    apply List.ext_getElem
    · simp
    · intro i hi hi'
      simp [hi]
  nth_rewrite 3 [hus]
  rw [rowList, List.map_flatMap, List.length_map, List.flatMap_map]
  apply List.flatMap_congr
  intro i hi
  have hi := List.mem_range.1 hi
  rw [List.getD_eq_getElem _ _ (by simpa using hi), List.getElem_map, List.map_map,
    List.getD_eq_getElem _ _ hi]
  apply List.map_congr_left
  intro x _
  simp [hi]

lemma toCOO_ofRows (bits numCols : ℕ) (rows : List (List (ℕ × ℕ))) (sorted : Bool) :
    (CSRMatrix.ofRows bits numCols rows sorted).toCOO.row = (rowList rows).map Prod.fst ∧
      ((CSRMatrix.ofRows bits numCols rows sorted).toCOO.col = (rowList rows).map fun e => e.2.1) ∧
      (CSRMatrix.ofRows bits numCols rows sorted).toCOO.data = (rowList rows).map fun e => e.2.2 := by
  set sub := CSRMatrix.ofRows bits numCols rows sorted
  have hframed : sub.Framed := CSRMatrix.framed_ofRows
  have hnnz : sub.toCOO.nnz = sub.nnz := hframed.toCOO_row_length
  have hentries : sub.toCOO.entries = rowList rows := by
    rw [hframed.entries_toCOO]
    exact CSRMatrix.entries_ofRows
  have harrays := coo_arrays (m := sub.toCOO) hnnz.symm (by
    rw [hnnz]
    show (rows.flatten.map Prod.snd).length = (rows.flatten.map Prod.fst).length
    rw [List.length_map, List.length_map])
  rwa [hentries] at harrays

namespace ListsCSR

variable {E : Multiset Entry} {a b : ℕ} {m : CSRMatrix} (n : ℕ) (host : Host) (h : ListsCSR E a b m)
include h

lemma hasEdges (hfits : readsWithin us vs = true) (hus : ∀ u ∈ us, u < a) :
    ∃ xs, CSR.ask host n m (.hasEdgesBetween us vs) = .ok (.flags xs) ∧
      List.Forall₂ (fun p x => x = true ↔ ∃ e ∈ E, e.1 = p.1 ∧ e.2.1 = p.2) (broadcast us vs) xs := by
  refine ⟨(broadcast us vs).map fun p => m.entries.any fun e => e.1 = p.1 ∧ e.2.1 = p.2, ?_, ?_⟩
  · show (m.isNonZeros us vs).map _ = _
    rw [CSRMatrix.isNonZeros, if_pos hfits, mapM_ok fun p hp => CSRMatrix.isNonZero_eq h.sorted
      (by rw [h.rows]; exact hus _ (mem_broadcast hp).1)]
    rfl
  · apply forall₂_map
    intro p _
    rw [← h.of.entries, List.any_eq_true]
    simp

lemma successors (hu : u < a) : ∃ xs, CSR.ask host n m (.successors u) = .ok (.nodes xs) ∧
      (xs : Multiset ℕ) = (outOf E u).map fun e => e.2.1 := by
  have hu : u < m.numRows := by rwa [h.rows]
  refine ⟨(m.entries.filter fun e => e.1 = u).map fun e => e.2.1, ?_, ?_⟩
  · show (if m.numRows ≤ u then _ else _) = _
    rw [if_neg (Nat.not_le.2 hu), CSRMatrix.getRowColumnIndices_eq hu]
    rfl
  · rw [outOf, ← h.of.entries]
    rfl

lemma edgeIdsAll (hfits : fits us vs = true) (hus : ∀ u ∈ us, u < a) (hvs : ∀ v ∈ vs, v < b) :
    ∃ found : List (List Entry), m.getDataAndIndices us vs = .ok found ∧
      List.Forall₂ (fun p (es : List Entry) => (es : Multiset Entry) = between E p)
        (broadcast us vs) found := by
  refine ⟨(broadcast us vs).map fun p => m.entries.filter fun e => e.1 = p.1 ∧ e.2.1 = p.2, ?_, ?_⟩
  · exact CSRMatrix.getDataAndIndices_eq h.sorted h.data hfits (by rwa [h.rows]) (by rwa [h.cols])
  · apply forall₂_map
    intro p _
    rw [between, ← h.of.entries]
    rfl

lemma edgeId (hsquare : n = 1 → a = b) (hu : u < a) (hv : v < b) :
    ∃ xs, CSR.ask host n m (.edgeId u v) = .ok (.ids xs) ∧
      (xs : Multiset ℕ) = (between E (u, v)).map fun e => e.2.2 := by
  obtain ⟨found, hget, hfound⟩ := h.edgeIdsAll (rfl : fits [u] [v] = true) (by simpa using hu)
    (by simpa using hv)
  obtain ⟨es, hes, rfl⟩ := forall₂_singleton hfound
  refine ⟨es.map fun e => e.2.2, ?_, ?_⟩
  · show (if m.numRows ≤ u ∨ numDstVertices n m.numRows m.numCols ≤ v then _ else _) = _
    rw [if_neg (by rw [h.rows, h.cols]; exact in_range hsquare hu hv), CSR.getAllData, hget]
    show Except.ok (Answer.ids (List.map _ [es].flatten)) = _
    rw [List.flatten_singleton]
  · rw [← hes]
    rfl

lemma outDegrees (hus : ∀ u ∈ us, u < a) : CSR.ask host n m (.outDegrees us) =
      .ok (.degrees (us.map fun u => Multiset.card (outOf E u))) := by
  show (m.getRowsNNZ us).map _ = _
  rw [CSRMatrix.getRowsNNZ_eq (by rwa [h.rows]), ← h.of.entries]
  simp only [outOf, Multiset.filter_coe, Multiset.coe_card, List.countP_eq_length_filter]
  rfl

lemma outEdges (hu : u < a) :
    ∃ es : List Entry, CSR.ask host n m (.outEdges u) = .ok (.edges (.ofEntries es)) ∧
      (es : Multiset Entry) = outOf E u := by
  have hu : u < m.numRows := by rwa [h.rows]
  refine ⟨m.entries.filter fun e => e.1 = u, ?_, ?_⟩
  · show CSR.outEdges m u = _
    have hsrc : (m.entries.filter fun e => e.1 = u).map (fun _ => u) =
        (m.entries.filter fun e => e.1 = u).map Prod.fst := by
      apply List.map_congr_left
      intro e he
      have heu : e.1 = u := by simpa using (List.mem_filter.1 he).2
      exact heu.symm
    rw [CSR.outEdges, if_neg (Nat.not_le.2 hu), CSRMatrix.getRowColumnIndices_eq hu,
      CSRMatrix.getRowData_eq h.data hu, EdgeArray.ofEntries, ← hsrc]
    show Except.ok (Answer.edges ⟨List.map _ (List.map _ _), _, _⟩) = _
    rw [List.map_map]
    rfl
  · rw [outOf, ← h.of.entries]
    rfl

lemma data_length : m.data.length = m.nnz := by
  have hlen := h.of.valid.length_entries
  rcases h.of.valid.numbers with hnil | hperm
  · rcases h.data with hdata | hdata
    · simp [CSRMatrix.hasData, hnil] at hdata
    · rw [hnil, ← hlen, hdata]
      rfl
  · rw [hperm.length_eq, List.length_range]

/-- The arrays of `CSRToCOO`. -/
lemma toCOO_arrays : (⟨m.toCOO.row, m.toCOO.col, m.toCOO.data⟩ : EdgeArray) = .ofEntries m.entries := by
  have hnnz : m.toCOO.nnz = m.nnz := h.of.valid.toCOO_row_length
  obtain ⟨hrow, hcol, hdata⟩ := coo_arrays (m := m.toCOO) h.of.valid.valid_toCOO.col_length
    (h.data_length.trans hnnz.symm)
  rw [h.of.valid.entries_toCOO] at hrow hcol hdata
  rw [hrow, hcol, hdata]
  rfl

lemma pairwise_entries (hs : m.sorted = true) : m.entries.Pairwise SrcDstLE := by
  have hrow {r : ℕ} {e : Entry} (he : e ∈ m.rowEntries r) : e.1 = r := by
    obtain ⟨j, -, rfl⟩ := List.mem_map.1 he
    rfl
  rw [CSRMatrix.entries, List.pairwise_flatMap]
  constructor
  · intro r hr
    have hcols := h.sorted hs r (List.mem_range.1 hr)
    rw [List.pairwise_map] at hcols
    apply List.Pairwise.imp_of_mem _ hcols
    intro e e' he he' hle
    exact Or.inr ⟨(hrow he).trans (hrow he').symm, hle⟩
  · apply List.Pairwise.imp _ List.pairwise_lt_range
    intro r r' hlt e he e' he'
    left
    rw [hrow he, hrow he']
    exact hlt

/-- `Edges`, in any order of the rows or sorted. -/
lemma edges {order : String} (ho : order = "" ∨ order = "srcdst") :
    ∃ es : List Entry, CSR.ask host n m (.edges order) = .ok (.edges (.ofEntries es)) ∧
      (es : Multiset Entry) = E ∧ (order = "srcdst" → es.Pairwise SrcDstLE) := by
  have hask : CSR.ask host n m (.edges order) = CSR.edges host m order := rfl
  rw [hask, CSR.edges, if_pos ho]
  by_cases hsorted : order = "srcdst" ∧ m.sorted = false
  · have hsort : m.toCOO.sort host.sort = .ofEntries m.bits m.numRows m.numCols
        (host.sort.run (fun a b => if a.1 ≠ b.1 then a.1 < b.1 else a.2.1 < b.2.1) m.entries)
        true true := by
      rw [COOMatrix.sort, if_neg (by simp [CSRMatrix.toCOO, hsorted.2]), h.of.valid.entries_toCOO]
      rfl
    refine ⟨_, by simp only [if_pos hsorted.1, hsort]; rfl, ?_, fun _ => ?_⟩
    · rw [← h.of.entries]
      exact Multiset.coe_eq_coe.2 (host.sort.perm _ _)
    · apply (host.sort.sorted _ m.entries _ _).imp
      · intro e e' hlt
        simp only [SrcDstLE]
        grind
      · intro e e' hlt
        grind
      · intro e e' e'' h1 h2
        grind
  · refine ⟨m.entries, ?_, h.of.entries, fun ho' => ?_⟩
    · have hcoo : (if order = "srcdst" then m.toCOO.sort host.sort else m.toCOO) = m.toCOO := by
        by_cases ho' : order = "srcdst"
        · rw [if_pos ho', COOMatrix.sort, if_pos]
          have hm : m.sorted = true := by
            rw [← Bool.not_eq_false]
            exact fun hm => hsorted ⟨ho', hm⟩
          exact hm
        · rw [if_neg ho']
      rw [hcoo, ← h.toCOO_arrays]
    · apply h.pairwise_entries
      rw [← Bool.not_eq_false]
      exact fun hm => hsorted ⟨ho', hm⟩

lemma rowEntries_eq (hu : u < a) : (m.rowEntries u : Multiset Entry) = outOf E u := by
  rw [← CSRMatrix.filter_entries (by rwa [h.rows]), outOf, ← h.of.entries]
  rfl

lemma coe_flatMap_rowEntries (hus : ∀ u ∈ us, u < a) :
    ((us.flatMap m.rowEntries : List Entry) : Multiset Entry) = (us.map (outOf E)).sum := by
  induction us with
  | nil => rfl
  | cons u us ih =>
      rw [List.flatMap_cons, ← Multiset.coe_add, h.rowEntries_eq (hus u List.mem_cons_self),
        ih fun u' hu' => hus u' (List.mem_cons_of_mem _ hu'), List.map_cons, List.sum_cons]

lemma outEdgesOf (hus : ∀ u ∈ us, u < a) :
    ∃ es : List Entry, CSR.ask host n m (.outEdgesOf us) = .ok (.edges (.ofEntries es)) ∧
      (es : Multiset Entry) = (us.map (outOf E)).sum := by
  refine ⟨us.flatMap m.rowEntries, ?_, h.coe_flatMap_rowEntries hus⟩
  have hany : (us.any fun r => m.numRows ≤ r) = false := by
    rw [List.any_eq_false]
    intro u hu
    simpa [h.rows] using hus u hu
  have hnamed : us.flatMap m.rowEntries = (rowList (us.map fun r => (m.rowEntries r).map Prod.snd)).map
      fun e => (us.getD e.1 0, e.2) := by
    rw [map_rowList us _ fun u x => (u, x)]
    apply List.flatMap_congr
    intro u _
    rw [CSRMatrix.rowEntries, List.map_map, List.map_map]
    rfl
  have hask : CSR.ask host n m (.outEdgesOf us) = CSR.outEdgesOf m us := rfl
  rw [hask, CSR.outEdgesOf, CSRMatrix.sliceRows, hany]
  obtain ⟨hrow, hcol, hdata⟩ := toCOO_ofRows m.bits m.numCols
    (us.map fun r => (m.rowEntries r).map Prod.snd) m.sorted
  set sub := CSRMatrix.ofRows m.bits m.numCols (us.map fun r => (m.rowEntries r).map Prod.snd)
    m.sorted
  have hidx : ∀ i ∈ sub.toCOO.row, i < us.length := by
    intro i hi
    rw [hrow] at hi
    obtain ⟨e, he, rfl⟩ := List.mem_map.1 hi
    obtain ⟨j, hj, he⟩ := List.mem_flatMap.1 he
    obtain ⟨x, -, rfl⟩ := List.mem_map.1 he
    simpa using hj
  show (do
    let idx ← indexSelect us sub.toCOO.row
    pure (Answer.edges ⟨idx, sub.toCOO.col, sub.toCOO.data⟩)) = _
  rw [indexSelect_eq hidx, hrow, hcol, hdata, hnamed, EdgeArray.ofEntries]
  simp only [List.map_map]
  rfl

/-- The sub-matrix of some rows and columns, with edges numbered by their places. -/
lemma sliceMatrix {rows cols : List ℕ} (hrows : ∀ r ∈ rows, r < a) (hr : rows.Nodup)
    (hc : cols.Nodup) :
    ∃ sub, m.sliceMatrix rows cols = .ok sub ∧ sub.numRows = rows.length ∧
      sub.numCols = cols.length ∧
      ∃ E', OfCSR E' { sub with data := List.range sub.data.length } ∧
        E'.map (named (rows.getD · 0) (cols.getD · 0) sub.data) =
          E.filter fun e => e.1 ∈ rows ∧ e.2.1 ∈ cols := by
  set picked : ℕ → List (ℕ × ℕ) := fun r => (m.rowEntries r).filterMap fun e =>
    ((IdHashMap.ofIds cols).map e.2.1).map fun c => (c, e.2.2) with hpicked
  set sub := CSRMatrix.ofRows m.bits cols.length (rows.map picked) false with hsub
  have hlen : sub.data.length = sub.nnz := by
    show ((rows.map picked).flatten.map Prod.snd).length =
      ((rows.map picked).flatten.map Prod.fst).length
    rw [List.length_map, List.length_map]
  have hpick {r : ℕ} {e : Entry} (he : e ∈ m.rowEntries r) :
      (((IdHashMap.ofIds cols).map e.2.1).map fun c => (c, e.2.2)).map
        (fun x => (r, cols.getD x.1 0, x.2)) = Option.guard (fun e => e.2.1 ∈ cols) e := by
    obtain ⟨j, -, rfl⟩ := List.mem_map.1 he
    rw [IdHashMap.map_ofIds_of_nodup hc]
    by_cases hmem : (m.entry r j).2.1 ∈ cols
    · rw [if_pos hmem, Option.map_some, Option.map_some, IdHashMap.getD_idxOf hmem,
        Option.guard_eq_ite, if_pos (by simpa using hmem)]
      rfl
    · rw [if_neg hmem, Option.guard_eq_ite, if_neg (by simpa using hmem)]
      rfl
  refine ⟨sub, ?_, List.length_map _, rfl, _, ⟨?_, rfl⟩, ?_⟩
  · rw [CSRMatrix.sliceMatrix, if_neg]
    simpa [h.rows] using hrows
  · have hframed : sub.Framed := CSRMatrix.framed_ofRows
    refine ⟨?_, hframed.ptr_zero, hframed.ptr_mono, hframed.ptr_last, ?_, Or.inr ?_⟩
    · show (List.map _ (List.range ((rows.map picked).length + 1))).length = _
      rw [List.length_map, List.length_range]
      rfl
    · intro c hcol
      obtain ⟨⟨c, k⟩, hx, rfl⟩ := List.mem_map.1 hcol
      obtain ⟨l, hl, hx⟩ := List.mem_flatten.1 hx
      obtain ⟨r, -, rfl⟩ := List.mem_map.1 hl
      obtain ⟨e, -, hx⟩ := List.mem_filterMap.1 hx
      obtain ⟨c', hc', hx⟩ := Option.map_eq_some_iff.1 hx
      obtain ⟨rfl, -⟩ := Prod.mk.inj hx
      rw [IdHashMap.map_ofIds_of_nodup hc] at hc'
      obtain ⟨hmem, hidx⟩ := Option.ite_none_right_eq_some.1 hc'
      obtain rfl := Option.some.inj hidx
      exact List.idxOf_lt_length_of_mem hmem
    · show (List.range sub.data.length).Perm (List.range sub.nnz)
      rw [hlen]
  · have hframed : sub.Framed := CSRMatrix.framed_ofRows
    have hnamed : (({ sub with data := List.range sub.data.length } : CSRMatrix).entries.map
        (named (rows.getD · 0) (cols.getD · 0) sub.data)) =
        (rowList (rows.map picked)).map fun e => (rows.getD e.1 0, cols.getD e.2.1 0, e.2.2) := by
      have hsubEntries : rowList (rows.map picked) = sub.entries := CSRMatrix.entries_ofRows.symm
      rw [hsubEntries, CSRMatrix.entries, CSRMatrix.entries, List.map_flatMap, List.map_flatMap]
      apply List.flatMap_congr
      intro i hi
      rw [CSRMatrix.rowEntries, CSRMatrix.rowEntries, List.map_map, List.map_map]
      apply List.map_congr_left
      intro j hj
      have hlt : j < sub.data.length := by
        rw [hlen, ← List.mem_range, ← hframed.flatMap_places]
        exact List.mem_flatMap.2 ⟨i, hi, hj⟩
      have hne : sub.data ≠ [] := List.ne_nil_of_length_pos (Nat.zero_lt_of_lt hlt)
      have hrange : idAt (List.range sub.data.length) j = j := by
        rw [idAt, if_neg (List.ne_nil_of_length_pos (by simpa using Nat.zero_lt_of_lt hlt)),
          List.getD_eq_getElem _ _ (by simpa using hlt), List.getElem_range]
      show (rows.getD i 0, cols.getD (sub.indices.getD j 0) 0,
        sub.data.getD (idAt (List.range sub.data.length) j) 0) =
          (rows.getD i 0, cols.getD (sub.indices.getD j 0) 0, idAt sub.data j)
      rw [hrange, idAt, if_neg hne]
    have hrow (r : ℕ) : (picked r).map (fun x => (r, cols.getD x.1 0, x.2)) =
        (m.rowEntries r).filter fun e => e.2.1 ∈ cols := by
      rw [hpicked, List.map_filterMap, List.filterMap_congr fun e he => hpick he,
        List.filterMap_eq_filter]
    rw [Multiset.map_coe, hnamed, map_rowList rows picked fun r x => (r, cols.getD x.1 0, x.2)]
    simp only [hrow]
    rw [← List.filter_flatMap, ← Multiset.filter_coe, h.coe_flatMap_rowEntries hrows,
      sum_outOf_of_nodup hr, Multiset.filter_filter]
    apply Multiset.filter_congr
    intro e _
    exact and_comm

end ListsCSR

end DglAscend.Hetero
