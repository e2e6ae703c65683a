import DglAscend.Hetero.Queries

/-!
# Unit graphs of an edge list

A graph is made from an edge list, restricted to some formats, and asks for formats as queries need
them.  Whatever formats it has by then, they have the edges of the list, the shape of the relation
and true flags, and their CSR matrices have data arrays.
-/

namespace DglAscend.Hetero

open Aten

/-! ## Matrices of an edge list -/

/-- The CSR matrix of edges from `a` sources to `b` destinations. -/
structure ListsCSR (E : Multiset Entry) (a b : ℕ) (m : CSRMatrix) : Prop where
  of : OfCSR E m
  rows : m.numRows = a
  cols : m.numCols = b
  sorted : m.ColsSorted
  data : m.hasData = true ∨ m.entries = []

/-- The COO matrix of edges from `a` sources to `b` destinations. -/
structure ListsCOO (E : Multiset Entry) (a b : ℕ) (m : COOMatrix) : Prop where
  of : OfCOO E m
  rows : m.numRows = a
  cols : m.numCols = b
  sorted : m.ColsSorted

section Matrices

variable {E : Multiset Entry} {a b : ℕ} {csr m : CSRMatrix} {coo : COOMatrix} {T : ℕ+}

lemma ListsCOO.toCSR (h : ListsCOO E a b coo) (hm : coo.cooToCSR T = some m) : ListsCSR E a b m := by
  have hof := h.of.toCSR hm
  rw [h.of.valid.cooToCSR_eq T.pos] at hm
  split at hm
  · obtain rfl := Option.some.inj hm
    exact ⟨hof, h.rows, h.cols, COOMatrix.bucketed_colsSorted h.sorted, COOMatrix.bucketed_data coo⟩
  · cases hm

lemma ListsCOO.transpose (h : ListsCOO E a b coo) : ListsCOO (reversed E) b a coo.transpose :=
  ⟨h.of.transpose, h.cols, h.rows, nofun⟩

lemma ListsCSR.transpose (h : ListsCSR E a b csr) : ListsCSR (reversed E) b a csr.transpose := by
  refine ⟨h.of.transpose, h.cols, h.rows, nofun, ?_⟩
  rw [h.of.valid.transpose_eq]
  exact COOMatrix.bucketed_data _

lemma ListsCSR.toCOO (h : ListsCSR E a b csr) : ListsCOO E a b csr.toCOODataAsOrder :=
  ⟨h.of.toCOO, h.rows, h.cols, nofun⟩

end Matrices

/-! ## Graphs of an edge list -/

/-- The graph has the edges in every format that it has at hand. -/
structure Stored.Lists (s : Stored) (E : Multiset Entry) (n a b : ℕ) : Prop where
  numVTypes : s.numVTypes = n
  inCsr : ∀ m, s.inCsr = some m → ListsCSR (reversed E) b a m
  outCsr : ∀ m, s.outCsr = some m → ListsCSR E a b m
  coo : ∀ m, s.coo = some m → ListsCOO E a b m

variable {m : CSRMatrix} {fmt : SparseFormat}

namespace Stored.Lists

variable {E : Multiset Entry} {n a b : ℕ} {s : Stored} {T : ℕ+} (h : s.Lists E n a b)
include h

lemma cscMatrix (hm : s.cscMatrix T = some m) : ListsCSR (reversed E) b a m := by
  rw [Stored.cscMatrix] at hm
  split at hm
  · rename_i m' hm'
    obtain rfl := Option.some.inj hm
    exact h.inCsr _ hm'
  · split at hm
    · rename_i m' hm'
      exact (h.coo _ hm').transpose.toCSR hm
    · obtain ⟨m', hm', rfl⟩ := Option.map_eq_some_iff.1 hm
      exact (h.outCsr _ hm').transpose

lemma csrMatrix (hm : s.csrMatrix T = some m) : ListsCSR E a b m := by
  rw [Stored.csrMatrix] at hm
  split at hm
  · rename_i m' hm'
    obtain rfl := Option.some.inj hm
    exact h.outCsr _ hm'
  · split at hm
    · rename_i m' hm'
      exact (h.coo _ hm').toCSR hm
    · obtain ⟨m', hm', rfl⟩ := Option.map_eq_some_iff.1 hm
      have ht := (h.inCsr _ hm').transpose
      rwa [reversed_reversed] at ht

lemma cooMatrix {m : COOMatrix} (hm : s.cooMatrix = some m) : ListsCOO E a b m := by
  rw [Stored.cooMatrix] at hm
  split at hm
  · rename_i m' hm'
    obtain rfl := Option.some.inj hm
    exact h.coo _ hm'
  · split at hm
    · rename_i m' hm'
      obtain rfl := Option.some.inj hm
      have ht := (h.inCsr _ hm').toCOO.transpose
      rwa [reversed_reversed] at ht
    · obtain ⟨m', hm', rfl⟩ := Option.map_eq_some_iff.1 hm
      exact (h.outCsr _ hm').toCOO

/-- What `GetFormat` returns. -/
lemma getFormat {host : Host} {adj : Adj} (hadj : s.getFormat host fmt = some adj) :
    (fmt = .coo ∧ ∃ m, adj = .coo m ∧ ListsCOO E a b m) ∨
      (fmt = .csr ∧ ∃ m, adj = .csr m ∧ ListsCSR E a b m) ∨
      (fmt = .csc ∧ ∃ m, adj = .csr m ∧ ListsCSR (reversed E) b a m) := by
  unfold Stored.getFormat at hadj
  split at hadj
  · cases fmt with
    | coo =>
        obtain ⟨m, hm, rfl⟩ := Option.map_eq_some_iff.1 hadj
        exact Or.inl ⟨rfl, m, rfl, h.cooMatrix hm⟩
    | csr =>
        obtain ⟨m, hm, rfl⟩ := Option.map_eq_some_iff.1 hadj
        exact Or.inr (Or.inl ⟨rfl, m, rfl, h.csrMatrix hm⟩)
    | csc =>
        obtain ⟨m, hm, rfl⟩ := Option.map_eq_some_iff.1 hadj
        exact Or.inr (Or.inr ⟨rfl, m, rfl, h.cscMatrix hm⟩)
  · cases hadj

end Stored.Lists

/-! ## Restricted graphs -/

/-- A graph of the edge list `coo`, restricted to `formats`, after any queries: a query leaves the
format with the graph that it used. -/
inductive Restricted (T : ℕ+) (n : ℕ) (coo : COOMatrix) (formats : Formats) :
    UnitGraph → Heap → Prop
  | made {g g' : UnitGraph} {h h' : Heap} : UnitGraph.createFromCOO ⟨[], []⟩ n coo .all = some (g, h) →
      g.getGraphInFormat T h formats = some (g', h') → Restricted T n coo formats g' h'
  | asked {g : UnitGraph} {h h' : Heap} {fmt : SparseFormat} : Restricted T n coo formats g h →
      g.getFormat T h fmt = some h' → Restricted T n coo formats g h'

/-- The pointers of a graph are different objects of the heap. -/
structure UnitGraph.Placed (h : Heap) (g : UnitGraph) : Prop where
  inCsr : g.inCsr < h.csrs.length
  outCsr : g.outCsr < h.csrs.length
  apart : g.inCsr ≠ g.outCsr
  coo : g.coo < h.coos.length

section Restricted

variable {T : ℕ+} {n : ℕ} {coo : COOMatrix} {formats : Formats} {g : UnitGraph} {h h' : Heap}
  {E : Multiset Entry} {a b : ℕ}

/-- What `GetFormat` changes: the format is filled in if it is not there. -/
lemma getFormat_stored (hp : g.Placed h) (hr : g.getFormat T h fmt = some h') :
    g.Placed h' ∧ g.formats.has fmt = true ∧ (g.stored h' = g.stored h ∨
      (fmt = .coo ∧ ∃ m, (g.stored h).cooMatrix = some m ∧
        g.stored h' = { g.stored h with coo := some m }) ∨
      (fmt = .csr ∧ ∃ m, (g.stored h).csrMatrix T = some m ∧
        g.stored h' = { g.stored h with outCsr := some m }) ∨
      (fmt = .csc ∧ ∃ m, (g.stored h).cscMatrix T = some m ∧
        g.stored h' = { g.stored h with inCsr := some m })) := by
  cases fmt with
  | coo =>
      obtain ⟨r, hget, rfl⟩ := Option.map_eq_some_iff.1 hr
      unfold UnitGraph.getCOO at hget
      split at hget
      · cases hget
      · rename_i hallowed
        have hallowed : g.formats.coo = true := by simpa using hallowed
        split at hget
        · obtain rfl := Option.some.inj hget
          exact ⟨hp, hallowed, Or.inl rfl⟩
        · obtain ⟨m, hm, hget⟩ := Option.bind_eq_some_iff.1 hget
          obtain rfl := Option.some.inj hget
          have hcell : (h.setCOO g.coo m).coo g.coo = some m := by
            rw [Heap.coo, Heap.setCOO, cell_set m hp.coo, if_pos rfl]
          have hcoo : g.coo < (h.setCOO g.coo m).coos.length := by
            simpa [Heap.setCOO] using hp.coo
          refine ⟨⟨hp.inCsr, hp.outCsr, hp.apart, hcoo⟩, hallowed, Or.inr (Or.inl ⟨rfl, m, hm, ?_⟩)⟩
          show Stored.mk _ _ _ ((h.setCOO g.coo m).coo g.coo) _ = _
          rw [hcell]
          rfl
  | csr =>
      obtain ⟨r, hget, rfl⟩ := Option.map_eq_some_iff.1 hr
      unfold UnitGraph.getOutCSR at hget
      split at hget
      · cases hget
      · rename_i hallowed
        have hallowed : g.formats.csr = true := by simpa using hallowed
        split at hget
        · obtain rfl := Option.some.inj hget
          exact ⟨hp, hallowed, Or.inl rfl⟩
        · obtain ⟨m, hm, hget⟩ := Option.bind_eq_some_iff.1 hget
          obtain rfl := Option.some.inj hget
          have hcell : (h.setCSR g.outCsr m).csr g.outCsr = some m := by
            rw [Heap.csr, Heap.setCSR, cell_set m hp.outCsr, if_pos rfl]
          have hother : (h.setCSR g.outCsr m).csr g.inCsr = h.csr g.inCsr := by
            rw [Heap.csr, Heap.setCSR, cell_set m hp.outCsr, if_neg hp.apart.symm, Heap.csr]
          have hlen : (h.setCSR g.outCsr m).csrs.length = h.csrs.length := by simp [Heap.setCSR]
          refine ⟨⟨hlen ▸ hp.inCsr, hlen ▸ hp.outCsr, hp.apart, hp.coo⟩, hallowed,
            Or.inr (Or.inr (Or.inl ⟨rfl, m, hm, ?_⟩))⟩
          show Stored.mk _ ((h.setCSR g.outCsr m).csr g.inCsr)
            ((h.setCSR g.outCsr m).csr g.outCsr) _ _ = _
          rw [hcell, hother]
          rfl
  | csc =>
      obtain ⟨r, hget, rfl⟩ := Option.map_eq_some_iff.1 hr
      unfold UnitGraph.getInCSR at hget
      split at hget
      · cases hget
      · rename_i hallowed
        have hallowed : g.formats.csc = true := by simpa using hallowed
        split at hget
        · obtain rfl := Option.some.inj hget
          exact ⟨hp, hallowed, Or.inl rfl⟩
        · obtain ⟨m, hm, hget⟩ := Option.bind_eq_some_iff.1 hget
          obtain rfl := Option.some.inj hget
          have hcell : (h.setCSR g.inCsr m).csr g.inCsr = some m := by
            rw [Heap.csr, Heap.setCSR, cell_set m hp.inCsr, if_pos rfl]
          have hother : (h.setCSR g.inCsr m).csr g.outCsr = h.csr g.outCsr := by
            rw [Heap.csr, Heap.setCSR, cell_set m hp.inCsr, if_neg hp.apart, Heap.csr]
          have hlen : (h.setCSR g.inCsr m).csrs.length = h.csrs.length := by simp [Heap.setCSR]
          refine ⟨⟨hlen ▸ hp.inCsr, hlen ▸ hp.outCsr, hp.apart, hp.coo⟩, hallowed,
            Or.inr (Or.inr (Or.inr ⟨rfl, m, hm, ?_⟩))⟩
          show Stored.mk _ ((h.setCSR g.inCsr m).csr g.inCsr)
            ((h.setCSR g.inCsr m).csr g.outCsr) _ _ = _
          rw [hcell, hother]
          rfl

/-- `GetFormat` keeps the objects apart, and the graph still has the edges. -/
lemma getFormat_lists (hp : g.Placed h) (hl : (g.stored h).Lists E n a b)
    (hr : g.getFormat T h fmt = some h') : g.Placed h' ∧ (g.stored h').Lists E n a b := by
  obtain ⟨hp', -, heq | ⟨-, m, hm, heq⟩ | ⟨-, m, hm, heq⟩ | ⟨-, m, hm, heq⟩⟩ :=
    getFormat_stored hp hr
  · rw [heq]
    exact ⟨hp', hl⟩
  · rw [heq]
    refine ⟨hp', hl.numVTypes, hl.inCsr, hl.outCsr, fun m' hm' => ?_⟩
    obtain rfl := Option.some.inj hm'
    exact hl.cooMatrix hm
  · rw [heq]
    refine ⟨hp', hl.numVTypes, hl.inCsr, fun m' hm' => ?_, hl.coo⟩
    obtain rfl := Option.some.inj hm'
    exact hl.csrMatrix hm
  · rw [heq]
    refine ⟨hp', hl.numVTypes, fun m' hm' => ?_, hl.outCsr, hl.coo⟩
    obtain rfl := Option.some.inj hm'
    exact hl.cscMatrix hm

/-- `CreateFromCOO` on an empty heap. -/
lemma createFromCOO_empty (hr : UnitGraph.createFromCOO ⟨[], []⟩ n coo .all = some (g, h)) :
    g = ⟨n, 0, 1, 0, .all⟩ ∧ h = ⟨[none, none], [some coo]⟩ := by
  rw [UnitGraph.createFromCOO] at hr
  split at hr
  · obtain ⟨rfl, rfl⟩ := Prod.mk.inj (Option.some.inj hr)
    exact ⟨rfl, rfl⟩
  · cases hr

lemma createFromCSR_stored (hr : UnitGraph.createFromCSR h n m formats = some (g, h')) :
    g.Placed h' ∧ formats.csr = true ∧ g.stored h' = ⟨n, none, some m, none, formats⟩ := by
  rw [UnitGraph.createFromCSR] at hr
  split at hr
  · simp only [UnitGraph.new, Heap.orPlaceholderCSR, Heap.orPlaceholderCOO, Heap.newCSR,
      Heap.newCOO] at hr
    obtain ⟨hwithin, hr⟩ := Option.ite_none_right_eq_some.1 hr
    obtain ⟨rfl, rfl⟩ := Prod.mk.inj (Option.some.inj hr)
    have hout : cell ((h.csrs ++ [some m]) ++ [none]) h.csrs.length = some m := by
      rw [cell_append_left _ (by simp), cell_append_self]
    have hstored : UnitGraph.stored ⟨(h.csrs ++ [some m]) ++ [none], h.coos ++ [none]⟩
        ⟨n, (h.csrs ++ [some m]).length, h.csrs.length, h.coos.length, formats⟩ =
          ⟨n, none, some m, none, formats⟩ := by
      show Stored.mk _ (cell _ _) (cell _ _) (cell _ _) _ = _
      rw [cell_append_self, hout, cell_append_self]
    refine ⟨⟨by simp, by simp, by simp, by simp⟩, ?_, hstored⟩
    rw [hstored] at hwithin
    exact Formats.within_iff.1 hwithin .csr rfl
  · cases hr

lemma createFromCSC_stored (hr : UnitGraph.createFromCSC h n m formats = some (g, h')) :
    g.Placed h' ∧ formats.csc = true ∧ g.stored h' = ⟨n, some m, none, none, formats⟩ := by
  rw [UnitGraph.createFromCSC] at hr
  split at hr
  · simp only [UnitGraph.new, Heap.orPlaceholderCSR, Heap.orPlaceholderCOO, Heap.newCSR,
      Heap.newCOO] at hr
    obtain ⟨hwithin, hr⟩ := Option.ite_none_right_eq_some.1 hr
    obtain ⟨rfl, rfl⟩ := Prod.mk.inj (Option.some.inj hr)
    have hin : cell ((h.csrs ++ [some m]) ++ [none]) h.csrs.length = some m := by
      rw [cell_append_left _ (by simp), cell_append_self]
    have hstored : UnitGraph.stored ⟨(h.csrs ++ [some m]) ++ [none], h.coos ++ [none]⟩
        ⟨n, h.csrs.length, (h.csrs ++ [some m]).length, h.coos.length, formats⟩ =
          ⟨n, some m, none, none, formats⟩ := by
      show Stored.mk _ (cell _ _) (cell _ _) (cell _ _) _ = _
      rw [cell_append_self, hin, cell_append_self]
    refine ⟨⟨by simp, by simp, by simp, by simp⟩, ?_, hstored⟩
    rw [hstored] at hwithin
    exact Formats.within_iff.1 hwithin .csc rfl
  · cases hr

/-- The restricted graph has the first of the formats COO, CSR and CSC that is allowed. -/
lemma made_stored (hr : UnitGraph.createFromCOO ⟨[], []⟩ n coo .all = some (g, h)) {g' : UnitGraph}
    (hg : g.getGraphInFormat T h formats = some (g', h')) :
    g'.Placed h' ∧
      ((formats.coo = true ∧ g'.stored h' = ⟨n, none, none, some coo, formats⟩) ∨
        (formats.csr = true ∧ ∃ m, coo.cooToCSR T = some m ∧
          g'.stored h' = ⟨n, none, some m, none, formats⟩) ∨
        (formats.csc = true ∧ ∃ m, coo.transpose.cooToCSR T = some m ∧
          g'.stored h' = ⟨n, some m, none, none, formats⟩)) := by
  obtain ⟨rfl, rfl⟩ := createFromCOO_empty hr
  obtain ⟨hasCoo, hasCsr, hasCsc⟩ := formats
  have hinter : ¬ (Formats.inter ⟨false, hasCsr, hasCsc⟩ ⟨true, false, false⟩).nonzero = true := by
    cases hasCsr <;> cases hasCsc <;> decide
  cases hasCoo with
  | true =>
      have hmade : UnitGraph.getGraphInFormat T ⟨[none, none], [some coo]⟩ ⟨n, 0, 1, 0, .all⟩
          ⟨true, hasCsr, hasCsc⟩ =
            some (⟨n, 2, 3, 0, ⟨true, hasCsr, hasCsc⟩⟩, ⟨[none, none, none, none], [some coo]⟩) := by
        cases hasCsr <;> cases hasCsc <;> rfl
      obtain ⟨rfl, rfl⟩ := Prod.mk.inj (Option.some.inj (hmade.symm.trans hg))
      exact ⟨⟨by simp, by simp, by simp, by simp⟩, Or.inl ⟨rfl, rfl⟩⟩
  | false =>
      unfold UnitGraph.getGraphInFormat at hg
      have hinter : ¬ (Formats.inter ⟨false, hasCsr, hasCsc⟩ (UnitGraph.stored
          ⟨[none, none], [some coo]⟩ ⟨n, 0, 1, 0, .all⟩).createdFormats).nonzero = true := hinter
      simp only at hg
      rw [if_neg hinter, if_neg (by simp)] at hg
      cases hasCsr with
      | true =>
          rw [if_pos rfl] at hg
          obtain ⟨r, hget, hg⟩ := Option.bind_eq_some_iff.1 hg
          obtain ⟨m, hm, hg⟩ := Option.bind_eq_some_iff.1 hg
          obtain ⟨m', hm', hget⟩ := Option.bind_eq_some_iff.1 hget
          obtain rfl := Option.some.inj hget
          obtain rfl : m' = m := Option.some.inj hm
          obtain ⟨hp, hcsr, hstored⟩ := createFromCSR_stored hg
          exact ⟨hp, Or.inr (Or.inl ⟨hcsr, m', hm', hstored⟩)⟩
      | false =>
          rw [if_neg (by simp)] at hg
          obtain ⟨r, hget, hg⟩ := Option.bind_eq_some_iff.1 hg
          obtain ⟨m, hm, hg⟩ := Option.bind_eq_some_iff.1 hg
          obtain ⟨m', hm', hget⟩ := Option.bind_eq_some_iff.1 hget
          obtain rfl := Option.some.inj hget
          obtain rfl : m' = m := Option.some.inj hm
          obtain ⟨hp, hcsc, hstored⟩ := createFromCSC_stored hg
          exact ⟨hp, Or.inr (Or.inr ⟨hcsc, m', hm', hstored⟩)⟩

lemma made_lists (hcoo : ListsCOO E a b coo)
    (hr : UnitGraph.createFromCOO ⟨[], []⟩ n coo .all = some (g, h)) {g' : UnitGraph}
    (hg : g.getGraphInFormat T h formats = some (g', h')) :
    g'.Placed h' ∧ (g'.stored h').Lists E n a b := by
  obtain ⟨hp, ⟨-, heq⟩ | ⟨-, m, hm, heq⟩ | ⟨-, m, hm, heq⟩⟩ := made_stored hr hg
  · rw [heq]
    refine ⟨hp, rfl, nofun, nofun, fun m' hm' => ?_⟩
    obtain rfl := Option.some.inj hm'
    exact hcoo
  · rw [heq]
    refine ⟨hp, rfl, nofun, fun m' hm' => ?_, nofun⟩
    obtain rfl := Option.some.inj hm'
    exact hcoo.toCSR hm
  · rw [heq]
    refine ⟨hp, rfl, fun m' hm' => ?_, nofun, nofun⟩
    obtain rfl := Option.some.inj hm'
    exact hcoo.transpose.toCSR hm

/-- **Restricted graphs keep the edge list** in whatever formats they have by then. -/
theorem Restricted.lists (hcoo : ListsCOO E a b coo) (hr : Restricted T n coo formats g h) :
    g.Placed h ∧ (g.stored h).Lists E n a b := by
  induction hr with
  | made hr hg => exact made_lists hcoo hr hg
  | asked _ hget ih => exact getFormat_lists ih.1 ih.2 hget

/-- `CreateFromCOO` checks that there is no data array and that one vertex type has a square matrix. -/
lemma Restricted.checked (hr : Restricted T n coo formats g h) :
    coo.data = [] ∧ (n = 1 → coo.numRows = coo.numCols) := by
  induction hr with
  | made hr _ =>
      rw [UnitGraph.createFromCOO] at hr
      obtain ⟨hok, -⟩ := Option.ite_none_right_eq_some.1 hr
      obtain ⟨hshape, hdata⟩ := Bool.and_eq_true_iff.1 hok
      exact ⟨by simpa [COOMatrix.hasData] using hdata, (of_decide_eq_true hshape).2⟩
  | asked _ _ ih => exact ih

/-- The formats at hand are allowed ones, their ids have the type of the edge list, and a CSR matrix is
there only if its places fit that type. -/
structure Stored.Allowed (s : Stored) (coo : COOMatrix) (formats : Formats) : Prop where
  formats_eq : s.formats = formats
  created : s.createdFormats.nonzero = true
  within : ∀ fmt, s.createdFormats.has fmt = true → formats.has fmt = true
  coo_bits : ∀ m, s.coo = some m → m.bits = coo.bits
  csr_bits : ∀ m, s.inCsr = some m ∨ s.outCsr = some m →
    m.bits = coo.bits ∧ noOverflow coo.bits coo.nnz = true

lemma ListsCOO.nnz {m : COOMatrix} (hm : ListsCOO E a b m) : m.nnz = Multiset.card E := by
  rw [← hm.of.entries, Multiset.coe_card, COOMatrix.entries, List.length_map, List.length_range]

lemma ListsCOO.cooToCSR_eq {m : COOMatrix} (hm : ListsCOO E a b m) :
    m.cooToCSR T = if noOverflow m.bits (Multiset.card E) then some m.bucketed else none := by
  rw [hm.of.valid.cooToCSR_eq T.pos, hm.nnz]

lemma card_reversed : Multiset.card (reversed E) = Multiset.card E := Multiset.card_map _ _

namespace Stored.Allowed

variable {s : Stored} (hs : s.Allowed coo formats) (hcoo : ListsCOO E a b coo)
  (hl : s.Lists E n a b)
include hs hcoo hl

lemma cscMatrix (hm : s.cscMatrix T = some m) :
    m.bits = coo.bits ∧ noOverflow coo.bits coo.nnz = true := by
  rw [Stored.cscMatrix] at hm
  split at hm
  · rename_i m' hm'
    obtain rfl := Option.some.inj hm
    exact hs.csr_bits _ (Or.inl hm')
  · split at hm
    · rename_i c hc
      rw [(hl.coo c hc).transpose.cooToCSR_eq, card_reversed, ← hcoo.nnz] at hm
      obtain ⟨hfits, hm⟩ := Option.ite_none_right_eq_some.1 hm
      obtain rfl := Option.some.inj hm
      have hbits : c.transpose.bits = coo.bits := hs.coo_bits c hc
      rw [hbits] at hfits
      exact ⟨hbits, hfits⟩
    · obtain ⟨m', hm', rfl⟩ := Option.map_eq_some_iff.1 hm
      exact hs.csr_bits m' (Or.inr hm')

lemma csrMatrix (hm : s.csrMatrix T = some m) :
    m.bits = coo.bits ∧ noOverflow coo.bits coo.nnz = true := by
  rw [Stored.csrMatrix] at hm
  split at hm
  · rename_i m' hm'
    obtain rfl := Option.some.inj hm
    exact hs.csr_bits _ (Or.inr hm')
  · split at hm
    · rename_i c hc
      rw [(hl.coo c hc).cooToCSR_eq, ← hcoo.nnz] at hm
      obtain ⟨hfits, hm⟩ := Option.ite_none_right_eq_some.1 hm
      obtain rfl := Option.some.inj hm
      rw [hs.coo_bits c hc] at hfits
      exact ⟨hs.coo_bits c hc, hfits⟩
    · obtain ⟨m', hm', rfl⟩ := Option.map_eq_some_iff.1 hm
      exact hs.csr_bits m' (Or.inl hm')

omit hcoo hl in
/-- `SelectFormat` takes an allowed format. -/
lemma selectFormat (preferred : Formats) : formats.has (s.selectFormat preferred) = true := by
  have hinter {a b : Formats} {fmt : SparseFormat} (h : (a.inter b).has fmt = true) :
      a.has fmt = true ∧ b.has fmt = true := by
    cases fmt <;> exact Bool.and_eq_true_iff.1 h
  unfold Stored.selectFormat
  simp only [hs.formats_eq]
  split
  · rename_i hnonzero
    exact (hinter (hinter (Formats.has_decode hnonzero)).1).2
  · split
    · rename_i hnonzero
      exact (hinter (Formats.has_decode hnonzero)).2
    · exact hs.within _ (Formats.has_decode hs.created)

omit hcoo hl in
lemma formatFor (host : Host) (q : Query) : formats.has (s.formatFor host q) = true := by
  have hincoming : formats.has (if host.ascend && s.createdFormats.coo then .coo
      else s.selectFormat ⟨false, false, true⟩) = true := by
    split
    · rename_i hcoo
      exact hs.within .coo (Bool.and_eq_true_iff.1 hcoo).2
    · exact hs.selectFormat _
  cases q with
  | inEdges _ => exact hincoming
  | inEdgesOf _ => exact hincoming
  | edges order =>
      unfold Stored.formatFor
      simp only
      split
      · exact hs.selectFormat _
      · split <;> exact hs.selectFormat _
  | _ => exact hs.selectFormat _

omit hcoo hl in
lemma cooMatrix {m : COOMatrix} (hm : s.cooMatrix = some m) : m.bits = coo.bits := by
  rw [Stored.cooMatrix] at hm
  split at hm
  · rename_i m' hm'
    obtain rfl := Option.some.inj hm
    exact hs.coo_bits _ hm'
  · split at hm
    · rename_i m' hm'
      obtain rfl := Option.some.inj hm
      exact (hs.csr_bits m' (Or.inl hm')).1
    · obtain ⟨m', hm', rfl⟩ := Option.map_eq_some_iff.1 hm
      exact (hs.csr_bits m' (Or.inr hm')).1

/-- **When a format is refused**: it is not COO, and the places of the edges do not fit the type of the
ids. -/
lemma getFormat_eq_none_iff (host : Host) (hfmt : formats.has fmt = true) :
    s.getFormat host fmt = none ↔ fmt ≠ .coo ∧ noOverflow coo.bits coo.nnz = false := by
  unfold Stored.getFormat
  rw [hs.formats_eq, if_pos hfmt]
  have hcreated := hs.created
  rw [Formats.nonzero, Stored.createdFormats] at hcreated
  have hcell {α β : Type} {o : Option α} {f : α → β} : o.map f = none ↔ o = none :=
    Option.map_eq_none_iff
  cases fmt with
  | coo =>
      refine iff_of_false (fun hnone => ?_) (fun h => h.1 rfl)
      have hnone := hcell.1 hnone
      rw [Stored.cooMatrix] at hnone
      split at hnone
      · cases hnone
      · rename_i hc
        split at hnone
        · cases hnone
        · rename_i hin
          rw [hc, hin, hcell.1 hnone] at hcreated
          cases hcreated
  | csr =>
      refine hcell.trans ?_
      constructor
      · intro hnone
        refine ⟨SparseFormat.noConfusion, ?_⟩
        rw [Stored.csrMatrix] at hnone
        split at hnone
        · cases hnone
        · rename_i hout
          split at hnone
          · rename_i c hc
            rw [(hl.coo c hc).cooToCSR_eq, ← hcoo.nnz, hs.coo_bits c hc] at hnone
            simpa using hnone
          · rename_i hc
            rw [hc, hout, hcell.1 hnone] at hcreated
            cases hcreated
      · rintro ⟨-, hover⟩
        rw [Option.eq_none_iff_forall_ne_some]
        intro m hm
        exact absurd (hs.csrMatrix hcoo hl hm).2 (by simp [hover])
  | csc =>
      refine hcell.trans ?_
      constructor
      · intro hnone
        refine ⟨SparseFormat.noConfusion, ?_⟩
        rw [Stored.cscMatrix] at hnone
        split at hnone
        · cases hnone
        · rename_i hin
          split at hnone
          · rename_i c hc
            have hbits : c.transpose.bits = coo.bits := hs.coo_bits c hc
            rw [(hl.coo c hc).transpose.cooToCSR_eq, card_reversed, ← hcoo.nnz, hbits] at hnone
            simpa using hnone
          · rename_i hc
            rw [hc, hin, hcell.1 hnone] at hcreated
            cases hcreated
      · rintro ⟨-, hover⟩
        rw [Option.eq_none_iff_forall_ne_some]
        intro m hm
        exact absurd (hs.cscMatrix hcoo hl hm).2 (by simp [hover])

end Stored.Allowed

lemma made_allowed (hcoo : ListsCOO E a b coo)
    (hr : UnitGraph.createFromCOO ⟨[], []⟩ n coo .all = some (g, h)) {g' : UnitGraph}
    (hg : g.getGraphInFormat T h formats = some (g', h')) : (g'.stored h').Allowed coo formats := by
  obtain ⟨-, ⟨hfmt, heq⟩ | ⟨hfmt, m, hm, heq⟩ | ⟨hfmt, m, hm, heq⟩⟩ := made_stored hr hg
  · rw [heq]
    refine ⟨rfl, rfl, fun fmt hcreated => ?_, fun m hm => ?_, fun m hm => by cases hm <;> contradiction⟩
    · cases fmt
      · exact hfmt
      · cases hcreated
      · cases hcreated
    · obtain rfl := Option.some.inj hm
      rfl
  · rw [hcoo.cooToCSR_eq, ← hcoo.nnz] at hm
    obtain ⟨hfits, hm⟩ := Option.ite_none_right_eq_some.1 hm
    obtain rfl := Option.some.inj hm
    rw [heq]
    refine ⟨rfl, rfl, fun fmt hcreated => ?_, nofun, fun m' hm' => ?_⟩
    · cases fmt
      · cases hcreated
      · exact hfmt
      · cases hcreated
    · obtain hm' | hm' := hm'
      · cases hm'
      · obtain rfl := Option.some.inj hm'
        exact ⟨rfl, hfits⟩
  · rw [hcoo.transpose.cooToCSR_eq, card_reversed, ← hcoo.nnz] at hm
    obtain ⟨hfits, hm⟩ := Option.ite_none_right_eq_some.1 hm
    obtain rfl := Option.some.inj hm
    rw [heq]
    refine ⟨rfl, rfl, fun fmt hcreated => ?_, nofun, fun m' hm' => ?_⟩
    · cases fmt
      · cases hcreated
      · cases hcreated
      · exact hfmt
    · obtain hm' | hm' := hm'
      · obtain rfl := Option.some.inj hm'
        exact ⟨rfl, hfits⟩
      · cases hm'

lemma getFormat_allowed (hcoo : ListsCOO E a b coo) (hp : g.Placed h)
    (hl : (g.stored h).Lists E n a b) (hs : (g.stored h).Allowed coo formats)
    (hr : g.getFormat T h fmt = some h') : (g.stored h').Allowed coo formats := by
  obtain ⟨-, hfmt, heq | ⟨rfl, m, hm, heq⟩ | ⟨rfl, m, hm, heq⟩ | ⟨rfl, m, hm, heq⟩⟩ :=
    getFormat_stored hp hr
  · rw [heq]
    exact hs
  all_goals
    rw [show g.formats = formats from hs.formats_eq] at hfmt
    rw [heq]
  · refine ⟨hs.formats_eq, rfl, fun fmt hcreated => ?_, fun m' hm' => ?_, hs.csr_bits⟩
    · cases fmt
      · exact hfmt
      · exact hs.within .csr hcreated
      · exact hs.within .csc hcreated
    · obtain rfl := Option.some.inj hm'
      exact hs.cooMatrix hm
  · refine ⟨hs.formats_eq, by simp [Formats.nonzero, Stored.createdFormats], fun fmt hcreated => ?_,
      hs.coo_bits, fun m' hm' => ?_⟩
    · cases fmt
      · exact hs.within .coo hcreated
      · exact hfmt
      · exact hs.within .csc hcreated
    · obtain hm' | hm' := hm'
      · exact hs.csr_bits m' (Or.inl hm')
      · obtain rfl := Option.some.inj hm'
        exact hs.csrMatrix hcoo hl hm
  · refine ⟨hs.formats_eq, by simp [Formats.nonzero, Stored.createdFormats], fun fmt hcreated => ?_,
      hs.coo_bits, fun m' hm' => ?_⟩
    · cases fmt
      · exact hs.within .coo hcreated
      · exact hs.within .csr hcreated
      · exact hfmt
    · obtain hm' | hm' := hm'
      · obtain rfl := Option.some.inj hm'
        exact hs.cscMatrix hcoo hl hm
      · exact hs.csr_bits m' (Or.inr hm')

theorem Restricted.allowed (hcoo : ListsCOO E a b coo) (hr : Restricted T n coo formats g h) :
    (g.stored h).Allowed coo formats := by
  induction hr with
  | made hr hg => exact made_allowed hcoo hr hg
  | asked hr hget ih =>
      obtain ⟨hp, hl⟩ := hr.lists hcoo
      exact getFormat_allowed hcoo hp hl ih hget

end Restricted

end DglAscend.Hetero
