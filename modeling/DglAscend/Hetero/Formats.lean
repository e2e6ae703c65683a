import DglAscend.Aten.Conversions

/-!
# The formats of a relation

`unit_graph.cc` stores the edges of a relation as up to three matrices: COO and CSR from sources to
destinations, and the CSR matrix of the transposed relation, called CSC.
-/

namespace DglAscend.Hetero

open Aten

/-- `SparseFormat`. -/
inductive SparseFormat
  | coo
  | csr
  | csc
  deriving DecidableEq, Repr

/-- `dgl_format_code_t`: one bit for each format. -/
structure Formats where
  coo : Bool
  csr : Bool
  csc : Bool
  deriving DecidableEq, Repr

namespace Formats

/-- `ALL_CODE`. -/
def all : Formats := ⟨true, true, true⟩

/-- The bit of a format. -/
def has (f : Formats) : SparseFormat → Bool
  | .coo => f.coo
  | .csr => f.csr
  | .csc => f.csc

/-- `a & b` -/
def inter (a b : Formats) : Formats := ⟨a.coo && b.coo, a.csr && b.csr, a.csc && b.csc⟩

/-- `code != 0` -/
def nonzero (f : Formats) : Bool := f.coo || f.csr || f.csc

/-- `(b | a) == b` -/
def within (a b : Formats) : Bool := (!a.coo || b.coo) && (!a.csr || b.csr) && (!a.csc || b.csc)

/-- `DecodeFormat`. -/
def decode (f : Formats) : SparseFormat := if f.coo then .coo else if f.csc then .csc else .csr

lemma within_iff {a b : Formats} : a.within b = true ↔ ∀ f, a.has f = true → b.has f = true := by
  constructor
  · intro h f
    simp only [within, Bool.and_eq_true, Bool.or_eq_true, Bool.not_eq_true'] at h
    cases f
    · simp only [has]
      intro ha
      simpa [ha] using h.1.1
    · simp only [has]
      intro ha
      simpa [ha] using h.1.2
    · simp only [has]
      intro ha
      simpa [ha] using h.2
  · intro h
    have hcoo := h .coo
    have hcsr := h .csr
    have hcsc := h .csc
    simp only [has] at hcoo hcsr hcsc
    simp only [within, Bool.and_eq_true, Bool.or_eq_true, Bool.not_eq_true']
    grind

lemma has_decode {f : Formats} (h : f.nonzero = true) : f.has f.decode = true := by
  obtain ⟨coo, csr, csc⟩ := f
  cases coo
  · cases csc
    · cases csr
      · cases h
      · rfl
    · rfl
  · rfl

end Formats

/-- The matrices that a relation has at hand, and the formats that it may have. -/
structure Stored where
  numVTypes : ℕ
  inCsr : Option CSRMatrix
  outCsr : Option CSRMatrix
  coo : Option COOMatrix
  formats : Formats
  deriving DecidableEq, Repr

namespace Stored

variable (T : ℕ+) (s : Stored)

/-- `GetCreatedFormats`. -/
def createdFormats : Formats := ⟨s.coo.isSome, s.outCsr.isSome, s.inCsr.isSome⟩

/-- `SelectFormat`. -/
def selectFormat (preferred : Formats) : SparseFormat :=
  let common := preferred.inter s.formats
  let created := s.createdFormats
  if (common.inter created).nonzero then (common.inter created).decode
  else if common.nonzero then common.decode
  else created.decode

/-- `GetInCSR`: the matrix that is stored, else the one that is converted from another format. -/
def cscMatrix : Option CSRMatrix :=
  match s.inCsr with
  | some csr => some csr
  | none =>
      match s.coo with
      | some coo => coo.transpose.cooToCSR T
      | none => s.outCsr.map CSRMatrix.transpose

/-- `GetOutCSR`, the matrix. -/
def csrMatrix : Option CSRMatrix :=
  match s.outCsr with
  | some csr => some csr
  | none =>
      match s.coo with
      | some coo => coo.cooToCSR T
      | none => s.inCsr.map CSRMatrix.transpose

/-- `GetCOO`, the matrix. -/
def cooMatrix : Option COOMatrix :=
  match s.coo with
  | some coo => some coo
  | none =>
      match s.inCsr with
      | some csr => some csr.toCOODataAsOrder.transpose
      | none => s.outCsr.map CSRMatrix.toCOODataAsOrder

end Stored

/-! ## The edges -/

/-- The ids of the edges are `0, …, E - 1`. -/
def Numbered (E : Multiset Entry) : Prop := E.map (fun e => e.2.2) = Multiset.range (Multiset.card E)

/-- The matrix from sources to destinations has the edges `E`. -/
structure OfCSR (E : Multiset Entry) (csr : CSRMatrix) : Prop where
  valid : csr.Valid
  entries : (csr.entries : Multiset Entry) = E

/-- The arrays have the edges `E`, numbered by their places. -/
structure OfCOO (E : Multiset Entry) (coo : COOMatrix) : Prop where
  valid : coo.Valid
  data : coo.data = []
  entries : (coo.entries : Multiset Entry) = E

/-- The edges of the reversed relation. -/
def reversed (E : Multiset Entry) : Multiset Entry := E.map .swap

section Edges

variable {E : Multiset Entry} {csr : CSRMatrix} {coo : COOMatrix} {T : ℕ+}

@[simp] lemma swap_swap (e : Entry) : e.swap.swap = e := rfl

@[simp] lemma reversed_reversed (E : Multiset Entry) : reversed (reversed E) = E := by
  rw [reversed, reversed, Multiset.map_map]
  exact Multiset.map_id E

lemma Numbered.reversed (h : Numbered E) : Numbered (reversed E) := by
  rw [Numbered, Hetero.reversed, Multiset.map_map, Multiset.card_map]
  exact h

lemma Numbered.nodup_ids (hE : Numbered E) : (E.map fun e => e.2.2).Nodup := by
  rw [hE]
  exact Multiset.nodup_range _

lemma Numbered.eq_of_id (hE : Numbered E) {e e' : Entry} (he : e ∈ E) (he' : e' ∈ E)
    (hid : e.2.2 = e'.2.2) : e = e' := Multiset.inj_on_of_nodup_map hE.nodup_ids _ he _ he' hid

lemma OfCSR.numbered (h : OfCSR E csr) : Numbered E := by
  rw [Numbered, ← h.entries, Multiset.map_coe, Multiset.coe_card, h.valid.length_entries]
  exact Multiset.coe_eq_coe.2 h.valid.ids_perm

lemma OfCOO.numbered (h : OfCOO E coo) : Numbered E := by
  have hids : coo.entries.map (fun e => e.2.2) = List.range coo.nnz := by
    rw [COOMatrix.entries, List.map_map]
    show (List.range coo.nnz).map (idAt coo.data) = _
    rw [h.data, map_idAt_nil]
  rw [Numbered, ← h.entries, Multiset.map_coe, Multiset.coe_card, hids, COOMatrix.entries,
    List.length_map, List.length_range]
  rfl

lemma OfCSR.transpose (h : OfCSR E csr) : OfCSR (reversed E) csr.transpose where
  valid := h.valid.valid_transpose
  entries := by
    rw [reversed, ← h.entries, Multiset.map_coe]
    exact Multiset.coe_eq_coe.2 h.valid.entries_transpose_perm

lemma OfCSR.toCOO (h : OfCSR E csr) : OfCOO E csr.toCOODataAsOrder where
  valid := h.valid.valid_dataAsOrder
  data := rfl
  entries := by
    rw [← h.entries]
    exact Multiset.coe_eq_coe.2 h.valid.entries_dataAsOrder_perm

lemma OfCOO.transpose (h : OfCOO E coo) : OfCOO (reversed E) coo.transpose where
  valid := h.valid.transpose
  data := h.data
  entries := by rw [h.valid.entries_transpose, reversed, ← h.entries, Multiset.map_coe]

lemma OfCOO.toCSR (h : OfCOO E coo) (hcsr : coo.cooToCSR T = some csr) : OfCSR E csr := by
  rw [h.valid.cooToCSR_eq T.pos] at hcsr
  split at hcsr
  · obtain rfl := Option.some.inj hcsr
    refine ⟨COOMatrix.valid_bucketed h.valid, ?_⟩
    rw [← h.entries]
    exact Multiset.coe_eq_coe.2 (COOMatrix.entries_bucketed_perm h.valid)
  · cases hcsr

end Edges

namespace Stored

/-- All matrices at hand have the same edges. -/
structure Has (E : Multiset Entry) (s : Stored) : Prop where
  inCsr : ∀ csr, s.inCsr = some csr → OfCSR (reversed E) csr
  outCsr : ∀ csr, s.outCsr = some csr → OfCSR E csr
  coo : ∀ coo, s.coo = some coo → OfCOO E coo

namespace Has

variable {E : Multiset Entry} {s : Stored} {T : ℕ+} (h : s.Has E)
include h

lemma cscMatrix {csr : CSRMatrix} (hcsr : s.cscMatrix T = some csr) : OfCSR (reversed E) csr := by
  rw [Stored.cscMatrix] at hcsr
  split at hcsr
  · rename_i m hm
    obtain rfl := Option.some.inj hcsr
    exact h.inCsr _ hm
  · split at hcsr
    · rename_i m hm
      exact (h.coo _ hm).transpose.toCSR hcsr
    · obtain ⟨m, hm, rfl⟩ := Option.map_eq_some_iff.1 hcsr
      exact (h.outCsr _ hm).transpose

lemma csrMatrix {csr : CSRMatrix} (hcsr : s.csrMatrix T = some csr) : OfCSR E csr := by
  rw [Stored.csrMatrix] at hcsr
  split at hcsr
  · rename_i m hm
    obtain rfl := Option.some.inj hcsr
    exact h.outCsr _ hm
  · split at hcsr
    · rename_i m hm
      exact (h.coo _ hm).toCSR hcsr
    · obtain ⟨m, hm, rfl⟩ := Option.map_eq_some_iff.1 hcsr
      have hm := (h.inCsr _ hm).transpose
      rwa [reversed_reversed] at hm

lemma cooMatrix {coo : COOMatrix} (hcoo : s.cooMatrix = some coo) : OfCOO E coo := by
  rw [Stored.cooMatrix] at hcoo
  split at hcoo
  · rename_i m hm
    obtain rfl := Option.some.inj hcoo
    exact h.coo _ hm
  · split at hcoo
    · rename_i m hm
      obtain rfl := Option.some.inj hcoo
      have hm := (h.inCsr _ hm).toCOO.transpose
      rwa [reversed_reversed] at hm
    · obtain ⟨m, hm, rfl⟩ := Option.map_eq_some_iff.1 hcoo
      exact (h.outCsr _ hm).toCOO

end Has

end Stored

/-! ## An edge from 0 to 1 -/

/-- One edge from vertex 0 to vertex 1. -/
def oneEdge : COOMatrix where
  bits := 64
  numRows := 2
  numCols := 2
  row := [0]
  col := [1]
  data := []
  rowSorted := false
  colSorted := false

lemma oneEdge_valid : oneEdge.Valid where
  col_length := rfl
  row_lt := by decide
  col_lt := by decide
  numbers := Or.inl rfl
  sorted := nofun

end DglAscend.Hetero
