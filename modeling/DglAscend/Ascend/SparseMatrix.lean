import DglAscend.Lib.Memory

/-!
# Sparse matrices on a device

The COO and CSR matrices of `aten/coo.h` and `aten/csr.h` are descriptions: sizes, flags, and id
arrays that live in device memory.  What they say is read from the memory.
-/

namespace DglAscend.Ascend

/-- `NDArray` of ids: the context, the data pointer, the length and the bits of an id. -/
structure IdArray where
  deviceId : ℤ
  ptr : ℕ
  length : ℕ
  bits : ℕ
  deriving DecidableEq, Repr

namespace IdArray

/-- `GetSize`, in bytes. -/
def size (a : IdArray) : ℕ := a.length * ((a.bits + 7) / 8)

/-- The memory of the array. -/
def region (a : IdArray) : Region := ⟨a.deviceId, a.ptr, a.size⟩

/-- Same context and dtype, which `CheckValidity` compares, and the same length. -/
structure Like (a b : IdArray) : Prop where
  deviceId_eq : a.deviceId = b.deviceId
  bits_eq : a.bits = b.bits
  length_eq : a.length = b.length

/-- Arrays alike with one pointer are one array. -/
lemma Like.eq {a b a' b' : IdArray} (h : a.Like b) (h' : a'.Like b') (hb : b = b')
    (hptr : a.ptr = a'.ptr) : a = a' := by
  obtain ⟨d, p, l, n⟩ := a
  obtain ⟨d', p', l', n'⟩ := a'
  obtain ⟨h1, h2, h3⟩ := h
  obtain ⟨h1', h2', h3'⟩ := h'
  simp only at h1 h2 h3 h1' h2' h3' hptr
  rw [h1, h2, h3, h1', h2', h3', hb, hptr]

end IdArray

/-- `COOMatrix`.  The data array is null when it has no elements. -/
structure CooMatrix where
  numRows : ℤ
  numCols : ℤ
  row : IdArray
  col : IdArray
  data : IdArray
  rowSorted : Bool
  colSorted : Bool
  col_like : col.Like row
  data_like : data.length ≠ 0 → data.Like row

/-- What an uncached conversion reads of a COO matrix. -/
structure CooInput (B : Type) where
  deviceId : ℤ
  numRows : ℤ
  numCols : ℤ
  nnz : ℕ
  idBits : ℕ
  row : List B
  col : List B
  data : Option (List B)
  rowSorted : Bool
  colSorted : Bool
  deriving DecidableEq

namespace CooMatrix

/-- `COOHasData`. -/
def hasData (coo : CooMatrix) : Bool := coo.data.length ≠ 0

/-- The arrays of the matrix. -/
def regions (coo : CooMatrix) : List Region :=
  coo.row.region :: coo.col.region :: if coo.hasData then [coo.data.region] else []

/-- The matrix as it stands in memory. -/
def input {B : Type} (coo : CooMatrix) (m : Memory B) : CooInput B where
  deviceId := coo.row.deviceId
  numRows := coo.numRows
  numCols := coo.numCols
  nnz := coo.row.length
  idBits := coo.row.bits
  row := coo.row.region.read m
  col := coo.col.region.read m
  data := if coo.hasData then some (coo.data.region.read m) else none
  rowSorted := coo.rowSorted
  colSorted := coo.colSorted

/-- The matrix depends on the memory of its arrays only. -/
lemma input_congr {B : Type} {coo : CooMatrix} {m m' : Memory B}
    (h : Set.EqOn m m' (addressesOf coo.regions)) : coo.input m = coo.input m' := by
  have hread (r : Region) (hr : r ∈ coo.regions) : r.read m = r.read m' :=
    Region.read_congr fun a ha => h (addresses_subset_addressesOf hr ha)
  have hrow := hread coo.row.region List.mem_cons_self
  have hcol := hread coo.col.region (List.mem_cons_of_mem _ List.mem_cons_self)
  by_cases hdata : coo.hasData
  · have hdat := hread coo.data.region (by simp [regions, hdata])
    rw [input, input, hrow, hcol, hdat]
  · rw [input, input, hrow, hcol, if_neg hdata, if_neg hdata]

end CooMatrix

/-- `CSRMatrix`. -/
structure CsrMatrix where
  numRows : ℤ
  numCols : ℤ
  indptr : IdArray
  indices : IdArray
  data : IdArray
  sorted : Bool
  deriving DecidableEq, Repr

/-- What a CSR matrix says. -/
structure CsrContents (B : Type) where
  numRows : ℤ
  numCols : ℤ
  indptr : List B
  indices : List B
  data : List B
  sorted : Bool
  deriving DecidableEq

namespace CsrMatrix

/-- The arrays of the matrix. -/
def regions (csr : CsrMatrix) : List Region :=
  [csr.indptr.region, csr.indices.region, csr.data.region]

/-- The matrix as it stands in memory. -/
def contents {B : Type} (m : Memory B) (csr : CsrMatrix) : CsrContents B where
  numRows := csr.numRows
  numCols := csr.numCols
  indptr := csr.indptr.region.read m
  indices := csr.indices.region.read m
  data := csr.data.region.read m
  sorted := csr.sorted

/-- The matrix depends on the memory of its arrays only. -/
lemma contents_congr {B : Type} {csr : CsrMatrix} {m m' : Memory B}
    (h : Set.EqOn m m' (addressesOf csr.regions)) : csr.contents m = csr.contents m' := by
  have hread (r : Region) (hr : r ∈ csr.regions) : r.read m = r.read m' :=
    Region.read_congr fun a ha => h (addresses_subset_addressesOf hr ha)
  rw [contents, contents, hread csr.indptr.region (by simp [regions]),
    hread csr.indices.region (by simp [regions]), hread csr.data.region (by simp [regions])]

end CsrMatrix

end DglAscend.Ascend
