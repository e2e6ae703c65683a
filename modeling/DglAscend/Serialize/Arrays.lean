import DglAscend.Aten.SparseMatrix
import DglAscend.Lib.Codec

/-!
# Arrays and matrices in a stream

`NDArray::Save` and `NDArray::Load`, and those of `COOMatrix` and `CSRMatrix`.  What is written is read
back unchanged (`loadCSR_saveCSR`, `loadCOO_saveCOO`), whatever follows it in the stream.

The handlers of `dmlc` for words, strings and vectors are parameters (`Stream`).
-/

namespace DglAscend.Serialize

open Aten

/-- The handlers of `dmlc::Stream`.  A string is written as its length and its characters. -/
structure Stream (σ : Type) where
  word : ℕ → Codec σ ℕ
  word_length : ∀ k x, ((word k).put x).length = k
  word_ok : ∀ k x, x < 2 ^ (8 * k) → (word k).Ok x
  str : Codec σ (List σ)
  str_ok : ∀ s : List σ, s.length < 2 ^ 64 → str.Ok s
  str_suffix : ∀ s, s <:+ str.put s
  vec : ∀ {α : Type}, Codec σ α → Codec σ (List α)
  vec_ok : ∀ {α : Type} (c : Codec σ α) (l : List α), l.length < 2 ^ 64 → (∀ a ∈ l, c.Ok a) → (vec c).Ok l

namespace Stream

variable {σ : Type} (w : Stream σ)

/-- `uint64_t` -/
def u64 : Codec σ ℕ := w.word 8

/-- `int64_t`; the sizes and numbers that are written are not negative. -/
def i64 : Codec σ ℕ := w.word 8

/-- `int32_t` -/
def i32 : Codec σ ℕ := w.word 4

/-- `uint16_t` -/
def u16 : Codec σ ℕ := w.word 2

/-- `uint8_t` -/
def u8 : Codec σ ℕ := w.word 1

/-- `bool` -/
def bool : Codec σ Bool := (w.word 1).through Bool.toNat (· ≠ 0) (by decide)

variable {x : ℕ}

lemma u64_ok (hx : x < 2 ^ 64) : w.u64.Ok x := w.word_ok 8 x hx

lemma i64_ok (hx : x < 2 ^ 63) : w.i64.Ok x := w.word_ok 8 x (hx.trans (by norm_num))

lemma i32_ok (hx : x < 2 ^ 31) : w.i32.Ok x := w.word_ok 4 x (hx.trans (by norm_num))

lemma u16_ok (hx : x < 2 ^ 16) : w.u16.Ok x := w.word_ok 2 x hx

lemma u8_ok (hx : x < 2 ^ 8) : w.u8.Ok x := w.word_ok 1 x hx

lemma bool_ok (b : Bool) : w.bool.Ok b := w.word_ok 1 _ (by cases b <;> norm_num)

/-- A little-endian machine; strings and vectors are written behind their lengths. -/
def plain : Stream UInt8 where
  word := Codec.word
  word_length := Codec.length_bytes
  word_ok _ _ hx := hx
  str := {
    put := fun s => (Codec.word 8).put s.length ++ s
    get := do
      let n ← (Codec.word 8).get
      Scan.raw n
    Ok := fun s => s.length < 2 ^ 64
    get_put := fun {s} hs rest => by
      have hok : (Codec.word 8).Ok s.length := hs
      rw [List.append_assoc, (Codec.word 8).run_bind hok, Scan.run_raw rfl] }
  str_ok _ hs := hs
  str_suffix s := List.suffix_append _ s
  vec c := Codec.counted (Codec.word 8) c
  vec_ok _ _ hlen hl := ⟨hlen, hl⟩

end Stream

/-! ## Arrays -/

/-- An `NDArray` on the host: its `DGLDataType`, its shape, and its memory. -/
structure NDArray (σ : Type) where
  code : ℕ
  bits : ℕ
  lanes : ℕ
  shape : List ℕ
  data : List σ
  deriving DecidableEq

/-- `kDGLNDArrayMagic` -/
def ndarrayMagic : ℕ := 0xDD5E40F096B4A13F

/-- `kDGLCPU` -/
def cpu : ℕ := 1

section Arrays

variable {σ : Type} (w : Stream σ)

/-- `NDArray::Save`, by `SaveDGLArray`. -/
def NDArray.save (a : NDArray σ) : List σ :=
  w.u64.put ndarrayMagic ++ w.u64.put 0 ++
    w.i32.put cpu ++ w.i32.put 0 ++
    w.i32.put a.shape.length ++
    w.u8.put a.code ++ w.u8.put a.bits ++ w.u16.put a.lanes ++
    w.i64.putAll a.shape ++
    w.i64.put (a.bits / 8 * a.shape.prod) ++
    a.data

/-- `NDArray::Load` -/
def NDArray.load : Scan σ (NDArray σ) := do
  let header ← w.u64.get
  let _ ← w.u64.get
  Scan.check (header = ndarrayMagic)
  let device ← w.i32.get
  let _ ← w.i32.get
  let ndim ← w.i32.get
  let code ← w.u8.get
  let bits ← w.u8.get
  let lanes ← w.u16.get
  Scan.check (device = cpu)
  let shape ← Scan.times w.i64.get ndim
  let dataByteSize ← w.i64.get
  Scan.check (dataByteSize = shape.prod * ((bits + 7) / 8))
  let data ← Scan.raw dataByteSize
  pure ⟨code, bits, lanes, shape, data⟩

/-- The memory fits the shape, its elements are whole bytes, and the numbers fit their types. -/
structure NDArray.Storable (a : NDArray σ) : Prop where
  code : a.code < 2 ^ 8
  bits : a.bits < 2 ^ 8
  lanes : a.lanes < 2 ^ 16
  ndim : a.shape.length < 2 ^ 31
  shape : ∀ n ∈ a.shape, n < 2 ^ 63
  bytes : 8 ∣ a.bits
  data : a.data.length = a.bits / 8 * a.shape.prod
  size : a.data.length < 2 ^ 63

variable {w}

/-- **An array is read back.** -/
theorem NDArray.Storable.load_save {a : NDArray σ} (h : a.Storable) (rest : List σ) :
    (NDArray.load w).run (a.save w ++ rest) = some (a, rest) := by
  have hsize := h.size
  rw [h.data] at hsize
  have hbytes : (a.bits + 7) / 8 = a.bits / 8 := by
    obtain ⟨k, hk⟩ := h.bytes
    omega
  have hcheck : a.bits / 8 * a.shape.prod = a.shape.prod * ((a.bits + 7) / 8) := by
    rw [hbytes, Nat.mul_comm]
  simp only [NDArray.save, NDArray.load, List.append_assoc]
  rw [w.u64.run_bind (w.u64_ok (by decide)), w.u64.run_bind (w.u64_ok (by decide)),
    Scan.run_check rfl, w.i32.run_bind (w.i32_ok (by decide)), w.i32.run_bind (w.i32_ok (by decide)),
    w.i32.run_bind (w.i32_ok h.ndim), w.u8.run_bind (w.u8_ok h.code), w.u8.run_bind (w.u8_ok h.bits),
    w.u16.run_bind (w.u16_ok h.lanes), Scan.run_check rfl,
    w.i64.run_times_bind rfl fun n hn => w.i64_ok (h.shape n hn), w.i64.run_bind (w.i64_ok hsize),
    Scan.run_check hcheck, Scan.run_raw_bind h.data]
  rfl

/-- Arrays in a stream. -/
def Stream.array (w : Stream σ) : Codec σ (NDArray σ) where
  put := NDArray.save w
  get := NDArray.load w
  Ok := NDArray.Storable
  get_put h := h.load_save

/-! ## Arrays of ids -/

variable (w)

/-- An array of ids in the memory. -/
def idArray (bits : ℕ) (ids : List ℕ) : NDArray σ :=
  ⟨0, bits, 1, [ids.length], (w.word (bits / 8)).putAll ids⟩

/-- A null array has ids of 64 bits, whatever the other arrays have. -/
def nullable (bits : ℕ) (ids : List ℕ) : NDArray σ := idArray w (if ids = [] then 64 else bits) ids

/-- The ids in an array. -/
def NDArray.ids (a : NDArray σ) : Option (List ℕ) :=
  ((Scan.times (w.word (a.bits / 8)).get (a.shape.headD 0)).run a.data).map Prod.fst

/-- Ids of a width. -/
structure Ids (bits : ℕ) (ids : List ℕ) : Prop where
  width : bits = 32 ∨ bits = 64
  length : ids.length < 2 ^ 60
  lt : ∀ x ∈ ids, x < 2 ^ (bits - 1)

variable {w} {bits : ℕ} {ids : List ℕ}

section

variable (h : Ids bits ids)
include h

lemma Ids.ok : ∀ x ∈ ids, (w.word (bits / 8)).Ok x := by
  intro x hx
  refine w.word_ok _ x ((h.lt x hx).trans_le (Nat.pow_le_pow_right two_pos ?_))
  rcases h.width with rfl | rfl <;> norm_num

lemma Ids.storable : (idArray w bits ids).Storable := by
  have hlen : ((w.word (bits / 8)).putAll ids).length = bits / 8 * ids.length :=
    Codec.length_putAll _ (w.word_length _) ids
  have hlt := h.length
  refine ⟨Nat.two_pow_pos 8, ?_, Nat.one_lt_two_pow (by decide), Nat.one_lt_two_pow (by decide), ?_, ?_, ?_, ?_⟩
  · rcases h.width with rfl | rfl <;> simp [idArray]
  · intro n hn
    obtain rfl := List.mem_singleton.1 hn
    omega
  · rcases h.width with rfl | rfl <;> simp [idArray]
  · rw [idArray, hlen, List.prod_singleton]
  · rw [idArray]
    simp only [hlen]
    rcases h.width with rfl | rfl <;> omega

@[simp] lemma Ids.ids_idArray : (idArray w bits ids).ids w = some ids := by
  have hread := (w.word (bits / 8)).run_times h.ok []
  rw [List.append_nil] at hread
  simp only [NDArray.ids, idArray, List.headD_cons, hread]
  rfl

lemma Ids.ofNull : Ids (if ids = [] then 64 else bits) ids := by
  by_cases hids : ids = []
  · rw [if_pos hids, hids]
    exact ⟨Or.inr rfl, by decide, fun x hx => absurd hx List.not_mem_nil⟩
  · rwa [if_neg hids]

lemma Ids.nullable_storable : (nullable w bits ids).Storable := h.ofNull.storable

@[simp] lemma Ids.ids_nullable : (nullable w bits ids).ids w = some ids :=
  h.ofNull.ids_idArray

end

/-! ## Matrices -/

/-- `kDGLSerialize_AtenCsrMatrixMagic` -/
def csrMagic : ℕ := 0xDD6cd31205dff127

/-- `kDGLSerialize_AtenCooMatrixMagic` -/
def cooMagic : ℕ := 0xDD61ffd305dff127

/-- `CHECK_SAME_DTYPE` -/
def SameDtype (a b : NDArray σ) : Prop := a.code = b.code ∧ a.bits = b.bits ∧ a.lanes = b.lanes

instance (a b : NDArray σ) : Decidable (SameDtype a b) := inferInstanceAs (Decidable (_ ∧ _ ∧ _))

variable (w)

/-- `CSRMatrix::Save` -/
def saveCSR (m : CSRMatrix) : List σ :=
  w.u64.put csrMagic ++ w.i64.put m.numCols ++ w.i64.put m.numRows ++
    w.array.put (idArray w m.bits m.indptr) ++ w.array.put (idArray w m.bits m.indices) ++
    w.array.put (nullable w m.bits m.data) ++ w.bool.put m.sorted

/-- `CSRMatrix::Load`, with `CheckValidity`. -/
def loadCSR : Scan σ CSRMatrix := do
  let magic ← w.u64.get
  Scan.check (magic = csrMagic)
  let numCols ← w.i64.get
  let numRows ← w.i64.get
  let indptr ← w.array.get
  let indices ← w.array.get
  let data ← w.array.get
  let sorted ← w.bool.get
  Scan.check (SameDtype indptr indices)
  Scan.check (data.shape.headD 0 = 0 ∨ SameDtype indptr data)
  Scan.check (noOverflow indptr.bits numRows = true)
  Scan.check (noOverflow indptr.bits numCols = true)
  Scan.check (indptr.shape.headD 0 = numRows + 1)
  let indptrIds ← Scan.ofOption (indptr.ids w)
  let indicesIds ← Scan.ofOption (indices.ids w)
  let dataIds ← Scan.ofOption (data.ids w)
  pure ⟨indptr.bits, numRows, numCols, indptrIds, indicesIds, dataIds, sorted⟩

/-- `COOMatrix::Save` -/
def saveCOO (m : COOMatrix) : List σ :=
  w.u64.put cooMagic ++ w.i64.put m.numCols ++ w.i64.put m.numRows ++
    w.array.put (idArray w m.bits m.row) ++ w.array.put (idArray w m.bits m.col) ++
    w.array.put (nullable w m.bits m.data) ++ w.bool.put m.rowSorted ++ w.bool.put m.colSorted

/-- `COOMatrix::Load`, with `CheckValidity`. -/
def loadCOO : Scan σ COOMatrix := do
  let magic ← w.u64.get
  Scan.check (magic = cooMagic)
  let numCols ← w.i64.get
  let numRows ← w.i64.get
  let row ← w.array.get
  let col ← w.array.get
  let data ← w.array.get
  let rowSorted ← w.bool.get
  let colSorted ← w.bool.get
  Scan.check (SameDtype row col)
  Scan.check (data.shape.headD 0 = 0 ∨ SameDtype row data)
  Scan.check (noOverflow row.bits numRows = true)
  Scan.check (noOverflow row.bits numCols = true)
  let rowIds ← Scan.ofOption (row.ids w)
  let colIds ← Scan.ofOption (col.ids w)
  let dataIds ← Scan.ofOption (data.ids w)
  pure ⟨row.bits, numRows, numCols, rowIds, colIds, dataIds, rowSorted, colSorted⟩

/-- A shape that ids of a width can have. -/
structure Shape (bits numRows numCols : ℕ) : Prop where
  rows : numRows < 2 ^ 63
  cols : numCols < 2 ^ 63
  rows_fit : noOverflow bits numRows = true
  cols_fit : noOverflow bits numCols = true

/-- The arrays of a CSR matrix can be written and pass the checks. -/
structure CSRStorable (m : CSRMatrix) : Prop where
  shape : Shape m.bits m.numRows m.numCols
  indptr : Ids m.bits m.indptr
  indices : Ids m.bits m.indices
  data : Ids m.bits m.data
  length : m.indptr.length = m.numRows + 1

/-- The arrays of a COO matrix can be written and pass the checks. -/
structure COOStorable (m : COOMatrix) : Prop where
  shape : Shape m.bits m.numRows m.numCols
  row : Ids m.bits m.row
  col : Ids m.bits m.col
  data : Ids m.bits m.data

variable {w}

/-- The check of a data array that may be null. -/
lemma data_check (a ids : List ℕ) :
    (nullable w bits ids).shape.headD 0 = 0 ∨ SameDtype (idArray w bits a) (nullable w bits ids) := by
  by_cases hids : ids = []
  · left
    rw [nullable, hids]
    rfl
  · right
    rw [nullable, if_neg hids]
    exact ⟨rfl, rfl, rfl⟩

/-- **A CSR matrix is read back.** -/
theorem CSRStorable.load_save {m : CSRMatrix} (h : CSRStorable m) (rest : List σ) :
    (loadCSR w).run (saveCSR w m ++ rest) = some (m, rest) := by
  have hlength : (idArray w m.bits m.indptr).shape.headD 0 = m.numRows + 1 := h.length
  have hrows : noOverflow (idArray w m.bits m.indptr).bits m.numRows = true := h.shape.rows_fit
  have hcols : noOverflow (idArray w m.bits m.indptr).bits m.numCols = true := h.shape.cols_fit
  simp only [saveCSR, loadCSR, List.append_assoc]
  rw [w.u64.run_bind (w.u64_ok (by decide)), Scan.run_check rfl, w.i64.run_bind (w.i64_ok h.shape.cols),
    w.i64.run_bind (w.i64_ok h.shape.rows), w.array.run_bind h.indptr.storable,
    w.array.run_bind h.indices.storable, w.array.run_bind h.data.nullable_storable,
    w.bool.run_bind (w.bool_ok _), Scan.run_check ⟨rfl, rfl, rfl⟩, Scan.run_check (data_check _ _),
    Scan.run_check hrows, Scan.run_check hcols, Scan.run_check hlength,
    Scan.run_ofOption h.indptr.ids_idArray, Scan.run_ofOption h.indices.ids_idArray,
    Scan.run_ofOption h.data.ids_nullable]
  rfl

/-- **A COO matrix is read back.** -/
theorem COOStorable.load_save {m : COOMatrix} (h : COOStorable m) (rest : List σ) :
    (loadCOO w).run (saveCOO w m ++ rest) = some (m, rest) := by
  have hrows : noOverflow (idArray w m.bits m.row).bits m.numRows = true := h.shape.rows_fit
  have hcols : noOverflow (idArray w m.bits m.row).bits m.numCols = true := h.shape.cols_fit
  simp only [saveCOO, loadCOO, List.append_assoc]
  rw [w.u64.run_bind (w.u64_ok (by decide)), Scan.run_check rfl, w.i64.run_bind (w.i64_ok h.shape.cols),
    w.i64.run_bind (w.i64_ok h.shape.rows), w.array.run_bind h.row.storable,
    w.array.run_bind h.col.storable, w.array.run_bind h.data.nullable_storable,
    w.bool.run_bind (w.bool_ok _), w.bool.run_bind (w.bool_ok _), Scan.run_check ⟨rfl, rfl, rfl⟩,
    Scan.run_check (data_check _ _), Scan.run_check hrows, Scan.run_check hcols,
    Scan.run_ofOption h.row.ids_idArray, Scan.run_ofOption h.col.ids_idArray,
    Scan.run_ofOption h.data.ids_nullable]
  rfl

/-- CSR matrices in a stream. -/
def Stream.csr (w : Stream σ) : Codec σ CSRMatrix where
  put := saveCSR w
  get := loadCSR w
  Ok := CSRStorable
  get_put h := h.load_save

/-- COO matrices in a stream. -/
def Stream.coo (w : Stream σ) : Codec σ COOMatrix where
  put := saveCOO w
  get := loadCOO w
  Ok := COOStorable
  get_put h := h.load_save

end Arrays

end DglAscend.Serialize
