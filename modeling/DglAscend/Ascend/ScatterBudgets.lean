import DglAscend.Ascend.UnifiedBuffer

/-!
# The buffers of the scatter kernels

`Init` of the kernels that write rows or elements to places that an array names: `ScatterAdd`,
`BackwardSegmentCmp`, `UpdateGradMinMax_hetero` and the second kernel of `GatherMM`.  They divide what is
left of the unified buffer by the size of a row, and take at least one row; so the buffers fit if and
only if those for one row do (`budgets_iff`).
-/

namespace DglAscend.Ascend

/-- `UB_AVAILABLE` -/
def ubAvailable : ℕ := ubSize - 2048

/-- `BLOCK_COUNT_MAX` -/
def blockCountMax : ℕ := 4095

/-- `BUFFER_NUM` -/
def bufferNum : ℕ := 2

/-- `SCRATCH_BYTES` -/
def scratchBytes : ℕ := 32

/-! ## Rows of features -/

/-- The rows of a launch, and their width, which is a `uint32_t` as well. -/
structure FeatureRows extends EvenSplit where
  featDim : ℕ
  featDim_lt : featDim < 2 ^ 32

namespace FeatureRows

variable (t : FeatureRows)

def rowBytes : ℕ := u32 (t.featDim * 4)

def rowAlignedBytes : ℕ := u32 (t.rowBytes + 31) / 32 * 32

def rowAlignedElems : ℕ := t.rowAlignedBytes / 4

/-- The difference is taken in `uint32_t`. -/
def rightPadding : ℕ := u32 (t.rowAlignedElems + 2 ^ 32 - t.featDim)

/-- `batchItems`, with `queues` buffers of a batch and `fixed` bytes besides them. -/
def batchItems (queues fixed : ℕ) : ℕ :=
  batchOf (ubAvailable - fixed) (u32 (queues * t.rowAlignedBytes)) blockCountMax

/-- The bytes of one buffer of a batch. -/
def batchBytes (batch : ℕ) : ℕ := u32 (batch * t.rowAlignedBytes)

end FeatureRows

/-- A kernel fits: the bytes that it passes to `InitBuffer`, a batch in its buffer, and the arguments of
the copies, of 8 and 16 bits. -/
structure BatchFits (t : FeatureRows) (batch : ℕ) (buffers : Buffers) : Prop where
  total : buffers.passed ≤ ubSize
  rows : batch * (t.featDim * 4) ≤ t.batchBytes batch
  padding : t.rightPadding % 2 ^ 8 = t.rightPadding
  blockCount : ∀ remaining, min remaining batch % 2 ^ 16 = min remaining batch

namespace ScatterAdd

variable (t : FeatureRows) (block : ℕ)

/-- The index buffer holds the indices of all rows of the core. -/
def idxAlignedBytes : ℕ := u32 (align32 (max 1 (t.myRows block) * 4))

def batchItems : ℕ := t.batchItems bufferNum (idxAlignedBytes t block)

def buffers : Buffers :=
  [(bufferNum, t.batchBytes (batchItems t block)), (1, idxAlignedBytes t block)]

/-- `KernelScatterAdd`: here the divisor is not looked at. -/
structure Within : Prop where
  divisor : u32 (bufferNum * t.rowAlignedBytes) ≠ 0
  fits : ∀ block < t.blocks, BatchFits t (batchItems t block) (buffers t block)
  indices : ∀ block < t.blocks, t.myRows block * 4 ≤ idxAlignedBytes t block

end ScatterAdd

namespace BackwardSegmentCmp

variable (t : FeatureRows)

def batchItems : ℕ := t.batchItems (bufferNum + 1) scratchBytes

def buffers : Buffers :=
  [(bufferNum, t.batchBytes (batchItems t)), (1, t.batchBytes (batchItems t)), (1, scratchBytes)]

/-- `KernelBackwardSegmentCmp` -/
def Within : Prop := BatchFits t (batchItems t) (buffers t)

end BackwardSegmentCmp

namespace UpdateGradMinMaxHetero

variable (t : FeatureRows)

def batchItems : ℕ := t.batchItems (bufferNum + 1 + 1) scratchBytes

def buffers : Buffers :=
  [(bufferNum, t.batchBytes (batchItems t)), (1, t.batchBytes (batchItems t)),
    (1, t.batchBytes (batchItems t)), (1, scratchBytes)]

/-- `KernelUpdateGradMinMaxHetero` -/
def Within : Prop := BatchFits t (batchItems t) (buffers t)

end UpdateGradMinMaxHetero

/-! ## `gather_mm_scatter_aiv` -/

namespace GatherMm

/-- A launch of the second kernel: `m` rows of `n` elements. -/
structure ScatterRows extends EvenSplit where
  width : ℕ
  width_lt : width < 2 ^ 32
  isScatter : Bool

/-- `(x + 7) / 8 * 8`, of at least 8 elements -/
def roundUp8 (x : ℕ) : ℕ := u32 (max 8 x + 7) / 8 * 8

variable (t : ScatterRows) (block : ℕ)

def ubElements : ℕ := roundUp8 t.width

def idxElems : ℕ := roundUp8 (t.myRows block)

def idxBytes : ℕ := u32 (idxElems t block * 4)

def rowBytes : ℕ := u32 (ubElements t * 4)

/-- `ubAlloc`: it does not count the index buffer if the rows are written directly. -/
def ubAlloc : ℕ :=
  if t.isScatter then
    u32 (u32 (5 * ubElements t) * 4 + u32 (2 * t.myRows block) * 4 + 256)
  else u32 (u32 (4 * ubElements t) * 4 + 256)

/-- The index buffer is reserved before `ubAlloc` is looked at. -/
def buffers : Buffers :=
  if t.endRow block ≤ t.startRow block then []
  else if ubSize < ubAlloc t block then [(1, idxBytes t block)]
  else if t.isScatter then
    [(1, idxBytes t block), (2, rowBytes t), (2, rowBytes t), (1, rowBytes t),
      (1, idxBytes t block)]
  else [(1, idxBytes t block), (2, rowBytes t), (2, rowBytes t)]

/-- The kernel fits: the bytes that it passes to `InitBuffer`, the indices of a core with rows, and
unless it gives up a row. -/
structure Within : Prop where
  total : ∀ block < t.blocks, (buffers t block).passed ≤ ubSize
  indices : ∀ block < t.blocks, t.myRows block ≠ 0 → t.myRows block * 4 ≤ idxBytes t block
  row : ∀ block < t.blocks, t.myRows block ≠ 0 → ubAlloc t block ≤ ubSize →
    t.width * 4 ≤ rowBytes t

end GatherMm

/-! ## A batch of rows -/

variable (t : FeatureRows)

namespace FeatureRows

variable {t : FeatureRows}

section Narrow

variable (hdim : t.featDim * 4 ≤ ubSize)
include hdim

lemma rowAlignedBytes_eq : t.rowAlignedBytes = align32 (t.featDim * 4) := by
  rw [ubSize] at hdim
  rw [rowAlignedBytes, rowBytes, u32_eq (by omega : t.featDim * 4 < 2 ^ 32), u32_eq (by omega),
    align32]

lemma rightPadding_lt : t.rightPadding < 8 := by
  have hle := le_align32 (t.featDim * 4)
  have hlt := align32_lt (t.featDim * 4)
  have hdiv : align32 (t.featDim * 4) = 32 * ((t.featDim * 4 + 31) / 32) := by
    rw [align32, mul_comm]
  rw [ubSize] at hdim
  rw [rightPadding, rowAlignedElems, t.rowAlignedBytes_eq (by rwa [ubSize]), u32]
  omega

lemma batchBytes_eq {batch : ℕ} (hbatch : batch ≤ blockCountMax) :
    t.batchBytes batch = batch * align32 (t.featDim * 4) := by
  have hlt := align32_lt (t.featDim * 4)
  rw [ubSize] at hdim
  rw [blockCountMax] at hbatch
  have hle : batch * align32 (t.featDim * 4) ≤ 4095 * 196640 := Nat.mul_le_mul hbatch (by omega)
  rw [batchBytes, t.rowAlignedBytes_eq (by rwa [ubSize]), u32_eq (by omega)]

end Narrow

lemma batchItems_le (queues fixed : ℕ) :
    t.batchItems queues fixed ≤ blockCountMax := batchOf_le _ _ _

lemma one_le_batchItems (queues fixed : ℕ) : 1 ≤ t.batchItems queues fixed :=
  one_le_batchOf (by decide)

/-- **A kernel fits** if and only if its buffers for one row do. -/
lemma batchFits_iff {queues fixed : ℕ} {buffers : Buffers} (hqueues : 1 ≤ queues ∧ queues ≤ 4)
    (hpassed : buffers.passed = fixed + queues * t.batchBytes (t.batchItems queues fixed)) :
    BatchFits t (t.batchItems queues fixed) buffers ↔
      fixed + queues * align32 (t.featDim * 4) ≤ ubSize := by
  have hone := t.one_le_batchItems queues fixed
  have hmax := t.batchItems_le queues fixed
  have hrow (hdim : t.featDim * 4 ≤ ubSize) : buffers.passed ≤ ubSize ↔
      fixed + queues * align32 (t.featDim * 4) ≤ ubSize := by
    have hlt := align32_lt (t.featDim * 4)
    have hdivisor : u32 (queues * t.rowAlignedBytes) = queues * align32 (t.featDim * 4) := by
      have hwide : align32 (t.featDim * 4) ≤ 196640 := by
        rw [ubSize] at hdim
        omega
      have hmul := Nat.mul_le_mul hqueues.2 hwide
      rw [t.rowAlignedBytes_eq hdim, u32_eq (by omega)]
    rw [hpassed, t.batchBytes_eq hdim hmax, mul_left_comm, mul_comm (t.batchItems _ _),
      batchItems, hdivisor]
    refine batch_fits_iff (by decide) fun hpos => ?_
    rw [Nat.add_sub_cancel' (Nat.sub_pos_iff_lt.1 hpos).le]
    exact Nat.sub_le _ _
  constructor
  · intro h
    have hdim : t.featDim * 4 ≤ ubSize := by
      have hbytes : t.batchBytes (t.batchItems queues fixed) ≤
          queues * t.batchBytes (t.batchItems queues fixed) := Nat.le_mul_of_pos_left _ hqueues.1
      have htotal := h.total
      have hbatch := (Nat.le_mul_of_pos_left (t.featDim * 4) hone).trans h.rows
      rw [hpassed] at htotal
      omega
    exact (hrow hdim).1 h.total
  · intro h
    have hdim : t.featDim * 4 ≤ ubSize := by
      have hle := le_align32 (t.featDim * 4)
      have hmul : align32 (t.featDim * 4) ≤ queues * align32 (t.featDim * 4) :=
        Nat.le_mul_of_pos_left _ hqueues.1
      omega
    refine ⟨(hrow hdim).2 h, ?_, ?_, fun remaining => ?_⟩
    · rw [t.batchBytes_eq hdim hmax]
      exact Nat.mul_le_mul_left _ (le_align32 _)
    · have hlt := t.rightPadding_lt hdim
      omega
    · rw [blockCountMax] at hmax
      omega

end FeatureRows

/-! ## The three kernels on rows of features -/

/-- `ScatterAdd` fits if and only if a row has elements and the indices of a core fit next to two
rows. -/
lemma ScatterAdd.within_iff : ScatterAdd.Within t ↔
    0 < t.featDim ∧
      align32 (max 1 t.rowsPerCore * 4) + 2 * align32 (t.featDim * 4) ≤ ubSize := by
  have hfits (block : ℕ) : BatchFits t (batchItems t block) (buffers t block) ↔
      idxAlignedBytes t block + 2 * align32 (t.featDim * 4) ≤ ubSize := by
    refine t.batchFits_iff ⟨by decide, by decide⟩ ?_
    simp [Buffers.passed, buffers, batchItems, bufferNum]
    ring
  have hindex {block : ℕ} (hle : align32 (max 1 (t.myRows block) * 4) ≤ ubSize) :
      idxAlignedBytes t block = align32 (max 1 (t.myRows block) * 4) := by
    rw [ubSize] at hle
    exact u32_eq (by omega)
  constructor
  · intro h
    have hzero := (hfits 0).1 (h.fits 0 t.blocks_pos)
    have hrows := h.indices 0 t.blocks_pos
    have hsmall : align32 (max 1 (t.myRows 0) * 4) < 2 ^ 32 := by
      have hlt := align32_lt (max 1 (t.myRows 0) * 4)
      rw [ubSize] at hzero
      omega
    rw [idxAlignedBytes, u32_eq hsmall, t.myRows_zero] at hzero
    refine ⟨Nat.pos_of_ne_zero fun hdim => h.divisor ?_, hzero⟩
    rw [FeatureRows.rowAlignedBytes, FeatureRows.rowBytes, hdim]
    rfl
  · rintro ⟨hdim, hle⟩
    have hnarrow : t.featDim * 4 ≤ ubSize := by
      have hrow := le_align32 (t.featDim * 4)
      omega
    have hcore (block : ℕ) : align32 (max 1 (t.myRows block) * 4) ≤
        align32 (max 1 t.rowsPerCore * 4) := by
      have hrows := t.myRows_le block
      exact align32_mono (by omega)
    refine ⟨?_, fun block _ => (hfits block).2 ?_, fun block _ => ?_⟩
    · have hrow := le_align32 (t.featDim * 4)
      have hlt := align32_lt (t.featDim * 4)
      rw [ubSize] at hnarrow
      rw [t.rowAlignedBytes_eq (by rwa [ubSize]), bufferNum, u32_eq (by omega)]
      omega
    · have := hcore block
      rw [hindex (by omega)]
      omega
    · have := hcore block
      have hrows := le_align32 (max 1 (t.myRows block) * 4)
      rw [hindex (by omega)]
      omega

/-- `BackwardSegmentCmp` fits if and only if three rows do. -/
lemma BackwardSegmentCmp.within_iff : BackwardSegmentCmp.Within t ↔
    scratchBytes + 3 * align32 (t.featDim * 4) ≤ ubSize := by
  refine t.batchFits_iff ⟨by decide, by decide⟩ ?_
  simp [Buffers.passed, buffers, batchItems, bufferNum]
  ring

/-- `UpdateGradMinMax_hetero` fits if and only if four rows do. -/
lemma UpdateGradMinMaxHetero.within_iff : UpdateGradMinMaxHetero.Within t ↔
    scratchBytes + 4 * align32 (t.featDim * 4) ≤ ubSize := by
  refine t.batchFits_iff ⟨by decide, by decide⟩ ?_
  simp [Buffers.passed, buffers, batchItems, bufferNum]
  ring

/-! ## The second kernel of `GatherMM` -/

namespace GatherMm

/-- The bytes of at least 8 words, in whole blocks. -/
def wordBytes (x : ℕ) : ℕ := (max 8 x + 7) / 8 * 8 * 4

/-- When the buffers of the kernel fit.  A launch that adds up rows counts its index buffers, so it is
enough that the count is not cut; one that writes them directly does not. -/
def Fits (t : ScatterRows) : Prop :=
  0 < t.rowsPerCore → wordBytes t.rowsPerCore ≤ ubSize ∧
    if t.isScatter then
      ∀ block < t.blocks, t.myRows block ≠ 0 → ubAlloc t block ≤ ubSize →
        5 * wordBytes t.width + 2 * t.myRows block * 4 + 256 ≤ ubSize
    else ubAlloc t 0 ≤ ubSize → wordBytes t.rowsPerCore + 4 * wordBytes t.width ≤ ubSize

variable {t : ScatterRows} {block : ℕ}

lemma roundUp8_mul {x : ℕ} (hx : x * 4 ≤ ubSize) : u32 (roundUp8 x * 4) = wordBytes x := by
  rw [ubSize] at hx
  rw [roundUp8, wordBytes, u32_eq (by omega : max 8 x + 7 < 2 ^ 32), u32_eq (by omega)]

lemma le_wordBytes (x : ℕ) : x * 4 ≤ wordBytes x := by
  rw [wordBytes]
  omega

lemma wordBytes_mono {x y : ℕ} (h : x ≤ y) : wordBytes x ≤ wordBytes y := by
  rw [wordBytes, wordBytes]
  omega

lemma rowBytes_eq (hrow : t.width * 4 ≤ ubSize) : rowBytes t = wordBytes t.width :=
  roundUp8_mul hrow

lemma idxBytes_eq (hrows : t.myRows block * 4 ≤ ubSize) :
    idxBytes t block = wordBytes (t.myRows block) := roundUp8_mul hrows

/-- For rows that fit, the count of the kernel is not cut. -/
lemma ubAlloc_eq (hrow : t.width * 4 ≤ ubSize) (hrows : t.myRows block * 4 ≤ ubSize) :
    ubAlloc t block = if t.isScatter then
      5 * wordBytes t.width + 2 * t.myRows block * 4 + 256 else 4 * wordBytes t.width + 256 := by
  have hwords := rowBytes_eq hrow
  rw [ubSize] at hrow hrows
  have hub : ubElements t = (max 8 t.width + 7) / 8 * 8 := by
    rw [ubElements, roundUp8, u32_eq (by omega)]
  have hle : ubElements t ≤ t.width + 15 := by omega
  have hbytes : wordBytes t.width = ubElements t * 4 := by rw [wordBytes, hub]
  rw [ubAlloc, hbytes, u32_eq (by omega : 5 * ubElements t < 2 ^ 32),
    u32_eq (by omega : 2 * t.myRows block < 2 ^ 32), u32_eq (by omega : 4 * ubElements t < 2 ^ 32)]
  split
  · rw [u32_eq (by omega)]
    omega
  · rw [u32_eq (by omega)]
    omega

lemma passed_of_no_rows (hrows : t.myRows block = 0) : (buffers t block).passed = 0 := by
  rw [buffers, if_pos (Nat.sub_eq_zero_iff_le.1 hrows)]
  rfl

lemma passed_of_rows (hrows : t.myRows block ≠ 0) : (buffers t block).passed =
    if ubSize < ubAlloc t block then idxBytes t block
    else if t.isScatter then 2 * idxBytes t block + 5 * rowBytes t
    else idxBytes t block + 4 * rowBytes t := by
  rw [buffers, if_neg fun h => hrows (Nat.sub_eq_zero_of_le h)]
  split
  · simp [Buffers.passed]
  · split
    · simp [Buffers.passed]
      ring
    · simp [Buffers.passed]
      ring

/-- The index buffer is reserved in any case. -/
lemma idxBytes_le_passed (hrows : t.myRows block ≠ 0) :
    idxBytes t block ≤ (buffers t block).passed := by
  rw [passed_of_rows hrows]
  split
  · exact le_rfl
  · split <;> omega

/-- The indices of a core that fits are not cut. -/
lemma Within.rows_le (h : Within t) (hblock : block < t.blocks) (hrows : t.myRows block ≠ 0) :
    t.myRows block * 4 ≤ ubSize :=
  (h.indices block hblock hrows).trans ((idxBytes_le_passed hrows).trans (h.total block hblock))

/-- A row for which a core does not give up is not cut. -/
lemma Within.width_le (h : Within t) (hblock : block < t.blocks) (hrows : t.myRows block ≠ 0)
    (halloc : ubAlloc t block ≤ ubSize) : t.width * 4 ≤ ubSize := by
  have hrow := h.row block hblock hrows halloc
  have htotal := h.total block hblock
  rw [passed_of_rows hrows, if_neg (not_lt.2 halloc)] at htotal
  split at htotal <;> omega

lemma within_iff (t : ScatterRows) : Within t ↔ Fits t := by
  constructor
  · intro h hpos
    have hzero : t.myRows 0 ≠ 0 := by
      rw [t.myRows_zero]
      exact hpos.ne'
    have hrows := h.rows_le t.blocks_pos hzero
    have hidx := (idxBytes_le_passed hzero).trans (h.total 0 t.blocks_pos)
    rw [idxBytes_eq hrows, t.myRows_zero] at hidx
    refine ⟨hidx, ?_⟩
    by_cases hscatter : t.isScatter = true
    · rw [if_pos hscatter]
      intro block hblock hblockRows halloc
      have heq := ubAlloc_eq (h.width_le hblock hblockRows halloc) (h.rows_le hblock hblockRows)
      rw [if_pos hscatter] at heq
      rwa [← heq]
    · rw [if_neg hscatter]
      intro halloc
      have htotal := h.total 0 t.blocks_pos
      rw [passed_of_rows hzero, if_neg (not_lt.2 halloc), if_neg hscatter, idxBytes_eq hrows,
        rowBytes_eq (h.width_le t.blocks_pos hzero halloc), t.myRows_zero] at htotal
      exact htotal
  · intro h
    have hfits {block : ℕ} (hrows : t.myRows block ≠ 0) : t.myRows block * 4 ≤ ubSize ∧
        wordBytes (t.myRows block) ≤ wordBytes t.rowsPerCore ∧
        wordBytes t.rowsPerCore ≤ ubSize := by
      have hle := t.myRows_le block
      have hcore := (h (by omega)).1
      have hmono := wordBytes_mono hle
      have hbytes := le_wordBytes (t.myRows block)
      exact ⟨by omega, hmono, hcore⟩
    have hwidth {block : ℕ} (hblock : block < t.blocks) (hrows : t.myRows block ≠ 0)
        (halloc : ubAlloc t block ≤ ubSize) : t.width * 4 ≤ ubSize ∧
          (if t.isScatter then 2 * wordBytes (t.myRows block) + 5 * wordBytes t.width
            else wordBytes (t.myRows block) + 4 * wordBytes t.width) ≤ ubSize := by
      obtain ⟨hsmall, hmono, -⟩ := hfits hrows
      have hle := t.myRows_le block
      have hbytes := le_wordBytes t.width
      have hcond := (h (by omega)).2
      by_cases hscatter : t.isScatter = true
      · rw [if_pos hscatter] at hcond ⊢
        have hneed := hcond block hblock hrows halloc
        have hwords : 2 * wordBytes (t.myRows block) ≤ 2 * t.myRows block * 4 + 256 := by
          rw [wordBytes]
          omega
        exact ⟨by omega, by omega⟩
      · have hsame : ubAlloc t 0 = ubAlloc t block := by
          rw [ubAlloc, ubAlloc, if_neg hscatter, if_neg hscatter]
        rw [if_neg hscatter] at hcond ⊢
        have hneed := hcond (hsame.trans_le halloc)
        exact ⟨by omega, by omega⟩
    refine ⟨fun block hblock => ?_, fun block _ hrows => ?_, fun block hblock hrows halloc => ?_⟩
    · by_cases hrows : t.myRows block = 0
      · rw [passed_of_no_rows hrows]
        exact Nat.zero_le _
      · obtain ⟨hsmall, hmono, hcore⟩ := hfits hrows
        rw [passed_of_rows hrows, idxBytes_eq hsmall]
        split
        · exact hmono.trans hcore
        · rename_i halloc
          obtain ⟨hrow, hneed⟩ := hwidth hblock hrows (not_lt.1 halloc)
          rw [rowBytes_eq hrow]
          exact hneed
    · rw [idxBytes_eq (hfits hrows).1]
      exact le_wordBytes _
    · rw [rowBytes_eq (hwidth hblock hrows halloc).1]
      exact le_wordBytes _

end GatherMm

/-! ## The result -/

/-- When the buffers of the four kernels fit. -/
theorem budgets_iff (t : FeatureRows) (g : GatherMm.ScatterRows) :
    (ScatterAdd.Within t ↔ 0 < t.featDim ∧
      align32 (max 1 t.rowsPerCore * 4) + 2 * align32 (t.featDim * 4) ≤ ubSize) ∧
    (BackwardSegmentCmp.Within t ↔ scratchBytes + 3 * align32 (t.featDim * 4) ≤ ubSize) ∧
    (UpdateGradMinMaxHetero.Within t ↔ scratchBytes + 4 * align32 (t.featDim * 4) ≤ ubSize) ∧
    (GatherMm.Within g ↔ GatherMm.Fits g) :=
  ⟨ScatterAdd.within_iff t, BackwardSegmentCmp.within_iff t, UpdateGradMinMaxHetero.within_iff t,
    GatherMm.within_iff g⟩

/-- One row on one core. -/
def oneRow (featDim : ℕ) (h : featDim < 2 ^ 32) : FeatureRows where
  n := 1
  blocks := 1
  n_lt := one_lt_u32
  blocks_pos := Nat.one_pos
  featDim := featDim
  featDim_lt := h

/-- 49153 rows for a core, of one element each. -/
def manyRows : GatherMm.ScatterRows where
  n := 49153
  blocks := 1
  n_lt := by decide
  blocks_pos := Nat.one_pos
  width := 1
  width_lt := one_lt_u32
  isScatter := false

/-- One row that does not fit, and more indices than the buffer holds. -/
theorem budgets_exceeded :
    ¬ ScatterAdd.Within (oneRow 24576 (by decide)) ∧
      ¬ BackwardSegmentCmp.Within (oneRow 16384 (by decide)) ∧
      ¬ UpdateGradMinMaxHetero.Within (oneRow 12288 (by decide)) ∧
      ¬ GatherMm.Within manyRows := by
  refine ⟨fun h => ?_, fun h => ?_, fun h => ?_, fun h => ?_⟩
  · exact absurd (h.fits 0 (by decide)).total (by decide)
  · exact absurd h.total (by decide)
  · exact absurd h.total (by decide)
  · exact absurd (h.total 0 (by decide)) (by decide)

end DglAscend.Ascend
