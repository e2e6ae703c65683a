import DglAscend.Ascend.UnifiedBuffer

/-!
# The tiling of the edge softmax

`ComputeEdgeSoftmaxTiling` of `ascend/edge_softmax.cc` and the buffers of `KernelEdgeSoftmax::Init`.
The host counts four queues of a batch forward and five backward, and the kernel has four and seven;
so forward one row has to fit, and backward as many rows as the five queues have room for
(`inside_iff`).
-/

namespace DglAscend.Ascend.EdgeSoftmax

/-! ## The host -/

/-- `UB_RESERVED` -/
def ubReserved : ℕ := 2 * 1024

/-- `MAX_BATCH` -/
def maxBatchAra : ℕ := 255

/-- `MAX_BATCH_AR` -/
def maxBatchAr : ℕ := 4095

/-- `TMP_BUF_SIZE` -/
def tmpBufSize : ℕ := 32 * 1024

/-- What a launch of the kernel gets: there are nodes and edges, and the numbers are those of the
`uint32_t` fields. -/
structure Launch where
  numNodes : ℕ
  numEdges : ℕ
  numHeads : ℕ
  backward : Bool
  fp16 : Bool
  coreNum : ℤ
  nodes_pos : 0 < numNodes
  edges_pos : 0 < numEdges
  nodes_lt : numNodes < 2 ^ 32
  edges_lt : numEdges < 2 ^ 32
  heads_lt : numHeads < 2 ^ 32
  cores_lt : coreNum < 2 ^ 32

namespace Launch

variable (l : Launch)

/-- `if (coreNum <= 0) coreNum = 40;` -/
def cores : ℕ := if l.coreNum ≤ 0 then 40 else l.coreNum.toNat

def blockDim : ℕ := if l.numNodes < l.cores then l.numNodes else l.cores

def rowsPerCore : ℕ := if l.blockDim = 0 then 0 else u32 (l.numNodes + l.blockDim - 1) / l.blockDim

/-- The elements of `size` bytes in whole blocks, where `padded` is their bytes and `ALIGN_BYTES - 1`. -/
def wholeBlocks (size padded : ℕ) : ℕ :=
  if u32 (padded / 32 * 32 / size) = 0 then 32 / size else u32 (padded / 32 * 32 / size)

/-- `numHeadsAlignedF`, from a sum of type `size_t`. -/
def numHeadsAlignedF : ℕ := wholeBlocks 4 (l.numHeads * 4 + 31)

/-- `numHeadsAlignedH`, from a sum of 32 bits. -/
def numHeadsAlignedH : ℕ := wholeBlocks 2 (u32 (l.numHeads * 2 + 31))

def alignedCols : ℕ := if l.fp16 then l.numHeadsAlignedH else l.numHeadsAlignedF

/-- `numHeads == 1` -/
def isAR : Bool := l.numHeads = 1

def scalarBufs : ℕ := if l.backward then 2 else 3

def indptrCost : ℕ := u32 (u32 (l.rowsPerCore + 1) * 4)

def scalarBufSize : ℕ := if l.isAR then 32 else u32 (l.alignedCols * 4)

def fixedCost : ℕ := u32 (l.indptrCost + l.scalarBufs * l.scalarBufSize + tmpBufSize)

def batchCoeff : ℕ := if l.backward then 5 else 4

def elemBytes : ℕ := if l.fp16 then 4 + 2 else 4

def elemSize : ℕ := if l.isAR then l.elemBytes else u32 (l.alignedCols * l.elemBytes)

def batchCostPerRow : ℕ := u32 (l.batchCoeff * l.elemSize)

def maxBatchLimit : ℕ := if l.isAR then maxBatchAr else maxBatchAra

def maxBatch : ℕ :=
  if l.fixedCost < ubSize - ubReserved ∧ 0 < l.batchCostPerRow then
    batchOf (ubSize - ubReserved - l.fixedCost) l.batchCostPerRow l.maxBatchLimit
  else 1

/-! ## The kernel -/

/-- `startNode_` of a core -/
def startNode (block : ℕ) : ℕ := u32 (block * l.rowsPerCore)

/-- `endNode_` of a core -/
def endNode (block : ℕ) : ℕ := min (u32 (u32 (block + 1) * l.rowsPerCore)) l.numNodes

def actualRows (block : ℕ) : ℕ := l.endNode block - l.startNode block

def indptrBufSize (block : ℕ) : ℕ := max 32 (u32 (u32 (l.actualRows block + 1) * 4))

def elemPerRow : ℕ := if l.isAR then 1 else l.alignedCols

def halfElemPerRow : ℕ := if l.isAR then 1 else l.numHeadsAlignedH

def efeatBufSize : ℕ := u32 (l.maxBatch * l.elemPerRow * 4)

def efeatHalfBufSize : ℕ := u32 (l.maxBatch * l.halfElemPerRow * 2)

/-- The calls of `InitBuffer` in `Init`, in their order. -/
def buffers (block : ℕ) : Buffers :=
  [(1, l.indptrBufSize block), (2, l.efeatBufSize), (2, l.efeatBufSize)] ++
  (if l.fp16 then [(2, l.efeatHalfBufSize), (2, l.efeatHalfBufSize)] else []) ++
  (if l.backward then
    [(1, l.efeatBufSize), (2, l.efeatBufSize)] ++
      (if l.fp16 then [(1, l.efeatHalfBufSize), (2, l.efeatHalfBufSize)] else [])
  else []) ++
  [(1, l.scalarBufSize), (1, l.scalarBufSize), (1, l.scalarBufSize), (1, l.scalarBufSize),
    (1, tmpBufSize)]

/-- `for (bs = rowStart; bs < rowStart + degree; bs += maxBatch_)`: the sizes of the batches. -/
def rowSplit (maxBatch : ℕ) : ℕ → ℕ → List ℕ
  | 0, _ => []
  | fuel + 1, left =>
      if left = 0 then []
      else
        let batch := if maxBatch < left then maxBatch else left
        batch :: rowSplit maxBatch fuel (left - batch)

/-- The batches of a node with in-edges. -/
def batches (degree : ℕ) : List ℕ :=
  if degree ≤ l.maxBatch then [degree] else rowSplit l.maxBatch degree degree

end Launch

/-! ## What has to fit -/

/-- Everything is inside the unified buffer and the limits of the instructions: the buffers of every
core, the part of `indptr` in its buffer, the repeat counts of the broadcasts, which there are unless
there is one head, and their masks. -/
structure Inside (P : Pipe) (l : Launch) : Prop where
  bytes : ∀ block < l.blockDim, P.reserved (l.buffers block) ≤ ubSize
  indptr : ∀ block < l.blockDim, (l.actualRows block + 1) * 4 ≤ l.indptrBufSize block
  repeats : l.isAR = false → ∀ degree, ∀ batch ∈ l.batches degree, batch % 2 ^ 8 = batch
  mask : l.numHeads ≤ 64

/-- The bytes of a core with `rows` rows and batches of `batch` rows of `cols` columns. -/
def bytesNeeded (l : Launch) (batch : ℕ) : ℕ :=
  let cols := if l.numHeads = 1 then 1 else l.alignedCols
  let queues := if l.backward then 7 else 4
  align32 (max 32 ((l.rowsPerCore + 1) * 4)) + 4 * l.scalarBufSize + tmpBufSize +
    queues * (align32 (batch * cols * 4) + if l.fp16 then align32 (batch * cols * 2) else 0)

/-- How many rows the host finds room for with five queues. -/
def fiveQueueRows (l : Launch) : ℕ :=
  (ubSize - ubReserved - ((l.rowsPerCore + 1) * 4 + 2 * l.scalarBufSize + tmpBufSize)) /
    (5 * l.elemSize)

/-- When everything fits. -/
def Fits (l : Launch) : Prop :=
  l.numHeads ≤ 64 ∧ bytesNeeded l 1 ≤ ubSize ∧
    (l.backward = true →
      bytesNeeded l l.maxBatchLimit ≤ ubSize ∨ bytesNeeded l (fiveQueueRows l) ≤ ubSize)

/-! ## The rows of the cores -/

namespace Launch

variable {l : Launch}

lemma cores_pos (l : Launch) : 0 < l.cores := by
  rw [cores]
  split <;> omega

lemma blockDim_pos (l : Launch) : 0 < l.blockDim := by
  have hnodes := l.nodes_pos
  have hcores := l.cores_pos
  rw [blockDim]
  split
  · exact hnodes
  · exact hcores

lemma rowsPerCore_le (l : Launch) : l.rowsPerCore ≤ l.numNodes := by
  have hpos := l.blockDim_pos
  rw [rowsPerCore, if_neg hpos.ne']
  apply Nat.div_le_of_le_mul
  have hmul : l.blockDim - 1 ≤ (l.blockDim - 1) * l.numNodes :=
    Nat.le_mul_of_pos_right _ l.nodes_pos
  have hsplit : (l.blockDim - 1) * l.numNodes + l.numNodes = l.blockDim * l.numNodes := by
    rw [← Nat.succ_mul, Nat.succ_eq_add_one, Nat.sub_add_cancel hpos]
  exact (u32_le _).trans (by omega)

/-- A core that goes beyond `2 ^ 32` has no rows. -/
lemma actualRows_le (l : Launch) (block : ℕ) : l.actualRows block ≤ l.rowsPerCore := by
  have hnodes := l.nodes_lt
  have hrows := l.rowsPerCore_le
  have hnext : u32 (u32 (block + 1) * l.rowsPerCore) =
      u32 (u32 (block * l.rowsPerCore) + l.rowsPerCore) := by
    rw [u32, u32, u32, u32, Nat.mod_mul_mod, Nat.mod_add_mod, Nat.succ_mul]
  rw [actualRows, endNode, startNode, hnext]
  have hlt := u32_lt (block * l.rowsPerCore)
  generalize u32 (block * l.rowsPerCore) = start at *
  rw [u32]
  omega

lemma actualRows_zero (l : Launch) : l.actualRows 0 = l.rowsPerCore := by
  have hnodes := l.nodes_lt
  have hrows := l.rowsPerCore_le
  rw [actualRows, endNode, startNode, Nat.zero_mul, Nat.zero_add, u32_eq (by decide : 1 < 2 ^ 32),
    Nat.one_mul, u32_eq (hrows.trans_lt hnodes), min_eq_left hrows]
  rfl

/-! ## Sixty-four heads -/

/-- The columns of a row of a queue. -/
def cols (l : Launch) : ℕ := if l.numHeads = 1 then 1 else l.alignedCols

/-- How many queues of a batch the kernel has. -/
def queues (l : Launch) : ℕ := if l.backward then 7 else 4

/-- The bytes of one of the queues, with those of its half precision. -/
def queueBytes (l : Launch) (batch : ℕ) : ℕ :=
  align32 (batch * l.cols * 4) + if l.fp16 then align32 (batch * l.cols * 2) else 0

lemma bytesNeeded_eq (l : Launch) (batch : ℕ) : bytesNeeded l batch =
    align32 (max 32 ((l.rowsPerCore + 1) * 4)) + 4 * l.scalarBufSize + tmpBufSize +
      l.queues * l.queueBytes batch := rfl

lemma queueBytes_mono (l : Launch) {batch batch' : ℕ} (h : batch ≤ batch') :
    l.queueBytes batch ≤ l.queueBytes batch' := by
  have hcols : batch * l.cols ≤ batch' * l.cols := Nat.mul_le_mul_right _ h
  have hfloat := align32_mono (Nat.mul_le_mul_right 4 hcols)
  have hhalf := align32_mono (Nat.mul_le_mul_right 2 hcols)
  rw [queueBytes, queueBytes]
  split <;> omega

lemma bytesNeeded_mono (l : Launch) {batch batch' : ℕ} (h : batch ≤ batch') :
    bytesNeeded l batch ≤ bytesNeeded l batch' := by
  rw [bytesNeeded_eq, bytesNeeded_eq]
  exact Nat.add_le_add_left (Nat.mul_le_mul_left _ (l.queueBytes_mono h)) _

section Heads

variable (hheads : l.numHeads ≤ 64)
include hheads

lemma numHeadsAlignedF_eq : ∃ k, 1 ≤ k ∧ k ≤ 8 ∧ l.numHeadsAlignedF = 8 * k := by
  have haligned : (l.numHeads * 4 + 31) / 32 * 32 / 4 = 8 * ((l.numHeads + 7) / 8) := by omega
  rw [numHeadsAlignedF, wholeBlocks, haligned, u32_eq (by omega)]
  by_cases hzero : 8 * ((l.numHeads + 7) / 8) = 0
  · rw [if_pos hzero]
    exact ⟨1, by omega, by omega, by omega⟩
  · rw [if_neg hzero]
    exact ⟨(l.numHeads + 7) / 8, by omega, by omega, rfl⟩

lemma numHeadsAlignedH_eq : ∃ k, 1 ≤ k ∧ k ≤ 4 ∧ l.numHeadsAlignedH = 16 * k := by
  have haligned : (l.numHeads * 2 + 31) / 32 * 32 / 2 = 16 * ((l.numHeads + 15) / 16) := by omega
  rw [numHeadsAlignedH, u32_eq (by omega), wholeBlocks, haligned, u32_eq (by omega)]
  by_cases hzero : 16 * ((l.numHeads + 15) / 16) = 0
  · rw [if_pos hzero]
    exact ⟨1, by omega, by omega, by omega⟩
  · rw [if_neg hzero]
    exact ⟨(l.numHeads + 15) / 16, by omega, by omega, rfl⟩

lemma alignedCols_eq : ∃ k, 1 ≤ k ∧ k ≤ 8 ∧ l.alignedCols = 8 * k := by
  rw [alignedCols]
  split
  · obtain ⟨k, h1, h2, h3⟩ := l.numHeadsAlignedH_eq hheads
    exact ⟨2 * k, by omega, by omega, by omega⟩
  · exact l.numHeadsAlignedF_eq hheads

lemma cols_bounds : 1 ≤ l.cols ∧ l.cols ≤ 64 := by
  obtain ⟨k, h1, h2, h3⟩ := l.alignedCols_eq hheads
  rw [cols]
  split <;> omega

lemma scalarBufSize_eq : ∃ k, 1 ≤ k ∧ k ≤ 8 ∧ l.scalarBufSize = 32 * k := by
  obtain ⟨k, h1, h2, h3⟩ := l.alignedCols_eq hheads
  rw [scalarBufSize]
  split
  · exact ⟨1, le_rfl, by omega, rfl⟩
  · refine ⟨k, h1, h2, ?_⟩
    rw [h3, u32_eq (by omega)]
    omega

lemma elemSize_eq : l.elemSize = l.cols * l.elemBytes := by
  obtain ⟨k, h1, h2, h3⟩ := l.alignedCols_eq hheads
  have hbytes : l.elemBytes ≤ 6 := by
    rw [elemBytes]
    split <;> omega
  rw [elemSize, cols, isAR]
  by_cases hone : l.numHeads = 1
  · rw [if_pos (decide_eq_true hone), if_pos hone, Nat.one_mul]
  · have hle : l.alignedCols * l.elemBytes ≤ 64 * 6 := Nat.mul_le_mul (by omega) hbytes
    rw [if_neg (by simpa using hone), if_neg hone, u32_eq (by omega)]

lemma batchCostPerRow_eq : l.batchCostPerRow = l.batchCoeff * (l.cols * l.elemBytes) := by
  have hcols := (l.cols_bounds hheads).2
  have hbytes : l.elemBytes ≤ 6 := by
    rw [elemBytes]
    split <;> omega
  have hcoeff : l.batchCoeff ≤ 5 := by
    rw [batchCoeff]
    split <;> omega
  have hle : l.batchCoeff * (l.cols * l.elemBytes) ≤ 5 * (64 * 6) :=
    Nat.mul_le_mul hcoeff (Nat.mul_le_mul hcols hbytes)
  rw [batchCostPerRow, l.elemSize_eq hheads, u32_eq (by omega)]

lemma batchCostPerRow_pos : 0 < l.batchCostPerRow := by
  have hcols := (l.cols_bounds hheads).1
  have hbytes : 0 < l.elemBytes := by
    rw [elemBytes]
    split <;> omega
  have hcoeff : 0 < l.batchCoeff := by
    rw [batchCoeff]
    split <;> omega
  rw [l.batchCostPerRow_eq hheads]
  exact Nat.mul_pos hcoeff (Nat.mul_pos hcols hbytes)

end Heads

lemma maxBatch_le (l : Launch) : l.maxBatch ≤ l.maxBatchLimit := by
  rw [maxBatch]
  split
  · exact batchOf_le _ _ _
  · rw [maxBatchLimit, maxBatchAr, maxBatchAra]
    split <;> omega

lemma one_le_maxBatch (l : Launch) : 1 ≤ l.maxBatch := by
  rw [maxBatch]
  split
  · apply one_le_batchOf
    rw [maxBatchLimit, maxBatchAr, maxBatchAra]
    split <;> omega
  · exact le_rfl

lemma maxBatchLimit_le (l : Launch) : l.maxBatchLimit ≤ 4095 := by
  rw [maxBatchLimit, maxBatchAr, maxBatchAra]
  split <;> omega

/-- The batches of a node are no larger than the largest one. -/
lemma mem_rowSplit {maxBatch fuel left batch : ℕ} (h : batch ∈ rowSplit maxBatch fuel left) :
    batch ≤ maxBatch := by
  induction fuel generalizing left with
  | zero => cases h
  | succ fuel ih =>
      rw [rowSplit] at h
      split at h
      · cases h
      · rcases List.mem_cons.1 h with rfl | h
        · split <;> omega
        · exact ih h

lemma batch_le {degree batch : ℕ} (h : batch ∈ l.batches degree) : batch ≤ l.maxBatch := by
  rw [batches] at h
  split at h
  · rename_i hle
    rwa [List.mem_singleton.1 h]
  · exact mem_rowSplit h

/-! ## The buffers -/

/-- What the buffers take when every one is rounded up: four queues forward, seven backward. -/
lemma sum_rounded {round : ℕ → ℕ} (hmul : ∀ k, round (32 * k) = 32 * k) {tmp : ℕ}
    (htmp : round tmp = tmp) (indptr full half k : ℕ) (fp16 backward : Bool) :
    (([(1, indptr), (2, full), (2, full)] ++
      (if fp16 then [(2, half), (2, half)] else []) ++
      (if backward then
        [(1, full), (2, full)] ++ (if fp16 then [(1, half), (2, half)] else [])
      else []) ++
      [(1, 32 * k), (1, 32 * k), (1, 32 * k), (1, 32 * k), (1, tmp)]).map
        fun b : ℕ × ℕ => b.1 * round b.2).sum =
      round indptr + 4 * (32 * k) + tmp +
        (if backward then 7 else 4) * (round full + if fp16 then round half else 0) := by
  cases fp16 with
  | false =>
      cases backward with
      | false =>
          simp [hmul, htmp]
          ring
      | true =>
          simp [hmul, htmp]
          ring
  | true =>
      cases backward with
      | false =>
          simp [hmul, htmp]
          ring
      | true =>
          simp [hmul, htmp]
          ring

section Heads

variable (hheads : l.numHeads ≤ 64)
include hheads

lemma efeatBufSize_eq : l.efeatBufSize = l.maxBatch * l.cols * 4 := by
  have hcols : l.elemPerRow = l.cols := by
    rw [elemPerRow, cols, isAR]
    by_cases hone : l.numHeads = 1
    · rw [if_pos (decide_eq_true hone), if_pos hone]
    · rw [if_neg (by simpa using hone), if_neg hone]
  have hle : l.maxBatch * l.cols ≤ 4095 * 64 :=
    Nat.mul_le_mul (l.maxBatch_le.trans l.maxBatchLimit_le) (l.cols_bounds hheads).2
  rw [efeatBufSize, hcols, u32_eq (by omega)]

lemma efeatHalfBufSize_eq (h16 : l.fp16 = true) :
    l.efeatHalfBufSize = l.maxBatch * l.cols * 2 := by
  have hcols : l.halfElemPerRow = l.cols := by
    rw [halfElemPerRow, cols, isAR, alignedCols, if_pos h16]
    by_cases hone : l.numHeads = 1
    · rw [if_pos (decide_eq_true hone), if_pos hone]
    · rw [if_neg (by simpa using hone), if_neg hone]
  have hle : l.maxBatch * l.cols ≤ 4095 * 64 :=
    Nat.mul_le_mul (l.maxBatch_le.trans l.maxBatchLimit_le) (l.cols_bounds hheads).2
  rw [efeatHalfBufSize, hcols, u32_eq (by omega)]

lemma reserved_eq (P : Pipe) (block : ℕ) : P.reserved (l.buffers block) =
    align32 (l.indptrBufSize block) + 4 * l.scalarBufSize + tmpBufSize +
      l.queues * l.queueBytes l.maxBatch := by
  obtain ⟨k, -, -, hscalar⟩ := l.scalarBufSize_eq hheads
  have hreserve : P.reserve = align32 := funext P.reserve_eq
  have htmp : align32 tmpBufSize = tmpBufSize := align32_mul 1024
  rw [Pipe.reserved, hreserve, buffers, l.efeatBufSize_eq hheads, hscalar,
    sum_rounded align32_mul htmp, queues, queueBytes]
  cases h16 : l.fp16 with
  | false => rfl
  | true => rw [if_pos rfl, if_pos rfl, l.efeatHalfBufSize_eq hheads h16]

/-! ## The largest batch -/

variable (hrows : (l.rowsPerCore + 1) * 4 ≤ ubSize)
include hrows

lemma fixedCost_eq : l.fixedCost =
    (l.rowsPerCore + 1) * 4 + l.scalarBufs * l.scalarBufSize + tmpBufSize := by
  obtain ⟨k, -, hk, hscalar⟩ := l.scalarBufSize_eq hheads
  have hbufs : l.scalarBufs ≤ 3 := by
    rw [scalarBufs]
    split <;> omega
  have hmul : l.scalarBufs * l.scalarBufSize ≤ 3 * 256 := Nat.mul_le_mul hbufs (by omega)
  rw [ubSize] at hrows
  rw [fixedCost, indptrCost, u32_eq (by omega : l.rowsPerCore + 1 < 2 ^ 32),
    u32_eq (by omega : (l.rowsPerCore + 1) * 4 < 2 ^ 32), tmpBufSize, u32_eq (by omega)]

lemma forward_fits (hforward : l.backward = false) (hone : bytesNeeded l 1 ≤ ubSize) :
    bytesNeeded l l.maxBatch ≤ ubSize := by
  by_cases hsmall : l.maxBatch = 1
  · rwa [hsmall]
  · have hfixed := l.fixedCost_eq hheads hrows
    obtain ⟨k, -, hk, hscalar⟩ := l.scalarBufSize_eq hheads
    have hlarge : 1 < l.maxBatch := lt_of_le_of_ne l.one_le_maxBatch (Ne.symm hsmall)
    have hcost : l.fixedCost < ubSize - ubReserved ∧
        l.batchCostPerRow * l.maxBatch ≤ ubSize - ubReserved - l.fixedCost := by
      rw [maxBatch] at hlarge ⊢
      split at hlarge
      · rename_i hcond
        rw [if_pos hcond]
        exact ⟨hcond.1, batchOf_mul_le hlarge⟩
      · omega
    have hbufs : l.scalarBufs = 3 := by
      rw [scalarBufs, hforward]
      rfl
    have hqueues : l.queues = 4 := by
      rw [queues, hforward]
      rfl
    have hrow : l.batchCostPerRow = 4 * (l.cols * l.elemBytes) := by
      rw [l.batchCostPerRow_eq hheads, batchCoeff, hforward]
      rfl
    have hbytes : l.queueBytes l.maxBatch ≤ l.cols * l.elemBytes * l.maxBatch + 62 := by
      have hfloat := align32_lt (l.maxBatch * l.cols * 4)
      have hhalf := align32_lt (l.maxBatch * l.cols * 2)
      rw [queueBytes, elemBytes]
      split
      · rw [mul_comm (l.cols * _), ← mul_assoc]
        omega
      · rw [mul_comm (l.cols * _), ← mul_assoc]
        omega
    have hindptr := align32_lt (max 32 ((l.rowsPerCore + 1) * 4))
    rw [hrow, mul_assoc, hfixed, hbufs] at hcost
    rw [bytesNeeded_eq, hqueues]
    rw [ubSize, tmpBufSize] at *
    rw [ubReserved] at hcost
    omega

/-- Backward, the largest batch is what five queues have room for, inside the limits. -/
lemma maxBatch_backward (hbackward : l.backward = true) :
    l.maxBatch = min l.maxBatchLimit (max 1 (fiveQueueRows l)) := by
  have hfixed := l.fixedCost_eq hheads hrows
  have hbufs : l.scalarBufs = 2 := by
    rw [scalarBufs, hbackward]
    rfl
  have hrow : l.batchCostPerRow = 5 * l.elemSize := by
    rw [l.batchCostPerRow_eq hheads, l.elemSize_eq hheads, batchCoeff, hbackward]
    rfl
  have hlimit : 1 ≤ l.maxBatchLimit := l.one_le_maxBatch.trans l.maxBatch_le
  rw [hbufs] at hfixed
  rw [fiveQueueRows, ← hfixed, ← hrow, maxBatch]
  by_cases hcond : l.fixedCost < ubSize - ubReserved
  · rw [if_pos ⟨hcond, l.batchCostPerRow_pos hheads⟩, batchOf]
  · rw [if_neg fun h => hcond h.1, Nat.sub_eq_zero_of_le (not_lt.1 hcond), Nat.zero_div]
    omega

lemma bytesNeeded_maxBatch_iff : bytesNeeded l l.maxBatch ≤ ubSize ↔
    bytesNeeded l 1 ≤ ubSize ∧ (l.backward = true →
      bytesNeeded l l.maxBatchLimit ≤ ubSize ∨ bytesNeeded l (fiveQueueRows l) ≤ ubSize) := by
  constructor
  · intro h
    refine ⟨(l.bytesNeeded_mono l.one_le_maxBatch).trans h, fun hbackward => ?_⟩
    rw [l.maxBatch_backward hheads hrows hbackward] at h
    by_cases hlimit : l.maxBatchLimit ≤ max 1 (fiveQueueRows l)
    · left
      rwa [min_eq_left hlimit] at h
    · right
      rw [min_eq_right (not_le.1 hlimit).le] at h
      exact (l.bytesNeeded_mono (le_max_right _ _)).trans h
  · rintro ⟨hone, hbackward⟩
    cases hmode : l.backward with
    | false => exact l.forward_fits hheads hrows hmode hone
    | true =>
        rw [l.maxBatch_backward hheads hrows hmode]
        rcases hbackward hmode with hlimit | hfive
        · exact (l.bytesNeeded_mono (min_le_left _ _)).trans hlimit
        · refine (l.bytesNeeded_mono (min_le_right _ _)).trans ?_
          by_cases hzero : fiveQueueRows l ≤ 1
          · rwa [max_eq_left hzero]
          · rwa [max_eq_right (not_le.1 hzero).le]

end Heads

/-- The rows of a core that fits are not cut. -/
lemma indptrBufSize_le (l : Launch) (hrows : (l.rowsPerCore + 1) * 4 ≤ ubSize) (block : ℕ) :
    (l.actualRows block + 1) * 4 ≤ l.indptrBufSize block ∧
      align32 (l.indptrBufSize block) ≤ align32 (max 32 ((l.rowsPerCore + 1) * 4)) := by
  have hle := l.actualRows_le block
  rw [ubSize] at hrows
  rw [indptrBufSize, u32_eq (by omega : l.actualRows block + 1 < 2 ^ 32),
    u32_eq (by omega : (l.actualRows block + 1) * 4 < 2 ^ 32)]
  exact ⟨le_max_right _ _, align32_mono (by omega)⟩

end Launch

/-! ## The result -/

/-- **The kernel stays inside the unified buffer** and the limits of its instructions if and only if there
are at most 64 heads, one row fits, and backward the batch that the host plans for five queues fits
seven times. -/
theorem inside_iff (P : Pipe) (l : Launch) : Inside P l ↔ Fits l := by
  constructor
  · intro h
    have hblock := l.blockDim_pos
    have hindptr := h.indptr 0 hblock
    have hbytes := h.bytes 0 hblock
    rw [l.reserved_eq h.mask, Launch.indptrBufSize] at hbytes
    rw [Launch.indptrBufSize] at hindptr
    rw [l.actualRows_zero] at hindptr hbytes
    have hlt := u32_lt (u32 (l.rowsPerCore + 1) * 4)
    have hsmall : (l.rowsPerCore + 1) * 4 < 2 ^ 32 := by omega
    have hrow : u32 (u32 (l.rowsPerCore + 1) * 4) = (l.rowsPerCore + 1) * 4 := by
      rw [u32_eq (by omega : l.rowsPerCore + 1 < 2 ^ 32), u32_eq hsmall]
    rw [hrow, ← Launch.bytesNeeded_eq] at hbytes
    have hrows : (l.rowsPerCore + 1) * 4 ≤ ubSize := by
      have hle := le_align32 (max 32 ((l.rowsPerCore + 1) * 4))
      rw [Launch.bytesNeeded_eq] at hbytes
      omega
    exact ⟨h.mask, (l.bytesNeeded_maxBatch_iff h.mask hrows).1 hbytes⟩
  · rintro ⟨hheads, hfits⟩
    have hrows : (l.rowsPerCore + 1) * 4 ≤ ubSize := by
      have hle := le_align32 (max 32 ((l.rowsPerCore + 1) * 4))
      have hone := hfits.1
      rw [Launch.bytesNeeded_eq] at hone
      omega
    have hmax := (l.bytesNeeded_maxBatch_iff hheads hrows).2 hfits
    refine ⟨fun block _ => ?_, fun block _ => (l.indptrBufSize_le hrows block).1, ?_, hheads⟩
    · have hle := (l.indptrBufSize_le hrows block).2
      rw [Launch.bytesNeeded_eq] at hmax
      rw [l.reserved_eq hheads]
      omega
    · intro hara degree batch hbatch
      have hle := (Launch.batch_le hbatch).trans l.maxBatch_le
      rw [Launch.maxBatchLimit, if_neg (by rw [hara]; exact Bool.noConfusion),
        maxBatchAra] at hle
      omega

/-- One edge, in single precision on 40 cores. -/
def oneEdge (numHeads : ℕ) (backward : Bool) (h : numHeads < 2 ^ 32) : Launch where
  numNodes := 1
  numEdges := 1
  numHeads := numHeads
  backward := backward
  fp16 := false
  coreNum := 40
  nodes_pos := Nat.one_pos
  edges_pos := Nat.one_pos
  nodes_lt := by decide
  edges_lt := by decide
  heads_lt := h
  cores_lt := by decide

/-- Backward with 64 heads the batches have 125 rows, and seven queues of them do not fit; forward with
65 heads the mask is too large. -/
theorem outside_sixtyFour :
    ¬ Inside ⟨align32, fun _ => rfl⟩ (oneEdge 64 true (by decide)) ∧
      ¬ Inside ⟨align32, fun _ => rfl⟩ (oneEdge 65 false (by decide)) := by
  constructor
  · intro h
    exact absurd (h.bytes 0 (by decide)) (by decide)
  · intro h
    exact absurd h.mask (by decide)

end DglAscend.Ascend.EdgeSoftmax
