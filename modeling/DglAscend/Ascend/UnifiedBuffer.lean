import Mathlib.Tactic

/-!
# The unified buffer

The kernels on vector cores reserve all their buffers at the start, out of 192 KB.  Here is what the
tilings share: rounding up to blocks of 32 bytes, the share of a core in the rows, and the size of a
batch that is got by dividing what is left of the buffer, with the rule that a batch has at least one
row (`batch_fits_iff`).
-/

namespace DglAscend.Ascend

/-- `static_cast<uint32_t>` -/
def u32 (x : ℕ) : ℕ := x % 2 ^ 32

/-- The size of the unified buffer. -/
def ubSize : ℕ := 192 * 1024

/-- `(n + ALIGN_BYTES - 1) / ALIGN_BYTES * ALIGN_BYTES` -/
def align32 (n : ℕ) : ℕ := (n + 31) / 32 * 32

/-- The calls of `InitBuffer`: how many buffers, and their length in bytes. -/
abbrev Buffers := List (ℕ × ℕ)

/-- The bytes passed to `InitBuffer`. -/
def Buffers.passed (bs : Buffers) : ℕ := (bs.map fun b => b.1 * b.2).sum

/-- `TPipe`: `InitBuffer` reserves whole blocks of 32 bytes. -/
structure Pipe where
  reserve : ℕ → ℕ
  reserve_eq : ∀ len, reserve len = align32 len

/-- The bytes that the calls reserve. -/
def Pipe.reserved (P : Pipe) (bs : Buffers) : ℕ := (bs.map fun b => b.1 * P.reserve b.2).sum

/-! ## Rounding up -/

lemma u32_lt (x : ℕ) : u32 x < 2 ^ 32 := Nat.mod_lt _ (by decide)

lemma one_lt_u32 : 1 < 2 ^ 32 := by decide

lemma u32_le (x : ℕ) : u32 x ≤ x := Nat.mod_le _ _

lemma u32_eq {x : ℕ} (h : x < 2 ^ 32) : u32 x = x := Nat.mod_eq_of_lt h

lemma le_align32 (n : ℕ) : n ≤ align32 n := by
  rw [align32]
  omega

lemma align32_lt (n : ℕ) : align32 n < n + 32 := by
  rw [align32]
  omega

lemma align32_mono {m n : ℕ} (h : m ≤ n) : align32 m ≤ align32 n := by
  rw [align32, align32]
  omega

lemma align32_mul (k : ℕ) : align32 (32 * k) = 32 * k := by
  rw [align32]
  omega

/-! ## Batches -/

/-- A batch takes what is left of the buffer, but has at least one row and at most `cap`. -/
def batchOf (available cost cap : ℕ) : ℕ := min cap (max 1 (available / cost))

variable {fixed available cost cap total : ℕ}

lemma one_le_batchOf (h : 1 ≤ cap) : 1 ≤ batchOf available cost cap :=
  le_min h (le_max_left _ _)

lemma batchOf_le (available cost cap : ℕ) : batchOf available cost cap ≤ cap := min_le_left _ _

/-- A batch of more than one row is no larger than what is left. -/
lemma batchOf_mul_le (h : 1 < batchOf available cost cap) :
    cost * batchOf available cost cap ≤ available := by
  have hle : batchOf available cost cap ≤ available / cost := by
    have hmax := min_le_right cap (max 1 (available / cost))
    rw [batchOf] at h ⊢
    omega
  exact (Nat.mul_le_mul_left cost hle).trans (Nat.mul_div_le available cost)

/-- **A batch fits** if and only if one row fits: the rule that a batch has at least one row is the only
one that goes beyond what is left. -/
theorem batch_fits_iff (hcap : 1 ≤ cap) (hroom : 0 < available → fixed + available ≤ total) :
    fixed + cost * batchOf available cost cap ≤ total ↔ fixed + cost ≤ total := by
  constructor
  · intro h
    have hone : cost * 1 ≤ cost * batchOf available cost cap :=
      Nat.mul_le_mul_left cost (one_le_batchOf hcap)
    omega
  · intro h
    by_cases hone : batchOf available cost cap = 1
    · rw [hone]
      omega
    · have hlt : 1 < batchOf available cost cap :=
        lt_of_le_of_ne (one_le_batchOf hcap) (Ne.symm hone)
      have hle := batchOf_mul_le hlt
      by_cases hpos : 0 < available
      · have hfit := hroom hpos
        omega
      · omega

/-! ## The rows of a core -/

/-- The rows of a kernel, shared out to its blocks in `uint32_t`. -/
structure EvenSplit where
  n : ℕ
  blocks : ℕ
  n_lt : n < 2 ^ 32
  blocks_pos : 0 < blocks

namespace EvenSplit

variable (s : EvenSplit)

def rowsPerCore : ℕ := u32 (s.n + s.blocks - 1) / s.blocks

def startRow (block : ℕ) : ℕ := u32 (block * s.rowsPerCore)

def endRow (block : ℕ) : ℕ := min (u32 (s.startRow block + s.rowsPerCore)) s.n

def myRows (block : ℕ) : ℕ := s.endRow block - s.startRow block

lemma rowsPerCore_le : s.rowsPerCore ≤ s.n := by
  have hpos := s.blocks_pos
  apply Nat.le_of_lt_succ
  apply Nat.div_lt_of_lt_mul
  have hmul : s.n ≤ s.blocks * s.n := Nat.le_mul_of_pos_left _ hpos
  rw [Nat.mul_succ]
  exact (u32_le _).trans_lt (by omega)

/-- A core that goes beyond `2 ^ 32` has no rows. -/
lemma myRows_le (block : ℕ) : s.myRows block ≤ s.rowsPerCore := by
  have hn := s.n_lt
  have hrows := s.rowsPerCore_le
  have hlt := u32_lt (block * s.rowsPerCore)
  rw [myRows, endRow, startRow]
  generalize u32 (block * s.rowsPerCore) = start at *
  rw [u32]
  omega

lemma myRows_zero : s.myRows 0 = s.rowsPerCore := by
  have hn := s.n_lt
  have hrows := s.rowsPerCore_le
  have hstart : s.startRow 0 = 0 := by
    rw [startRow, Nat.zero_mul]
    rfl
  rw [myRows, endRow, hstart, Nat.zero_add, u32_eq (hrows.trans_lt hn), min_eq_left hrows,
    Nat.sub_zero]

end EvenSplit

end DglAscend.Ascend
