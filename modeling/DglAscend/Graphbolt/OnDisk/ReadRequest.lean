import Mathlib.Tactic

/-!
# Aligned reads (`graphbolt/src/cnumpy.cc`)

A file that is opened with `O_DIRECT` is read in whole blocks.  A `ReadRequest` asks for
`readLen` bytes at `offset`, and reads the blocks that contain them into a buffer.
-/

namespace DglAscend.Graphbolt

/-- `x & ~m` -/
def andNot (x m : ℕ) : ℕ := x ^^^ (x &&& m)

/-- With the mask of a power of two, this rounds down to a multiple. -/
lemma andNot_two_pow_sub_one (x k : ℕ) : andNot x (2 ^ k - 1) = x / 2 ^ k * 2 ^ k := by
  refine Nat.eq_of_testBit_eq fun i => ?_
  rw [andNot, Nat.testBit_xor, Nat.testBit_and, Nat.testBit_two_pow_sub_one, Nat.mul_comm,
    Nat.testBit_two_pow_mul, Nat.testBit_div_two_pow]
  by_cases hi : i < k
  · simp [hi]
  · simp [hi, Nat.not_lt.1 hi]

/-- Addresses are distances: `destination` from the start of the result, `alignedReadBuffer`
from the start of the read buffer of a worker. -/
structure ReadRequest where
  destination : ℕ
  readLen : ℕ
  offset : ℕ
  blockSize : ℕ
  alignedReadBuffer : ℕ
deriving DecidableEq, Repr

namespace ReadRequest

def alignedOffset (r : ReadRequest) : ℕ := andNot r.offset (r.blockSize - 1)

def readBuffer (r : ReadRequest) : ℕ := r.alignedReadBuffer + r.offset - r.alignedOffset

def alignedReadSize (r : ReadRequest) : ℕ :=
  let endOffset := r.offset + r.readLen
  let alignedEndOffset := andNot (endOffset + r.blockSize - 1) (r.blockSize - 1)
  alignedEndOffset - r.alignedOffset

def minimumReadSize (r : ReadRequest) : ℕ := r.offset + r.readLen - r.alignedOffset

/-- What a read of `actualReadLen` bytes leaves to be read. -/
def remainingReadLen (r : ReadRequest) (actualReadLen : ℕ) : ℕ :=
  r.minimumReadSize - actualReadLen

def remainingUsefulReadLen (r : ReadRequest) (actualReadLen : ℕ) : ℕ :=
  min (r.remainingReadLen actualReadLen) r.readLen

def usefulReadLen (r : ReadRequest) (actualReadLen : ℕ) : ℕ :=
  r.readLen - r.remainingUsefulReadLen actualReadLen

/-- The bytes between the start of the first block and the data. -/
def padding (r : ReadRequest) : ℕ := r.offset - r.alignedOffset

/-- What is left of the data is what was not useful. -/
lemma remainingUsefulReadLen_eq (r : ReadRequest) (actual : ℕ) :
    r.remainingUsefulReadLen actual = r.readLen - r.usefulReadLen actual := by
  rw [usefulReadLen, remainingUsefulReadLen]
  omega

section Aligned

variable {r : ReadRequest} (hblock : ∃ k, r.blockSize = 2 ^ k)

include hblock

lemma alignedOffset_eq : r.alignedOffset = r.offset / r.blockSize * r.blockSize := by
  obtain ⟨k, hk⟩ := hblock
  rw [alignedOffset, hk, andNot_two_pow_sub_one]

lemma alignedOffset_le : r.alignedOffset ≤ r.offset := by
  rw [alignedOffset_eq hblock]
  exact Nat.div_mul_le_self _ _

lemma offset_eq : r.offset = r.alignedOffset + r.padding :=
  (Nat.add_sub_cancel' (alignedOffset_le hblock)).symm

lemma minimumReadSize_eq : r.minimumReadSize = r.padding + r.readLen := by
  rw [minimumReadSize, padding]
  have := alignedOffset_le hblock
  omega

lemma readBuffer_eq : r.readBuffer = r.alignedReadBuffer + r.padding := by
  rw [readBuffer, padding, Nat.add_sub_assoc (alignedOffset_le hblock)]

/-- Of a read, the bytes behind the padding are useful, as far as they were asked for. -/
lemma usefulReadLen_eq (actual : ℕ) : r.usefulReadLen actual = min (actual - r.padding) r.readLen := by
  rw [usefulReadLen, remainingUsefulReadLen, remainingReadLen, minimumReadSize_eq hblock]
  omega

/-- The useful bytes lie in the part of the buffer that was read. -/
lemma padding_add_lt {actual j : ℕ} (hj : j < r.usefulReadLen actual) : r.padding + j < actual := by
  rw [usefulReadLen_eq hblock] at hj
  omega

/-- A read that covers more than the padding but not all makes the request shorter. -/
lemma usefulReadLen_pos {actual : ℕ} (hmore : r.padding < actual)
    (hshort : r.remainingReadLen actual ≠ 0) : 0 < r.usefulReadLen actual := by
  rw [remainingReadLen, minimumReadSize_eq hblock] at hshort
  rw [usefulReadLen_eq hblock]
  omega

lemma usefulReadLen_of_remaining_eq_zero {actual : ℕ} (hfull : r.remainingReadLen actual = 0) :
    r.usefulReadLen actual = r.readLen := by
  rw [remainingReadLen, minimumReadSize_eq hblock] at hfull
  rw [usefulReadLen_eq hblock]
  omega

/-- The blocks of the data fit into the blocks of one feature and one more block. -/
lemma alignedReadSize_le {featureSize : ℕ} (hlen : r.readLen ≤ featureSize) :
    r.alignedReadSize ≤ andNot (featureSize + r.blockSize - 1) (r.blockSize - 1) + r.blockSize := by
  obtain ⟨k, hk⟩ := hblock
  have hpos : 0 < 2 ^ k := Nat.two_pow_pos k
  rw [alignedReadSize, alignedOffset, hk]
  simp only [andNot_two_pow_sub_one]
  generalize 2 ^ k = b at hpos
  -- the end of the data is at most a feature behind the block after its start
  have hstart : r.offset < (r.offset / b + 1) * b := by
    rw [Nat.add_mul, Nat.one_mul]
    exact Nat.lt_div_mul_add hpos
  have hfeature : featureSize ≤ (featureSize + b - 1) / b * b := by
    have := Nat.lt_div_mul_add (a := featureSize + b - 1) hpos
    omega
  have hend : r.offset + r.readLen ≤ (r.offset / b + 1 + (featureSize + b - 1) / b) * b := by
    rw [Nat.add_mul (r.offset / b + 1)]
    omega
  have hup : (r.offset + r.readLen + b - 1) / b ≤ r.offset / b + 1 + (featureSize + b - 1) / b := by
    rw [← Nat.lt_succ_iff, Nat.div_lt_iff_lt_mul hpos, Nat.succ_mul]
    omega
  have hmul := Nat.mul_le_mul_right b hup
  rw [Nat.add_mul, Nat.add_mul, Nat.one_mul] at hmul
  omega

/-- The minimum is no more than what is asked for. -/
lemma minimumReadSize_le_alignedReadSize : r.minimumReadSize ≤ r.alignedReadSize := by
  obtain ⟨k, hk⟩ := hblock
  have hpos : 0 < 2 ^ k := Nat.two_pow_pos k
  rw [minimumReadSize, alignedReadSize, alignedOffset, hk]
  simp only [andNot_two_pow_sub_one]
  generalize 2 ^ k = b at hpos
  have := Nat.lt_div_mul_add (a := r.offset + r.readLen + b - 1) hpos
  omega

end Aligned

end ReadRequest

end DglAscend.Graphbolt
