import Mathlib.Data.BitVec
import Mathlib.Tactic

/-!
# Words of two lanes

A vector unit of 32 bit lanes that computes with words of 64 bits: the two lanes of a word, its negation
lane by lane (`neg_eq_joinLanes`), and the two tests for zero that need no comparison, a minimum that is
clamped (`clampedMin_eq`) and the smallest magnitude of an image (`foldl_min_abs_eq_zero_iff`).
-/

namespace DglAscend

/-- A lane of the vector unit. -/
abbrev Lane := BitVec 32

/-- An instruction on the first `n` lanes leaves the others as they are. -/
def lanewise {α : Type*} (n : ℕ) (dst f : ℕ → α) : ℕ → α := fun l => if l < n then f l else dst l

lemma lanewise_of_lt {α : Type*} {n l : ℕ} {dst f : ℕ → α} (h : l < n) : lanewise n dst f l = f l :=
  if_pos h

/-! ## The lanes of a word -/

/-- The low half of a word. -/
def loLane (w : BitVec 64) : Lane := w.setWidth 32

/-- The high half of a word. -/
def hiLane (w : BitVec 64) : Lane := (w >>> 32).setWidth 32

/-- The word of two lanes. -/
def joinLanes (lo hi : Lane) : BitVec 64 := hi ++ lo

lemma toNat_joinLanes (lo hi : Lane) :
    (joinLanes lo hi).toNat = hi.toNat * 2 ^ 32 + lo.toNat := by
  rw [joinLanes, BitVec.toNat_append, Nat.shiftLeft_eq, Nat.mul_comm,
    ← Nat.two_pow_add_eq_or_of_lt lo.isLt]

variable (w : BitVec 64)

lemma toNat_loLane : (loLane w).toNat = w.toNat % 2 ^ 32 := by
  rw [loLane, BitVec.toNat_setWidth]

lemma toNat_hiLane : (hiLane w).toNat = w.toNat / 2 ^ 32 := by
  have hw := w.isLt
  rw [hiLane, BitVec.toNat_setWidth, BitVec.toNat_ushiftRight, Nat.shiftRight_eq_div_pow]
  omega

lemma joinLanes_lo_hi : joinLanes (loLane w) (hiLane w) = w := by
  apply BitVec.eq_of_toNat_eq
  rw [toNat_joinLanes, toNat_loLane, toNat_hiLane]
  omega

lemma loLane_join (lo hi : Lane) : loLane (joinLanes lo hi) = lo := by
  have hlo := lo.isLt
  apply BitVec.eq_of_toNat_eq
  rw [toNat_loLane, toNat_joinLanes]
  omega

lemma hiLane_join (lo hi : Lane) : hiLane (joinLanes lo hi) = hi := by
  have hlo := lo.isLt
  apply BitVec.eq_of_toNat_eq
  rw [toNat_hiLane, toNat_joinLanes]
  omega

/-- **The negation of a word**: the borrow out of the low lane is one, unless that lane is zero. -/
theorem neg_eq_joinLanes :
    -w = joinLanes (-loLane w) (-hiLane w - if loLane w = 0 then 0 else 1) := by
  have hw := w.isLt
  have hlo := toNat_loLane w
  have hhi := toNat_hiLane w
  apply BitVec.eq_of_toNat_eq
  rw [toNat_joinLanes, BitVec.toNat_neg, BitVec.toNat_sub, BitVec.toNat_neg, BitVec.toNat_neg]
  by_cases h : loLane w = 0
  · have hzero : (loLane w).toNat = 0 := by
      rw [h]
      rfl
    have h0 : (0 : Lane).toNat = 0 := rfl
    rw [if_pos h, h0]
    omega
  · have hpos : (loLane w).toNat ≠ 0 := fun h0 => h (BitVec.eq_of_toNat_eq h0)
    have h1 : (1 : Lane).toNat = 1 := rfl
    rw [if_neg h, h1]
    omega

lemma loLane_neg : loLane (-w) = -loLane w := by
  rw [neg_eq_joinLanes, loLane_join]

lemma hiLane_neg : hiLane (-w) = -hiLane w - if loLane w = 0 then 0 else 1 := by
  rw [neg_eq_joinLanes, hiLane_join]

/-! ## Tests for zero -/

/-- The smaller of two signed lanes. -/
def signedMin (a b : Lane) : Lane := if a.slt b then a else b

/-- The larger of two signed lanes. -/
def signedMax (a b : Lane) : Lane := if a.slt b then b else a

/-- A lane or its negation is negative, the smallest lane included, which is its own negation. -/
lemma toInt_signedMin_neg {x : Lane} (hx : x ≠ 0) : (signedMin x (-x)).toInt < 0 := by
  have hne : x.toInt ≠ 0 := fun h => hx (BitVec.eq_of_toInt_eq h)
  have hlt := x.toInt_lt
  have hle := x.le_toInt
  rw [signedMin]
  by_cases h : x.slt (-x) = true
  · rw [if_pos h]
    rw [BitVec.slt_iff_toInt_lt, BitVec.toInt_neg, Int.bmod_def] at h
    omega
  · rw [if_neg h]
    rw [BitVec.slt_iff_toInt_lt, BitVec.toInt_neg, Int.bmod_def] at h
    rw [BitVec.toInt_neg, Int.bmod_def]
    omega

/-- `max(min(x, -x), -1)` tells whether a lane is zero. -/
theorem clampedMin_eq (x : Lane) :
    signedMax (signedMin x (x * -1)) (-1) = if x = 0 then 0 else -1 := by
  rw [mul_neg_one]
  by_cases hx : x = 0
  · subst hx
    decide
  · have hneg := toInt_signedMin_neg hx
    have hone : (-1 : Lane).toInt = -1 := by decide
    rw [if_neg hx, signedMax]
    by_cases h : (signedMin x (-x)).slt (-1) = true
    · rw [if_pos h]
    · rw [if_neg h]
      rw [BitVec.slt_iff_toInt_lt, hone] at h
      apply BitVec.eq_of_toInt_eq
      rw [hone]
      omega

/-- The smallest of a number and the magnitudes in a list is zero if and only if one of them is. -/
theorem foldl_min_abs_eq_zero_iff {ι : Type*} (f : ι → ℚ) (l : List ι) (m : ℚ) :
    l.foldl (fun m i => min m |f i|) |m| = 0 ↔ m = 0 ∨ ∃ i ∈ l, f i = 0 := by
  induction l generalizing m with
  | nil =>
      rw [List.foldl_nil, abs_eq_zero]
      exact ⟨Or.inl, fun h => h.elim id fun ⟨i, hi, _⟩ => absurd hi List.not_mem_nil⟩
  | cons i l ih =>
      have hcons : (∃ j ∈ i :: l, f j = 0) ↔ f i = 0 ∨ ∃ j ∈ l, f j = 0 := by
        rw [List.exists_mem_cons_iff]
      rw [List.foldl_cons, hcons]
      rcases le_total |m| |f i| with hle | hle
      · have hzero (h : f i = 0) : m = 0 := by
          rw [h, abs_zero] at hle
          exact abs_eq_zero.1 (le_antisymm hle (abs_nonneg m))
        rw [min_eq_left hle, ih]
        exact ⟨fun h => h.imp_right Or.inr,
          fun h => h.elim Or.inl fun h => h.elim (fun h => Or.inl (hzero h)) Or.inr⟩
      · have hzero (h : m = 0) : f i = 0 := by
          rw [h, abs_zero] at hle
          exact abs_eq_zero.1 (le_antisymm hle (abs_nonneg _))
        rw [min_eq_right hle, ih]
        exact ⟨Or.inr, fun h => h.elim (fun h => Or.inl (hzero h)) id⟩

end DglAscend
