import DglAscend.Lib.Slots

/-!
# Equal shares

Boundaries that share out `n` items equally, computed in 32 bits: they never go down exactly when no
product overflows, but for one case (`equalShare_mono_iff`).
-/

namespace DglAscend

variable {n numParts part : ℕ}

/-! ## Boundaries that are made to rise -/

section

variable {b f : ℕ → ℕ} (h0 : b 0 = 0) (hsucc : ∀ p, b (p + 1) = min (max (f (p + 1)) (b p)) n)

include h0 hsucc

lemma rising_le (p : ℕ) : b p ≤ n := by
  cases p with
  | zero => exact h0.trans_le (Nat.zero_le _)
  | succ p => exact (hsucc p).trans_le (min_le_right _ _)

lemma rising_mono (p : ℕ) : b p ≤ b (p + 1) := by
  rw [hsucc]
  exact le_min (le_max_right _ _) (rising_le h0 hsucc p)

end

/-! ## Equal shares -/

lemma share_le (n : ℕ) (hparts : 0 < numParts) (hpart : part ≤ numParts) :
    part * n % 2 ^ 32 / numParts ≤ n := by
  calc part * n % 2 ^ 32 / numParts
      ≤ part * n / numParts := Nat.div_le_div_right (Nat.mod_le _ _)
    _ ≤ numParts * n / numParts := Nat.div_le_div_right (Nat.mul_le_mul_right _ hpart)
    _ = n := Nat.mul_div_cancel_left _ hparts

/-- Equal shares in 32 bits, with the number of items as the last boundary. -/
def equalShare (n numParts part : ℕ) : ℕ :=
  if part = numParts then n else part * n % 2 ^ 32 / numParts

lemma equalShare_mono (hparts : 0 < numParts) (hfits : (numParts - 1) * n < 2 ^ 32)
    (hpart : part < numParts) : equalShare n numParts part ≤ equalShare n numParts (part + 1) := by
  have hle : part * n ≤ (numParts - 1) * n := Nat.mul_le_mul_right _ (by omega)
  rw [equalShare, equalShare, if_neg hpart.ne, Nat.mod_eq_of_lt (by omega)]
  by_cases hlast : part + 1 = numParts
  · rw [if_pos hlast]
    exact (Nat.div_le_div_right (Nat.mul_le_mul_right _ hpart.le)).trans_eq
      (Nat.mul_div_cancel_left _ hparts)
  · have hle' : (part + 1) * n ≤ (numParts - 1) * n := Nat.mul_le_mul_right _ (by omega)
    rw [if_neg hlast, Nat.mod_eq_of_lt (by omega)]
    exact Nat.div_le_div_right (Nat.mul_le_mul_right _ (Nat.le_succ part))

/-- The products of a number just below `m`. -/
lemma mul_mod_of_gap {m gap part : ℕ} (hpos : 0 < part) (hgappos : 0 < gap) (hgap : gap ≤ m)
    (hle : part * gap ≤ m) : part * (m - gap) % m = m - part * gap := by
  obtain ⟨p, rfl⟩ : ∃ p, part = p + 1 := ⟨part - 1, by omega⟩
  have hsum : (p + 1) * (m - gap) + (p + 1) * gap = p * m + m := by
    rw [← Nat.mul_add, Nat.sub_add_cancel hgap, Nat.succ_mul]
  have hsplit : (p + 1) * (m - gap) = m - (p + 1) * gap + p * m := by omega
  have hlt : m - (p + 1) * gap < m := by
    have hmul := Nat.mul_pos hpos hgappos
    omega
  rw [hsplit, Nat.add_mul_mod_self_right, Nat.mod_eq_of_lt hlt]

/-- The shares of a number of items just below `2 ^ 32`. -/
lemma equalShare_of_gap {gap part : ℕ} (hgappos : 0 < gap) (hgap : gap ≤ 2 ^ 32) (hpos : 0 < part)
    (hpart : part < numParts) (hle : part * gap ≤ 2 ^ 32) :
    equalShare (2 ^ 32 - gap) numParts part = (2 ^ 32 - part * gap) / numParts := by
  rw [equalShare, if_neg hpart.ne, mul_mod_of_gap hpos hgappos hgap hle]

/-- Shares that never go down although they overflow. -/
lemma eq_of_gap {gap : ℕ} (hgap : 1 < gap) (hlt : gap < numParts) (hmany : numParts < 2 ^ 32 - gap)
    (hthree : 3 ≤ numParts)
    (hmono : ∀ part < numParts,
      equalShare (2 ^ 32 - gap) numParts part ≤ equalShare (2 ^ 32 - gap) numParts (part + 1)) :
    numParts = 3 ∧ gap = 2 := by
  have hparts : 0 < numParts := by omega
  have hfirst : equalShare (2 ^ 32 - gap) numParts 1 = (2 ^ 32 - 1 * gap) / numParts :=
    equalShare_of_gap (by omega) (by omega) Nat.one_pos (by omega) (by omega)
  by_cases hfits : (numParts - 1) * gap ≤ 2 ^ 32
  · -- the shares go down from the first to the last one, unless one division keeps them equal
    have hlast : equalShare (2 ^ 32 - gap) numParts (numParts - 1) =
        (2 ^ 32 - (numParts - 1) * gap) / numParts :=
      equalShare_of_gap (by omega) (by omega) (by omega) (by omega) hfits
    have hle : equalShare (2 ^ 32 - gap) numParts 1 ≤ equalShare (2 ^ 32 - gap) numParts (numParts - 1) :=
      boundary_mono hmono (by omega) (by omega)
    rw [hfirst, hlast] at hle
    have hsplit : (numParts - 1) * gap = (numParts - 2) * gap + gap := by
      obtain ⟨k, rfl⟩ := Nat.exists_eq_add_of_le' hthree
      rw [← Nat.succ_mul]
      rfl
    have hsmall : (numParts - 2) * gap < numParts := by
      by_contra hlarge
      have hdiv := Nat.div_le_div_right (c := numParts)
        (by omega : 2 ^ 32 - (numParts - 1) * gap + numParts ≤ 2 ^ 32 - 1 * gap)
      rw [Nat.add_div_right _ hparts] at hdiv
      omega
    have htwo : (numParts - 2) * 2 ≤ (numParts - 2) * gap := Nat.mul_le_mul_left _ hgap
    obtain rfl : numParts = 3 := by omega
    exact ⟨rfl, by omega⟩
  · -- a later share is `0`, while the first one is not
    exfalso
    have hgappos : 0 < gap := by omega
    have hfloor : 2 ^ 32 / gap * gap ≤ 2 ^ 32 := Nat.div_mul_le_self _ _
    have hceil : 2 ^ 32 < 2 ^ 32 / gap * gap + gap := by
      have hmod := Nat.mod_lt (2 ^ 32) hgappos
      have hdiv := Nat.div_add_mod' (2 ^ 32) gap
      omega
    have hpart : 2 ^ 32 / gap < numParts := by
      by_contra hge
      have hmul : (numParts - 1) * gap ≤ 2 ^ 32 / gap * gap := Nat.mul_le_mul_right _ (by omega)
      omega
    have hone : 1 ≤ 2 ^ 32 / gap := Nat.div_pos (by omega) hgappos
    have hlater : equalShare (2 ^ 32 - gap) numParts (2 ^ 32 / gap) =
        (2 ^ 32 - 2 ^ 32 / gap * gap) / numParts :=
      equalShare_of_gap hgappos (by omega) hone hpart hfloor
    have hle : equalShare (2 ^ 32 - gap) numParts 1 ≤
        equalShare (2 ^ 32 - gap) numParts (2 ^ 32 / gap) := boundary_mono hmono hone hpart.le
    have hpos : 0 < (2 ^ 32 - 1 * gap) / numParts := Nat.div_pos (by omega) hparts
    rw [hfirst, hlater, Nat.div_eq_of_lt (by omega : 2 ^ 32 - 2 ^ 32 / gap * gap < numParts)] at hle
    omega

/-- **Equal shares never go down** unless they overflow; a single case of the overflow does no harm. -/
theorem equalShare_mono_iff (hparts : 0 < numParts) (hmany : numParts < n) (hn : n + 1 < 2 ^ 32) :
    (∀ part < numParts, equalShare n numParts part ≤ equalShare n numParts (part + 1)) ↔
      (numParts - 1) * n < 2 ^ 32 ∨ numParts = 3 ∧ n = 2 ^ 32 - 2 := by
  constructor
  · intro hmono
    by_contra hnot
    obtain ⟨hwrap, hexcept⟩ := not_or.1 hnot
    -- The last part whose product fits is followed by one that has wrapped around.
    obtain ⟨p, -, hp, hle, hlt⟩ := exists_inSlot (b := fun p => p * n)
      (Nat.zero_le (numParts - 1)) (by omega : 0 * n ≤ 2 ^ 32 - 1) (by omega)
    simp only at hle hlt
    rw [Nat.succ_mul] at hlt
    have hone : 1 ≤ p := by
      by_contra hzero
      obtain rfl : p = 0 := by omega
      omega
    have hmod : (p + 1) * n % 2 ^ 32 = p * n + n - 2 ^ 32 := by
      rw [Nat.succ_mul, Nat.mod_eq_sub_mod (by omega), Nat.mod_eq_of_lt (by omega)]
    have hstep := hmono p (by omega)
    rw [equalShare, equalShare, if_neg (by omega), if_neg (by omega), hmod,
      Nat.mod_eq_of_lt (by omega)] at hstep
    have hgap : 2 ^ 32 - n < numParts := by
      by_contra hge
      have hdiv := Nat.div_le_div_right (c := numParts)
        (by omega : p * n + n - 2 ^ 32 + numParts ≤ p * n)
      rw [Nat.add_div_right _ hparts] at hdiv
      omega
    have hn' : 2 ^ 32 - (2 ^ 32 - n) = n := by omega
    obtain ⟨hthree, htwo⟩ := eq_of_gap (by omega : 1 < 2 ^ 32 - n) hgap (by omega) (by omega)
      (by rwa [hn'])
    exact hexcept ⟨hthree, by omega⟩
  · rintro (hfits | ⟨rfl, rfl⟩)
    · exact fun part hpart => equalShare_mono hparts hfits hpart
    · decide

end DglAscend
