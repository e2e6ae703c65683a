import Mathlib.Algebra.Order.BigOperators.Group.List
import Mathlib.Data.List.GetD
import Mathlib.Tactic

/-!
# Draws by weight

A draw picks the first index at which the sum of the weights is above a target.  Its weight is positive
(`firstAbove_pos`), but at a target as large as all weights together there is none
(`firstAbove_eq_none_iff`).  Where the sums have been stored the index is found by a binary search
(`upperSearch_spec`).
-/

namespace DglAscend

section Sums

variable {K : Type*} [AddCommGroup K] [LinearOrder K] [IsOrderedAddMonoid K]
variable {ws : List K} {target : K} {t : ℕ}

/-- The first index at which the sum of the weights is above the target. -/
def firstAbove : List K → K → Option ℕ
  | [], _ => none
  | w :: ws, target =>
      if target < w then some 0 else (firstAbove ws (target - w)).map (· + 1)

/-- **A pick has a positive weight.** -/
theorem firstAbove_pos (htarget : 0 ≤ target) (h : firstAbove ws target = some t) :
    t < ws.length ∧ 0 < ws.getD t 0 := by
  induction ws generalizing target t with
  | nil => cases h
  | cons w ws ih =>
      rw [firstAbove] at h
      by_cases hlt : target < w
      · rw [if_pos hlt, Option.some_inj] at h
        subst h
        exact ⟨Nat.succ_pos _, htarget.trans_lt hlt⟩
      · rw [if_neg hlt, Option.map_eq_some_iff] at h
        obtain ⟨t, ht, rfl⟩ := h
        obtain ⟨hlen, hpos⟩ := ih (sub_nonneg.2 (not_lt.1 hlt)) ht
        exact ⟨Nat.succ_lt_succ hlen, hpos⟩

/-- Without negative weights there is no pick if and only if the target is no less than all weights
together. -/
theorem firstAbove_eq_none_iff (hws : ∀ w ∈ ws, 0 ≤ w) (htarget : 0 ≤ target) :
    firstAbove ws target = none ↔ ws.sum ≤ target := by
  induction ws generalizing target with
  | nil => exact ⟨fun _ => htarget, fun _ => by rw [firstAbove]⟩
  | cons w ws ih =>
      have hrest : ∀ v ∈ ws, 0 ≤ v := fun v hv => hws v (List.mem_cons_of_mem w hv)
      rw [firstAbove, List.sum_cons]
      by_cases hlt : target < w
      · rw [if_pos hlt]
        have hsum : 0 ≤ ws.sum := List.sum_nonneg hrest
        have hmore : target < w + ws.sum := hlt.trans_le (le_add_of_nonneg_right hsum)
        exact ⟨fun h => (Option.some_ne_none _ h).elim, fun h => absurd h (not_le.2 hmore)⟩
      · rw [if_neg hlt, Option.map_eq_none_iff, ih hrest (sub_nonneg.2 (not_lt.1 hlt)),
          le_sub_iff_add_le, add_comm]

/-- Some weight is positive if and only if the sum is. -/
lemma sum_pos_iff_exists (hws : ∀ w ∈ ws, 0 ≤ w) : 0 < ws.sum ↔ ∃ w ∈ ws, 0 < w := by
  constructor
  · intro hsum
    by_contra hnone
    push Not at hnone
    have hzero : ws.sum = 0 := List.sum_eq_zero fun w hw => le_antisymm (hnone w hw) (hws w hw)
    exact hsum.ne' hzero
  · rintro ⟨w, hw, hpos⟩
    exact hpos.trans_le (List.single_le_sum hws w hw)

end Sums

/-! ## Stored sums -/

section Search

variable {K : Type*} [LinearOrder K] {target : K}

/-- `while (lo < hi)`: the first place of which the value is above the target, by a binary search. -/
def upperSearch (f : ℕ → K) (target : K) : ℕ → ℕ → ℕ → ℕ
  | 0, lo, _ => lo
  | fuel + 1, lo, hi =>
      if lo < hi then
        if f (lo + (hi - lo) / 2) ≤ target then upperSearch f target fuel (lo + (hi - lo) / 2 + 1) hi
        else upperSearch f target fuel lo (lo + (hi - lo) / 2)
      else lo

/-- **The binary search** ends between the values that are not above the target and those that are. -/
theorem upperSearch_spec {f : ℕ → K} {n fuel lo hi : ℕ} (hf : ∀ i j, i ≤ j → j < n → f i ≤ f j)
    (hfuel : hi - lo ≤ fuel) (hlohi : lo ≤ hi) (hhi : hi ≤ n) (hlow : ∀ j < lo, f j ≤ target)
    (hhigh : ∀ j, hi ≤ j → j < n → target < f j) :
    upperSearch f target fuel lo hi ≤ n ∧
      (∀ j < upperSearch f target fuel lo hi, f j ≤ target) ∧
      ∀ j, upperSearch f target fuel lo hi ≤ j → j < n → target < f j := by
  induction fuel generalizing lo hi with
  | zero =>
      have heq : lo = hi := by omega
      subst heq
      exact ⟨hhi, hlow, hhigh⟩
  | succ fuel ih =>
      rw [upperSearch]
      by_cases hlt : lo < hi
      · rw [if_pos hlt]
        by_cases hmid : f (lo + (hi - lo) / 2) ≤ target
        · rw [if_pos hmid]
          apply ih
          · omega
          · omega
          · exact hhi
          · intro j hj
            exact (hf j (lo + (hi - lo) / 2) (by omega) (by omega)).trans hmid
          · exact hhigh
        · rw [if_neg hmid]
          apply ih
          · omega
          · omega
          · omega
          · exact hlow
          · intro j hj hn
            exact (not_le.1 hmid).trans_le (hf _ j hj hn)
      · rw [if_neg hlt]
        have heq : lo = hi := by omega
        subst heq
        exact ⟨hhi, hlow, hhigh⟩

/-- The search among all of `n` places. -/
lemma upperSearch_all {f : ℕ → K} (target : K) {n : ℕ} (hf : ∀ i j, i ≤ j → j < n → f i ≤ f j) :
    (∀ j < upperSearch f target n 0 n, f j ≤ target) ∧
      ∀ j, upperSearch f target n 0 n ≤ j → j < n → target < f j := by
  apply And.right
  apply upperSearch_spec hf (le_refl _) (Nat.zero_le n) (le_refl n)
  · exact fun j hj => absurd hj (Nat.not_lt_zero j)
  · exact fun j hj hn => absurd hn (not_lt.2 hj)

end Search

end DglAscend
