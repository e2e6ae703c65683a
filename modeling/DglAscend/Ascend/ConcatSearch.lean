import DglAscend.Ascend.UnifiedBuffer
import DglAscend.Lib.Loops

/-!
# Bisection with 32 bits

The midpoint of a search is half of a sum of 32 bits.  For more than `2 ^ 31` items the sum can wrap
around, and the search starts again below what it has passed: it comes to an end exactly if one of the
midpoints that it would take while it goes up is not below the item (`search_returns_iff`).
-/

namespace DglAscend.Ascend

/-- `(lo + hi) / 2` -/
def midpoint (s : ℕ × ℕ) : ℕ := u32 (s.1 + s.2) / 2

/-- The lower bound of a search among `n` items after `k` steps up. -/
def lowerAfter (n : ℕ) : ℕ → ℕ
  | 0 => 0
  | k + 1 => midpoint (lowerAfter n k, n) + 1

/-- One of the midpoints that a search for item `t` takes while it goes up is not below the item. -/
def Reaches (n t : ℕ) : Prop := ∃ k, t ≤ midpoint (lowerAfter n k, n)

section Search

variable {n t : ℕ} {body : ℕ × ℕ → ℕ × ℕ} {s : ℕ × ℕ}

/-- The item is between the bounds. -/
structure Brackets (n t : ℕ) (s : ℕ × ℕ) : Prop where
  lower : s.1 ≤ t
  upper : t ≤ s.2
  le : s.2 ≤ n

/-- The step of a search for item `t`. -/
def StepsTo (n t : ℕ) (body : ℕ × ℕ → ℕ × ℕ) : Prop :=
  ∀ s, midpoint s < n → body s = if midpoint s < t then (midpoint s + 1, s.2) else (s.1, midpoint s)

/-- Up to `2 ^ 31` items the sum does not wrap around. -/
lemma midpoint_eq (h : s.1 < s.2) (hs : s.2 ≤ 2 ^ 31) : midpoint s = (s.1 + s.2) / 2 := by
  rw [midpoint, u32_eq (by omega)]

/-- A midpoint behind the bounds is not possible, one before them is. -/
lemma midpoint_lt (hlt : s.1 < s.2) : midpoint s < s.2 := by
  rw [midpoint, u32]
  omega

lemma Brackets.step (h : Brackets n t s) (hbody : StepsTo n t body)
    (hlt : s.1 < s.2) : Brackets n t (body s) := by
  obtain ⟨hlower, hupper, hle⟩ := h
  have hmid := midpoint_lt hlt
  rw [hbody s (hmid.trans_le hle)]
  split_ifs with hbelow
  · exact ⟨hbelow, hupper, hle⟩
  · exact ⟨hlower, Nat.not_lt.1 hbelow, hmid.le.trans hle⟩

lemma search_found (ht : t < n) (hbody : StepsTo n t body) {fuel : ℕ}
    (h : whileLoop (fun s => decide (s.1 < s.2)) body fuel (0, n) = .ok s) : s.1 = t := by
  have hinv : Brackets n t (reached (whileLoop (fun s => decide (s.1 < s.2)) body fuel (0, n))) :=
    whileLoop_inv (s := (0, n)) ⟨Nat.zero_le t, ht.le, le_rfl⟩
      (fun s hs hlt => hs.step hbody (of_decide_eq_true hlt)) fuel
  rw [h] at hinv
  obtain ⟨_, -, -, hend, -⟩ := whileLoop_ok h
  have hge := of_decide_eq_false hend
  have hlower := hinv.lower
  have hupper := hinv.upper
  change s.1 ≤ t at hlower
  change t ≤ s.2 at hupper
  omega

/-- The bounds while no midpoint is at the item or behind it. -/
lemma iterate_lowerAfter (ht : t < n) (hbody : StepsTo n t body) {k : ℕ}
    (hbelow : ∀ j < k, midpoint (lowerAfter n j, n) < t) :
    body^[k] (0, n) = (lowerAfter n k, n) ∧ lowerAfter n k ≤ t := by
  induction k with
  | zero => exact ⟨rfl, Nat.zero_le t⟩
  | succ k ih =>
      obtain ⟨hstate, hle⟩ := ih fun j hj => hbelow j (hj.trans (Nat.lt_succ_self k))
      have hmid := hbelow k (Nat.lt_succ_self k)
      rw [Function.iterate_succ_apply', hstate, hbody _ (hmid.trans ht), if_pos hmid]
      exact ⟨rfl, hmid⟩

/-- Below `2 ^ 31` a search ends. -/
lemma exists_end (hbody : StepsTo n t body) (m : ℕ) (s : ℕ × ℕ) (hm : s.2 - s.1 ≤ m) (hs : s.2 ≤ 2 ^ 31)
    (hle : s.2 ≤ n) : ∃ k, decide ((body^[k] s).1 < (body^[k] s).2) = false := by
  induction m generalizing s with
  | zero => exact ⟨0, decide_eq_false (by show ¬ s.1 < s.2; omega)⟩
  | succ m ih =>
      by_cases hlt : s.1 < s.2
      · have hmid := midpoint_eq hlt hs
        have hstep := hbody s (by omega)
        have hnext : ∃ k, decide ((body^[k] (body s)).1 < (body^[k] (body s)).2) = false := by
          rw [hstep]
          split_ifs with hbelow
          · exact ih _ (by show s.2 - (midpoint s + 1) ≤ m; omega) hs hle
          · exact ih _ (by show midpoint s - s.1 ≤ m; omega) (by show midpoint s ≤ _; omega)
              (by show midpoint s ≤ _; omega)
        obtain ⟨k, hk⟩ := hnext
        exact ⟨k + 1, hk⟩
      · exact ⟨0, decide_eq_false hlt⟩

/-- **When a search comes to an end.** -/
theorem search_returns_iff (ht : t < n) (hbody : StepsTo n t body) :
    (∃ fuel s, whileLoop (fun s => decide (s.1 < s.2)) body fuel (0, n) = .ok s) ↔ Reaches n t := by
  constructor
  · rintro ⟨fuel, s, hs⟩
    by_contra hnot
    rw [Reaches, not_exists] at hnot
    have hgo (k : ℕ) : decide ((body^[k] (0, n)).1 < (body^[k] (0, n)).2) = true := by
      obtain ⟨hstate, hle⟩ := iterate_lowerAfter ht hbody (k := k) fun j _ => Nat.not_le.1 (hnot j)
      rw [hstate]
      exact decide_eq_true (hle.trans_lt ht)
    exact whileLoop_ne_ok hgo fuel s hs
  · intro hreach
    classical
    obtain ⟨hstate, hle⟩ := iterate_lowerAfter ht hbody (k := Nat.find hreach) fun j hj =>
      Nat.not_le.1 (Nat.find_min hreach hj)
    have hmid := Nat.find_spec hreach
    have hlt : midpoint (lowerAfter n (Nat.find hreach), n) < n := midpoint_lt (hle.trans_lt ht)
    have hhalf : midpoint (lowerAfter n (Nat.find hreach), n) ≤ 2 ^ 31 := by
      rw [midpoint, u32]
      omega
    have hstep : body^[Nat.find hreach + 1] (0, n) =
        (lowerAfter n (Nat.find hreach), midpoint (lowerAfter n (Nat.find hreach), n)) := by
      rw [Function.iterate_succ_apply', hstate, hbody _ hlt, if_neg (Nat.not_lt.2 hmid)]
    obtain ⟨k, hk⟩ := exists_end hbody _ (lowerAfter n (Nat.find hreach),
      midpoint (lowerAfter n (Nat.find hreach), n)) le_rfl hhalf hlt.le
    rw [← hstep, ← Function.iterate_add_apply] at hk
    exact exists_whileLoop_ok _ _ _ hk

/-- Up to `2 ^ 31` items every item is reached. -/
lemma reaches_of_le (hn : n ≤ 2 ^ 31) (ht : t < n) : Reaches n t := by
  by_contra hnot
  rw [Reaches, not_exists] at hnot
  have hgrow (k : ℕ) : k ≤ lowerAfter n k ∧ lowerAfter n k < n := by
    induction k with
    | zero => exact ⟨le_rfl, (Nat.zero_le t).trans_lt ht⟩
    | succ k ih =>
        have hmid : midpoint (lowerAfter n k, n) = (lowerAfter n k + n) / 2 := midpoint_eq ih.2 hn
        have hbelow := hnot k
        rw [lowerAfter]
        omega
  have hlast := hgrow n
  omega

end Search

end DglAscend.Ascend
