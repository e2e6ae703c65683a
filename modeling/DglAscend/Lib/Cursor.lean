import Mathlib.Data.List.Count
import Mathlib.Data.List.Sort
import Mathlib.Data.List.TakeDrop

/-!
# A cursor in a sorted list

A loop over increasing numbers takes its steps through a sorted list along: before the number `i` the
cursor has passed what is less than `i`.
-/

namespace DglAscend

/-- `while (k < n && l[k] == i) ++k` -/
def skipEqual (l : List ℕ) (k i : ℕ) : ℕ := k + ((l.drop k).takeWhile (· = i)).length

variable {l : List ℕ} {i : ℕ}

lemma countP_lt_succ (l : List ℕ) (i : ℕ) : l.countP (· < i + 1) = l.countP (· < i) + l.count i := by
  induction l with
  | nil => rfl
  | cons a l ih =>
      rw [List.countP_cons, List.countP_cons, List.count_cons]
      rcases Nat.lt_trichotomy a i with hlt | rfl | hlt
      · rw [if_pos (by simpa using Nat.lt_succ_of_lt hlt), if_pos (by simpa using hlt),
          if_neg (by simpa using hlt.ne)]
        omega
      · rw [if_pos (by simp), if_neg (by simp), if_pos (by simp)]
        omega
      · rw [if_neg (by simp only [decide_eq_true_eq]; omega), if_neg (by simp only [decide_eq_true_eq]; omega),
          if_neg (by simpa using hlt.ne')]
        omega

lemma countP_lt_succ_of_notMem (h : i ∉ l) : l.countP (· < i + 1) = l.countP (· < i) := by
  rw [countP_lt_succ, List.count_eq_zero.2 h, Nat.add_zero]

/-- Behind the cursor everything is at least `i`, equal elements first. -/
lemma drop_countP_lt (h : l.Pairwise (· ≤ ·)) :
    l.drop (l.countP (· < i)) = List.replicate (l.count i) i ++ l.drop (l.countP (· < i + 1)) := by
  induction l with
  | nil => rfl
  | cons a l ih =>
      rw [List.pairwise_cons] at h
      have ih := ih h.2
      rcases Nat.lt_trichotomy a i with hlt | rfl | hlt
      · have hcount : (a :: l).countP (· < i) = l.countP (· < i) + 1 :=
          List.countP_cons_of_pos (by simpa using hlt)
        have hcount' : (a :: l).countP (· < i + 1) = l.countP (· < i + 1) + 1 :=
          List.countP_cons_of_pos (by simpa using Nat.lt_succ_of_lt hlt)
        rw [hcount, hcount', List.count_cons_of_ne hlt.ne, List.drop_succ_cons, List.drop_succ_cons, ih]
      · have hnone : l.countP (· < a) = 0 := List.countP_eq_zero.2 fun b hb => by simpa using h.1 b hb
        have hcount : (a :: l).countP (· < a) = 0 := by
          rw [List.countP_cons_of_neg (by simp)]
          exact hnone
        have hcount' : (a :: l).countP (· < a + 1) = l.countP (· < a + 1) + 1 :=
          List.countP_cons_of_pos (by simp)
        rw [hnone, List.drop_zero] at ih
        rw [hcount, hcount', List.count_cons_self, List.drop_zero, List.drop_succ_cons,
          List.replicate_succ, List.cons_append, ← ih]
      · have hall (j : ℕ) (hj : j ≤ a) : (a :: l).countP (· < j) = 0 := by
          apply List.countP_eq_zero.2
          intro b hb
          rcases List.mem_cons.1 hb with rfl | hb
          · simpa using hj
          · simpa using hj.trans (h.1 b hb)
        have hcount : (a :: l).count i = 0 := by
          apply List.count_eq_zero.2
          intro hi
          rcases List.mem_cons.1 hi with rfl | hi
          · exact lt_irrefl _ hlt
          · exact absurd (h.1 i hi) (Nat.not_le.2 hlt)
        rw [hall i hlt.le, hall (i + 1) hlt, hcount, List.replicate_zero, List.nil_append]

/-- Behind the equal elements there are only greater ones. -/
lemma le_of_mem_drop_countP (h : l.Pairwise (· ≤ ·)) {a : ℕ} (ha : a ∈ l.drop (l.countP (· < i))) : i ≤ a := by
  induction l with
  | nil => exact absurd ha (by simp)
  | cons b l ih =>
      rw [List.pairwise_cons] at h
      by_cases hb : b < i
      · have hcount : (b :: l).countP (· < i) = l.countP (· < i) + 1 :=
          List.countP_cons_of_pos (by simpa using hb)
        rw [hcount, List.drop_succ_cons] at ha
        exact ih h.2 ha
      · rcases List.mem_cons.1 (List.mem_of_mem_drop ha) with rfl | ha
        · exact Nat.le_of_not_lt hb
        · exact (Nat.le_of_not_lt hb).trans (h.1 a ha)

/-- **The cursor meets `i`** exactly if it is in the list. -/
theorem getElem?_countP_lt (h : l.Pairwise (· ≤ ·)) : l[l.countP (· < i)]? = some i ↔ i ∈ l := by
  constructor
  · exact List.mem_of_getElem?
  · intro hi
    have hdrop := drop_countP_lt (i := i) h
    have hpos := List.count_pos_iff.2 hi
    obtain ⟨c, hc⟩ := Nat.exists_eq_add_of_le' hpos
    rw [hc, List.replicate_succ, List.cons_append] at hdrop
    have hhead := congrArg List.head? hdrop
    rwa [List.head?_drop, List.head?_cons] at hhead

/-- **The cursor moves on.** -/
theorem skipEqual_countP_lt (h : l.Pairwise (· ≤ ·)) : skipEqual l (l.countP (· < i)) i = l.countP (· < i + 1) := by
  have htake : (l.drop (l.countP (· < i + 1))).takeWhile (· = i) = [] := by
    cases hdrop : l.drop (l.countP (· < i + 1)) with
    | nil => rfl
    | cons a rest =>
        have ha : i + 1 ≤ a := le_of_mem_drop_countP h (hdrop ▸ List.mem_cons_self)
        exact List.takeWhile_cons_of_neg (by simp only [decide_eq_true_eq]; omega)
  rw [skipEqual, drop_countP_lt h, List.takeWhile_append_of_pos (by simp), htake, List.append_nil,
    List.length_replicate, countP_lt_succ]

end DglAscend
