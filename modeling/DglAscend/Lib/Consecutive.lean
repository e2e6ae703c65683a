import Mathlib.Tactic

/-!
# Consecutive intervals

Half-open intervals in a row, each of which starts where the one before it ends.  Intervals may be
empty.  A number between the first start and the last end is in exactly one of them: the first one
that ends above it.
-/

namespace DglAscend

variable {b x : ℤ} {l l' : List (ℤ × ℤ)}

/-- Each interval starts where the one before it ends, the first one at `b`. -/
def Consecutive : ℤ → List (ℤ × ℤ) → Prop
  | _, [] => True
  | b, r :: l => r.1 = b ∧ r.1 ≤ r.2 ∧ Consecutive r.2 l

instance decidableConsecutive : ∀ b l, Decidable (Consecutive b l)
  | _, [] => inferInstanceAs (Decidable True)
  | _, r :: l =>
    haveI := decidableConsecutive r.2 l
    inferInstanceAs (Decidable (_ ∧ _ ∧ _))

/-- Where the last interval ends. -/
def endOf : ℤ → List (ℤ × ℤ) → ℤ
  | b, [] => b
  | _, r :: l => endOf r.2 l

@[simp] lemma endOf_append : endOf b (l ++ l') = endOf (endOf b l) l' := by
  induction l generalizing b with
  | nil => rfl
  | cons r l ih => exact ih

lemma consecutive_append : Consecutive b (l ++ l') ↔ Consecutive b l ∧ Consecutive (endOf b l) l' := by
  induction l generalizing b with
  | nil => simp [Consecutive, endOf]
  | cons r l ih =>
      rw [List.cons_append, Consecutive, Consecutive, ih, endOf, and_assoc, and_assoc]

lemma Consecutive.le_endOf (h : Consecutive b l) : b ≤ endOf b l := by
  induction l generalizing b with
  | nil => exact le_refl _
  | cons r l ih =>
      obtain ⟨rfl, hle, hl⟩ := h
      exact hle.trans (ih hl)

/-- All intervals lie between the first start and the last end. -/
lemma Consecutive.bounds (h : Consecutive b l) {r : ℤ × ℤ} (hr : r ∈ l) :
    b ≤ r.1 ∧ r.1 ≤ r.2 ∧ r.2 ≤ endOf b l := by
  induction l generalizing b with
  | nil => exact absurd hr List.not_mem_nil
  | cons r' l ih =>
      obtain ⟨rfl, hle, hl⟩ := h
      rcases List.mem_cons.1 hr with rfl | hr
      · exact ⟨le_refl _, hle, hl.le_endOf⟩
      · obtain ⟨h1, h2, h3⟩ := ih hl hr
        exact ⟨hle.trans h1, h2, h3⟩

lemma exists_mem_endOf (b : ℤ) (hl : l ≠ []) : ∃ r ∈ l, r.2 = endOf b l := by
  induction l generalizing b with
  | nil => exact absurd rfl hl
  | cons r l ih =>
      by_cases hnil : l = []
      · subst hnil
        exact ⟨r, List.mem_singleton_self r, rfl⟩
      · obtain ⟨r', hr', heq⟩ := ih r.2 hnil
        exact ⟨r', List.mem_cons_of_mem _ hr', heq⟩

lemma Consecutive.pairwise (h : Consecutive b l) :
    l.Pairwise fun r r' => r.1 ≤ r'.1 ∧ r.2 ≤ r'.2 := by
  induction l generalizing b with
  | nil => exact List.Pairwise.nil
  | cons r l ih =>
      obtain ⟨rfl, hle, hl⟩ := h
      refine List.pairwise_cons.2 ⟨fun r' hr' => ?_, ih hl⟩
      obtain ⟨h1, h2, -⟩ := hl.bounds hr'
      exact ⟨hle.trans h1, h1.trans h2⟩

/-- **The first interval that ends above** a number has it. -/
theorem Consecutive.findIdx_spec (h : Consecutive b l) (hb : b ≤ x) (hx : x < endOf b l) :
    ∃ hj : l.findIdx (fun r => x < r.2) < l.length,
      l[l.findIdx fun r => x < r.2].1 ≤ x ∧ x < l[l.findIdx fun r => x < r.2].2 := by
  induction l generalizing b with
  | nil => exact absurd hx (not_lt.2 hb)
  | cons r l ih =>
      obtain ⟨rfl, hle, hl⟩ := h
      by_cases hr : x < r.2
      · have hidx : (r :: l).findIdx (fun r => x < r.2) = 0 := by
          rw [List.findIdx_cons]
          simp [hr]
        simp only [hidx]
        exact ⟨Nat.zero_lt_succ _, hb, hr⟩
      · have hidx : (r :: l).findIdx (fun r => x < r.2) = l.findIdx (fun r => x < r.2) + 1 := by
          rw [List.findIdx_cons]
          simp [hr]
        obtain ⟨hj, h1, h2⟩ := ih hl (not_lt.1 hr) hx
        simp only [hidx]
        exact ⟨Nat.succ_lt_succ hj, h1, h2⟩

/-- **No other interval has it.** -/
theorem Consecutive.findIdx_eq (h : Consecutive b l) {j : ℕ} (hj : j < l.length) (h1 : l[j].1 ≤ x)
    (h2 : x < l[j].2) : l.findIdx (fun r => x < r.2) = j := by
  rw [List.findIdx_eq hj]
  refine ⟨decide_eq_true h2, fun i hi => ?_⟩
  -- Earlier intervals end before this one starts.
  have hsplit : l = l.take j ++ l.drop j := (List.take_append_drop j l).symm
  rw [hsplit, consecutive_append] at h
  obtain ⟨hleft, hright⟩ := h
  have hmem : l[i] ∈ l.take j := List.mem_take_iff_getElem.2 ⟨i, by omega, rfl⟩
  obtain ⟨-, -, hend⟩ := hleft.bounds hmem
  rw [List.drop_eq_getElem_cons hj] at hright
  obtain ⟨hstart, -, -⟩ := hright
  exact decide_eq_false (not_lt.2 (hend.trans (hstart ▸ h1)))

/-! ## Boundaries -/

section Boundaries

variable {f : ℕ → ℤ} {n i j p : ℕ}

lemma boundaries_mono (hmono : ∀ p < n, f p ≤ f (p + 1)) (hij : i ≤ j) (hj : j ≤ n) : f i ≤ f j := by
  induction j, hij using Nat.le_induction with
  | base => exact le_refl _
  | succ j _ ih => exact (ih (by omega)).trans (hmono j (by omega))

/-- A number between the first and the last boundary lies between two neighbours. -/
lemma exists_between (h0 : f 0 ≤ x) (hn : x < f n) : ∃ p < n, f p ≤ x ∧ x < f (p + 1) := by
  induction n with
  | zero => exact absurd h0 (not_le.2 hn)
  | succ n ih =>
      by_cases hx : x < f n
      · obtain ⟨p, hp, h1, h2⟩ := ih hx
        exact ⟨p, hp.trans (Nat.lt_succ_self n), h1, h2⟩
      · exact ⟨n, Nat.lt_succ_self n, not_lt.1 hx, hn⟩

/-- The boundaries without the first one. -/
def endsOf (f : ℕ → ℤ) (n : ℕ) : List ℤ := (List.range n).map fun p => f (p + 1)

lemma getElem?_endsOf (hp : p < n) : (endsOf f n)[p]? = some (f (p + 1)) := by
  rw [endsOf, List.getElem?_map, List.getElem?_range hp]
  rfl

/-- **The first end above** a number is that of the neighbours around it. -/
lemma findIdx_endsOf (hmono : ∀ p < n, f p ≤ f (p + 1)) (hp : p < n) (h1 : f p ≤ x)
    (h2 : x < f (p + 1)) : (endsOf f n).findIdx (fun y => x < y) = p := by
  have hlen : (endsOf f n).length = n := by rw [endsOf, List.length_map, List.length_range]
  have hget : ∀ i (hi : i < (endsOf f n).length), (endsOf f n)[i] = f (i + 1) := by
    intro i hi
    simp [endsOf]
  rw [List.findIdx_eq (by omega)]
  refine ⟨?_, fun i hi => ?_⟩
  · rw [hget]
    exact decide_eq_true h2
  · rw [hget]
    have hle : f (i + 1) ≤ f p := boundaries_mono hmono (by omega) hp.le
    exact decide_eq_false (not_lt.2 (hle.trans h1))

/-- The numbers from `a` on, `b` excluded. -/
def arange (a b : ℤ) : List ℤ := (List.range (b - a).toNat).map fun (i : ℕ) => a + i

lemma mem_arange {a b : ℤ} : x ∈ arange a b ↔ a ≤ x ∧ x < b := by
  rw [arange, List.mem_map]
  constructor
  · rintro ⟨i, hi, rfl⟩
    rw [List.mem_range] at hi
    omega
  · rintro ⟨h1, h2⟩
    exact ⟨(x - a).toNat, List.mem_range.2 (by omega), by omega⟩

lemma arange_append {a b c : ℤ} (hab : a ≤ b) (hbc : b ≤ c) :
    arange a b ++ arange b c = arange a c := by
  have hlen : (c - a).toNat = (b - a).toNat + (c - b).toNat := by omega
  rw [arange, arange, arange, hlen, List.range_add, List.map_append, List.map_map]
  congr 1
  apply List.map_congr_left
  intro i _
  simp only [Function.comp_apply]
  push_cast
  omega

/-- **The pieces between the boundaries** are everything, in order. -/
lemma flatMap_arange (hmono : ∀ p < n, f p ≤ f (p + 1)) :
    ((List.range n).flatMap fun p => arange (f p) (f (p + 1))) = arange (f 0) (f n) := by
  induction n with
  | zero => simp [arange]
  | succ n ih =>
      rw [List.range_succ, List.flatMap_append, List.flatMap_singleton,
        ih fun p hp => hmono p (hp.trans (Nat.lt_succ_self n))]
      exact arange_append (boundaries_mono hmono (Nat.zero_le n) (Nat.le_succ n))
        (hmono n (Nat.lt_succ_self n))

lemma map_sub_arange (a b : ℤ) : (arange a b).map (· - a) = arange 0 (b - a) := by
  rw [arange, arange, List.map_map, sub_zero]
  apply List.map_congr_left
  intro i _
  simp

end Boundaries

end DglAscend
