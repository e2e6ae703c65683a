import DglAscend.Lib.AliasTable
import DglAscend.Lib.SumTree
import Mathlib.MeasureTheory.Measure.Lebesgue.Basic

/-!
# Draws in proportion to weights

A number is drawn uniformly from `[0, 1)` and looked up.  It leads to an item with a probability in
proportion to the item's weight when it is looked up in cumulative sums
(`Proportional.of_cumulative`), by walking down a tree of sums (`Sums.proportional`), or in an alias
table (`AliasTable.proportional`).
-/

namespace DglAscend

open MeasureTheory Set

/-- The items are drawn in proportion to their weights. -/
structure Proportional (n : ℕ) (weight : ℕ → ℝ) (draw : ℝ → ℕ) : Prop where
  lt : ∀ u ∈ Ico (0 : ℝ) 1, draw u < n
  law : ∀ j < n, volume {u | u ∈ Ico (0 : ℝ) 1 ∧ draw u = j} =
    ENNReal.ofReal (weight j / ∑ i ∈ Finset.range n, weight i)

variable {n : ℕ} {weight : ℕ → ℝ} {draw : ℝ → ℕ}

/-- A set between an open interval and its closure. -/
lemma volume_eq_of_Ioo_subset {S : Set ℝ} {a b : ℝ} (hsub : Ioo a b ⊆ S) (hsup : S ⊆ Icc a b) :
    volume S = ENNReal.ofReal (b - a) := by
  apply le_antisymm
  · calc volume S ≤ volume (Icc a b) := measure_mono hsup
      _ = ENNReal.ofReal (b - a) := Real.volume_Icc
  · calc ENNReal.ofReal (b - a) = volume (Ioo a b) := Real.volume_Ioo.symm
      _ ≤ volume S := measure_mono hsub

/-- **Cumulative sums**: an item gets the numbers above the sum of the weights before it, up to its
own. -/
theorem Proportional.of_cumulative (hweight : ∀ i < n, 0 ≤ weight i)
    (hpos : 0 < ∑ i ∈ Finset.range n, weight i) (hlt : ∀ u ∈ Ico (0 : ℝ) 1, draw u < n)
    (hdraw : ∀ u ∈ Ioo (0 : ℝ) 1,
      ∑ i ∈ Finset.range (draw u), weight i < u * ∑ i ∈ Finset.range n, weight i ∧
        u * ∑ i ∈ Finset.range n, weight i ≤ ∑ i ∈ Finset.range (draw u + 1), weight i) :
    Proportional n weight draw := by
  refine ⟨hlt, fun j hj => ?_⟩
  set total := ∑ i ∈ Finset.range n, weight i with htotal
  set before : ℕ → ℝ := fun k => ∑ i ∈ Finset.range k, weight i with hbefore
  have hmono {k l : ℕ} (hkl : k ≤ l) (hl : l ≤ n) : before k ≤ before l := by
    refine Finset.sum_le_sum_of_subset_of_nonneg (Finset.range_subset_range.2 hkl) fun i hi _ => ?_
    exact hweight i ((Finset.mem_range.1 hi).trans_le hl)
  have hstart : 0 ≤ before j := by
    simpa [hbefore] using hmono (Nat.zero_le j) hj.le
  have hlast : before (j + 1) ≤ total := hmono hj le_rfl
  have hnext : before (j + 1) - before j = weight j := by
    rw [hbefore]
    simp only
    rw [Finset.sum_range_succ, add_sub_cancel_left]
  have hset : volume {u | u ∈ Ico (0 : ℝ) 1 ∧ draw u = j} =
      volume ({u | u ∈ Ico (0 : ℝ) 1 ∧ draw u = j} \ {0}) :=
    (measure_sdiff_null (measure_singleton 0)).symm
  rw [hset, ← hnext, sub_div]
  apply volume_eq_of_Ioo_subset
  · rintro u ⟨hlow, hhigh⟩
    have hlow' : before j < u * total := (div_lt_iff₀ hpos).1 hlow
    have hhigh' : u * total < before (j + 1) := (lt_div_iff₀ hpos).1 hhigh
    have hu : 0 < u := (div_nonneg hstart hpos.le).trans_lt hlow
    have hu' : u < 1 := hhigh.trans_le ((div_le_one hpos).2 hlast)
    refine ⟨⟨⟨hu.le, hu'⟩, ?_⟩, hu.ne'⟩
    obtain ⟨hbelow, habove⟩ := hdraw u ⟨hu, hu'⟩
    have hdn := hlt u ⟨hu.le, hu'⟩
    apply le_antisymm
    · by_contra hgt
      exact absurd (hmono (Nat.succ_le_of_lt (not_le.1 hgt)) hdn.le)
        (not_le.2 (hbelow.trans hhigh'))
    · by_contra hgt
      exact absurd (hmono (Nat.succ_le_of_lt (not_le.1 hgt)) hj.le)
        (not_le.2 (hlow'.trans_le habove))
  · rintro u ⟨⟨⟨hu, hu'⟩, rfl⟩, hne⟩
    obtain ⟨hbelow, habove⟩ := hdraw u ⟨lt_of_le_of_ne hu (Ne.symm hne), hu'⟩
    exact ⟨(div_le_iff₀ hpos).2 hbelow.le, (le_div_iff₀ hpos).2 habove⟩

/-! ## The tree of sums -/

section Tree

variable {k : ℕ} {w : ℕ → ℝ}

/-- A node holds the weights of the leaves below it. -/
lemma Sums.node_eq_sum (h : Sums (2 ^ k) w) (e d cur : ℕ) (he : d + e = k) (hcur : 2 ^ d ≤ cur)
    (hlt : cur < 2 ^ (d + 1)) :
    ∑ i ∈ Finset.range (cur * 2 ^ e - 2 ^ k), w (2 ^ k + i) + w cur =
      ∑ i ∈ Finset.range ((cur + 1) * 2 ^ e - 2 ^ k), w (2 ^ k + i) := by
  induction e generalizing d cur with
  | zero =>
      obtain rfl : d = k := he
      rw [pow_zero, Nat.mul_one, Nat.mul_one, Nat.sub_add_comm hcur, Finset.sum_range_succ,
        Nat.add_sub_cancel' hcur]
  | succ e ih =>
      have hpow : 2 ^ (d + 1) = 2 * 2 ^ d := pow_succ' 2 d
      have hpow' : 2 ^ (d + 1 + 1) = 2 * 2 ^ (d + 1) := pow_succ' 2 (d + 1)
      have hone : 1 ≤ 2 ^ d := Nat.one_le_two_pow
      have hleaf : cur < 2 ^ k := hlt.trans_le (Nat.pow_le_pow_right two_pos (by omega))
      have hleft := ih (d + 1) (2 * cur) (by omega) (by omega) (by omega)
      have hright := ih (d + 1) (2 * cur + 1) (by omega) (by omega) (by omega)
      have hstart : cur * 2 ^ (e + 1) = 2 * cur * 2 ^ e := by ring
      have hend : (cur + 1) * 2 ^ (e + 1) = (2 * cur + 1 + 1) * 2 ^ e := by ring
      rw [h.sum cur (by omega) hleaf, hstart, hend, ← hright, ← hleft, add_assoc]

/-- The walk goes to the leaf whose cumulative sums have the number between them. -/
lemma Sums.descend_between (h : Sums (2 ^ k) w) (e d cur fuel : ℕ) {p : ℝ} (he : d + e = k)
    (hcur : 2 ^ d ≤ cur) (hlt : cur < 2 ^ (d + 1)) (hfuel : e ≤ fuel)
    (hlow : ∑ i ∈ Finset.range (cur * 2 ^ e - 2 ^ k), w (2 ^ k + i) < p)
    (hhigh : p ≤ ∑ i ∈ Finset.range ((cur + 1) * 2 ^ e - 2 ^ k), w (2 ^ k + i)) :
    ∑ i ∈ Finset.range (descend (2 ^ k) w p fuel cur
        (∑ i ∈ Finset.range (cur * 2 ^ e - 2 ^ k), w (2 ^ k + i)) - 2 ^ k), w (2 ^ k + i) < p ∧
      p ≤ ∑ i ∈ Finset.range (descend (2 ^ k) w p fuel cur
        (∑ i ∈ Finset.range (cur * 2 ^ e - 2 ^ k), w (2 ^ k + i)) - 2 ^ k + 1), w (2 ^ k + i) := by
  induction e generalizing d cur fuel with
  | zero =>
      obtain rfl : d = k := he
      rw [pow_zero, Nat.mul_one] at hlow hhigh ⊢
      have hend : descend (2 ^ d) w p fuel cur (∑ i ∈ Finset.range (cur - 2 ^ d), w (2 ^ d + i)) = cur := by
        cases fuel with
        | zero => rfl
        | succ fuel => rw [descend, if_pos hcur]
      rw [hend, ← Nat.sub_add_comm hcur]
      exact ⟨hlow, hhigh⟩
  | succ e ih =>
      have hpow : 2 ^ (d + 1) = 2 * 2 ^ d := pow_succ' 2 d
      have hpow' : 2 ^ (d + 1 + 1) = 2 * 2 ^ (d + 1) := pow_succ' 2 (d + 1)
      have hone : 1 ≤ 2 ^ d := Nat.one_le_two_pow
      have hleaf : cur < 2 ^ k := hlt.trans_le (Nat.pow_le_pow_right two_pos (by omega))
      have hstart : cur * 2 ^ (e + 1) = 2 * cur * 2 ^ e := by ring
      have hend : (cur + 1) * 2 ^ (e + 1) = (2 * cur + 1 + 1) * 2 ^ e := by ring
      have hleft := h.node_eq_sum e (d + 1) (2 * cur) (by omega) (by omega) (by omega)
      have hright := h.node_eq_sum e (d + 1) (2 * cur + 1) (by omega) (by omega) (by omega)
      cases fuel with
      | zero => omega
      | succ fuel =>
          rw [hstart] at hlow ⊢
          rw [hend, ← hright] at hhigh
          rw [descend, if_neg (Nat.not_le.2 hleaf), hleft]
          by_cases hturn : p > ∑ i ∈ Finset.range ((2 * cur + 1) * 2 ^ e - 2 ^ k), w (2 ^ k + i)
          · rw [if_pos ⟨hturn, by linarith⟩]
            exact ih (d + 1) (2 * cur + 1) fuel (by omega) (by omega) (by omega) (by omega) hturn
              (by rwa [hright] at hhigh)
          · rw [if_neg fun hright => hturn hright.1]
            exact ih (d + 1) (2 * cur) fuel (by omega) (by omega) (by omega) (by omega) hlow
              (not_lt.1 hturn)

/-- The root holds the weights of all leaves. -/
lemma Sums.sum_leaves (h : Sums (2 ^ k) w) : ∑ i ∈ Finset.range (2 ^ k), w (2 ^ k + i) = w 1 := by
  have hsum := h.node_eq_sum k 0 1 (Nat.zero_add k) le_rfl (by norm_num)
  rw [Nat.one_mul, Nat.sub_self, Finset.range_zero, Finset.sum_empty, zero_add] at hsum
  rw [hsum]
  congr 2
  omega

/-- **A tree of sums** draws its leaves in proportion to their weights. -/
theorem Sums.proportional (h : Sums (2 ^ k) w) (hpos : 0 < w 1) :
    Proportional (2 ^ k) (fun i => w (2 ^ k + i)) fun u =>
      descend (2 ^ k) w (u * w 1) (2 ^ k) 1 0 - 2 ^ k := by
  have hroot := h.sum_leaves
  have hone : 1 ≤ 2 ^ k := Nat.one_le_two_pow
  apply Proportional.of_cumulative
  · exact fun i hi => h.nonneg _ (by omega) (by omega)
  · rwa [hroot]
  · intro u _
    have hrange : 2 ^ k ≤ descend (2 ^ k) w (u * w 1) (2 ^ k) 1 0 ∧
        descend (2 ^ k) w (u * w 1) (2 ^ k) 1 0 < 2 * 2 ^ k :=
      descend_range (by omega) le_rfl (by omega)
    omega
  · rintro u ⟨hu, hu'⟩
    rw [hroot]
    have hbetween := h.descend_between k 0 1 (2 ^ k) (p := u * w 1) (Nat.zero_add k) le_rfl
      (by norm_num) Nat.lt_two_pow_self.le
    rw [Nat.one_mul, Nat.sub_self, Finset.range_zero, Finset.sum_empty] at hbetween
    refine hbetween (mul_pos hu hpos) ?_
    have hend : (1 + 1) * 2 ^ k - 2 ^ k = 2 ^ k := by omega
    rw [hend, hroot]
    exact mul_le_of_le_one_left hpos.le hu'.le

end Tree

/-! ## Draws from a tree, one after the other -/

section Draws

variable {K : Type*} [Field K] [LinearOrder K] {leaves : ℕ} {w : ℕ → K}

/-- The tree after some draws. -/
def treeAfter (leaves : ℕ) (replace : Bool) (us : List K) (w : ℕ → K) : ℕ → K :=
  us.foldl (fun w u => (drawLeaf leaves replace u w).2) w

lemma drawLeaves_append (leaves : ℕ) (replace : Bool) (us vs : List K) (w : ℕ → K) :
    drawLeaves leaves replace (us ++ vs) w =
      drawLeaves leaves replace us w ++ drawLeaves leaves replace vs (treeAfter leaves replace us w) := by
  induction us generalizing w with
  | nil => rfl
  | cons u us ih =>
      rw [List.cons_append, drawLeaves, drawLeaves, ih, List.cons_append, treeAfter, treeAfter,
        List.foldl_cons]

/-- **Step lemma**: a draw keeps the sums, and clears the leaf it gives. -/
lemma Sums.after_drawLeaf (h : Sums leaves w) (replace : Bool) (u : K) :
    Sums leaves (drawLeaf leaves replace u w).2 ∧ ∀ j < leaves,
      (drawLeaf leaves replace u w).2 (leaves + j) =
        if replace = false ∧ (drawLeaf leaves replace u w).1 = some j then 0 else w (leaves + j) := by
  have hpos := h.pos
  rw [drawLeaf]
  by_cases hroot : w 1 ≤ 0
  · rw [if_pos hroot]
    exact ⟨h, fun j _ => by simp⟩
  · rw [if_neg hroot]
    cases replace with
    | true => exact ⟨h, fun j _ => by simp⟩
    | false =>
        obtain ⟨hge, hlt⟩ : leaves ≤ descend leaves w (u * w 1) leaves 1 0 ∧
            descend leaves w (u * w 1) leaves 1 0 < 2 * leaves :=
          descend_range (by omega) le_rfl (by omega)
        obtain ⟨k, hk⟩ := Nat.exists_eq_add_of_le hge
        have hclear := h.clearLeaf (k := k) (by omega)
        simp only [hk, Bool.false_eq_true, if_false, true_and, Nat.add_sub_cancel_left,
          Option.some.injEq]
        refine ⟨hclear.1, fun j hj => ?_⟩
        rw [hclear.2 j hj]
        simp only [eq_comm]

/-- **Run lemma**: the sums are kept, and the leaves that were given are clear. -/
lemma Sums.after_drawLeaves (h : Sums leaves w) (replace : Bool) (us : List K) :
    Sums leaves (treeAfter leaves replace us w) ∧ ∀ j < leaves,
      treeAfter leaves replace us w (leaves + j) =
        if replace = false ∧ some j ∈ drawLeaves leaves replace us w then 0 else w (leaves + j) := by
  induction us generalizing w with
  | nil => exact ⟨h, fun j _ => by simp [treeAfter, drawLeaves]⟩
  | cons u us ih =>
      obtain ⟨hsums, hleaf⟩ := h.after_drawLeaf replace u
      obtain ⟨hsums', hleaf'⟩ := ih hsums
      refine ⟨hsums', fun j hj => ?_⟩
      have hstep := hleaf' j hj
      rw [hleaf j hj] at hstep
      rw [treeAfter, List.foldl_cons, ← treeAfter, hstep]
      simp only [drawLeaves, List.mem_cons, and_or_left, eq_comm (a := some j)]
      by_cases hrest : replace = false ∧
          some j ∈ drawLeaves leaves replace us (drawLeaf leaves replace u w).2
      · rw [if_pos hrest, if_pos (Or.inr hrest)]
      · rw [if_neg hrest]
        simp only [hrest, or_false]

end Draws

/-! ## The alias table -/

namespace AliasTable

variable {avg : ℝ} {need : ℕ → ℝ} {t : AliasTable ℝ}

/-- The item that has the place of a number in the cells. -/
def lookup {K : Type*} [Field K] [LinearOrder K] [FloorSemiring K] (avg : K) (n : ℕ) (t : AliasTable K)
    (u : K) : ℕ :=
  let i := ⌊u * n⌋₊
  if (u * n - i) * avg ≤ t.bound i then i else t.other i

/-- The numbers in a cell. -/
def cell (n i : ℕ) : Set ℝ :=
  Ico (i / n : ℝ) ((i + 1) / n)

lemma floor_of_mem_cell (hn : 0 < n) {i : ℕ} {u : ℝ} (hu : u ∈ cell n i) : ⌊u * n⌋₊ = i := by
  have hn' : (0 : ℝ) < n := Nat.cast_pos.2 hn
  obtain ⟨hlow, hhigh⟩ := hu
  have hlow' : (i : ℝ) ≤ u * n := (div_le_iff₀ hn').1 hlow
  have hhigh' : u * n < i + 1 := (lt_div_iff₀ hn').1 hhigh
  exact (Nat.floor_eq_iff ((Nat.cast_nonneg i).trans hlow')).2 ⟨hlow', hhigh'⟩

lemma mem_cell_floor (hn : 0 < n) {u : ℝ} (hu : u ∈ Ico (0 : ℝ) 1) : u ∈ cell n ⌊u * n⌋₊ := by
  have hn' : (0 : ℝ) < n := Nat.cast_pos.2 hn
  have hnonneg : 0 ≤ u * n := mul_nonneg hu.1 hn'.le
  exact ⟨(div_le_iff₀ hn').2 (Nat.floor_le hnonneg), (lt_div_iff₀ hn').2 (Nat.lt_floor_add_one _)⟩

lemma floor_lt (hn : 0 < n) {u : ℝ} (hu : u ∈ Ico (0 : ℝ) 1) : ⌊u * n⌋₊ < n := by
  have hn' : (0 : ℝ) < n := Nat.cast_pos.2 hn
  rw [Nat.floor_lt (mul_nonneg hu.1 hn'.le)]
  exact mul_lt_of_lt_one_left hn' hu.2

lemma cell_subset {i : ℕ} (hi : i < n) : cell n i ⊆ Ico (0 : ℝ) 1 := by
  have hn : (0 : ℝ) < n := Nat.cast_pos.2 (Nat.zero_lt_of_lt hi)
  have hle : (i : ℝ) + 1 ≤ n := by exact_mod_cast hi
  exact fun u hu => ⟨(div_nonneg (Nat.cast_nonneg i) hn.le).trans hu.1,
    hu.2.trans_le ((div_le_one hn).2 hle)⟩

/-- Where the part of a cell begins that its alias has. -/
noncomputable def cut (avg : ℝ) (n : ℕ) (t : AliasTable ℝ) (i : ℕ) : ℝ :=
  (i + t.bound i / avg) / n

lemma lookup_of_mem_cell (hn : 0 < n) (havg : 0 < avg) {i : ℕ} {u : ℝ} (hu : u ∈ cell n i) :
    lookup avg n t u = if u ≤ cut avg n t i then i else t.other i := by
  have hn' : (0 : ℝ) < n := Nat.cast_pos.2 hn
  have hiff : (u * n - i) * avg ≤ t.bound i ↔ u ≤ cut avg n t i := by
    rw [cut, le_div_iff₀ hn', ← le_div_iff₀ havg, sub_le_iff_le_add']
  rw [lookup]
  simp only [floor_of_mem_cell hn hu, hiff]

lemma measurableSet_cell (hn : 0 < n) (havg : 0 < avg) (i j : ℕ) :
    MeasurableSet {u | u ∈ cell n i ∧ lookup avg n t u = j} := by
  have hset : {u | u ∈ cell n i ∧ lookup avg n t u = j} =
      cell n i ∩ {u | (u ≤ cut avg n t i ∧ i = j) ∨ (cut avg n t i < u ∧ t.other i = j)} := by
    ext u
    refine and_congr_right fun hu => ?_
    rw [lookup_of_mem_cell hn havg hu, mem_ofPred_eq]
    split_ifs with hle
    · simp [hle, hle.not_gt]
    · simp [hle, not_le.1 hle]
  rw [hset]
  refine measurableSet_Ico.inter (MeasurableSet.union ?_ ?_)
  · exact measurableSet_Iic.inter (MeasurableSet.const _)
  · exact measurableSet_Ioi.inter (MeasurableSet.const _)

lemma Inv.volume_cell (h : t.Inv avg n need) (havg : 0 < avg) {i j : ℕ} (hi : i < n) :
    volume {u | u ∈ cell n i ∧ lookup avg n t u = j} = ENNReal.ofReal (t.part avg j i / (n * avg)) := by
  have hn : 0 < n := Nat.zero_lt_of_lt hi
  have hn' : (0 : ℝ) < n := Nat.cast_pos.2 hn
  obtain ⟨hbound, hbound'⟩ := h.bound_mem i hi
  have hlow : (i / n : ℝ) ≤ cut avg n t i := by
    rw [cut]
    exact div_le_div_of_nonneg_right (le_add_of_nonneg_right (div_nonneg hbound havg.le)) hn'.le
  have hhigh : cut avg n t i ≤ (i + 1) / n := by
    rw [cut]
    exact div_le_div_of_nonneg_right (add_le_add_right ((div_le_one havg).2 hbound') _) hn'.le
  have hfirst : cut avg n t i - i / n = t.bound i / (n * avg) := by
    rw [cut]
    field_simp
    ring
  have hsecond : (i + 1) / n - cut avg n t i = (avg - t.bound i) / (n * avg) := by
    rw [cut]
    field_simp
    ring
  by_cases hown : i = j
  · by_cases hother : t.other i = j
    · have hall : {u | u ∈ cell n i ∧ lookup avg n t u = j} = cell n i := by
        ext u
        refine ⟨fun hu => hu.1, fun hu => ⟨hu, ?_⟩⟩
        rw [lookup_of_mem_cell hn havg hu]
        split_ifs <;> assumption
      rw [hall, cell, Real.volume_Ico, part, if_pos hown, if_pos hother]
      congr 1
      field_simp
      ring
    · rw [part, if_pos hown, if_neg hother, add_zero, ← hfirst]
      apply volume_eq_of_Ioo_subset
      · intro u hu
        have hmem : u ∈ cell n i := ⟨hu.1.le, hu.2.trans_le hhigh⟩
        exact ⟨hmem, by rw [lookup_of_mem_cell hn havg hmem, if_pos hu.2.le, hown]⟩
      · rintro u ⟨hu, hj⟩
        rw [lookup_of_mem_cell hn havg hu] at hj
        split_ifs at hj with hle
        · exact ⟨hu.1, hle⟩
        · exact absurd hj hother
  · by_cases hother : t.other i = j
    · rw [part, if_neg hown, if_pos hother, zero_add, ← hsecond]
      apply volume_eq_of_Ioo_subset
      · intro u hu
        have hmem : u ∈ cell n i := ⟨hlow.trans hu.1.le, hu.2⟩
        exact ⟨hmem, by rw [lookup_of_mem_cell hn havg hmem, if_neg hu.1.not_ge, hother]⟩
      · rintro u ⟨hu, hj⟩
        rw [lookup_of_mem_cell hn havg hu] at hj
        split_ifs at hj with hle
        · exact absurd hj hown
        · exact ⟨(not_le.1 hle).le, hu.2.le⟩
    · have hnone : {u | u ∈ cell n i ∧ lookup avg n t u = j} = ∅ := by
        ext u
        refine ⟨fun hu => ?_, fun hu => absurd hu (notMem_empty u)⟩
        obtain ⟨hu, hj⟩ := hu
        rw [lookup_of_mem_cell hn havg hu] at hj
        split_ifs at hj
        · exact absurd hj hown
        · exact absurd hj hother
      rw [hnone, measure_empty, part, if_neg hown, if_neg hother, add_zero, zero_div,
        ENNReal.ofReal_zero]

/-- **A finished alias table** draws its items in proportion to what they need. -/
theorem proportional (h : t.Inv avg n need) (hnone : t.step avg = none) (hn : 0 < n) (havg : 0 < avg)
    (htotal : ∑ j ∈ Finset.range n, need j = n * avg) : Proportional n need (lookup avg n t) := by
  refine ⟨fun u hu => ?_, fun j hj => ?_⟩
  · have hfloor := floor_lt hn hu
    rw [lookup]
    split_ifs
    · exact hfloor
    · exact h.other_lt _ hfloor
  · have hcells : {u | u ∈ Ico (0 : ℝ) 1 ∧ lookup avg n t u = j} =
        ⋃ i ∈ Finset.range n, {u | u ∈ cell n i ∧ lookup avg n t u = j} := by
      ext u
      simp only [mem_ofPred_eq, mem_iUnion, Finset.mem_range, exists_prop]
      refine ⟨fun hu => ⟨_, floor_lt hn hu.1, mem_cell_floor hn hu.1, hu.2⟩, ?_⟩
      rintro ⟨i, hi, hu, hj⟩
      exact ⟨cell_subset hi hu, hj⟩
    have hdisjoint : (Finset.range n : Set ℕ).PairwiseDisjoint fun i =>
        {u | u ∈ cell n i ∧ lookup avg n t u = j} := by
      intro i _ i' _ hne
      refine Set.disjoint_left.2 fun u hu hu' => hne ?_
      rw [← floor_of_mem_cell hn hu.1, floor_of_mem_cell hn hu'.1]
    have hnonneg : ∀ i ∈ Finset.range n, 0 ≤ t.part avg j i / (n * avg) := by
      intro i hi
      obtain ⟨hbound, hbound'⟩ := h.bound_mem i (Finset.mem_range.1 hi)
      refine div_nonneg ?_ (mul_nonneg (Nat.cast_nonneg n) havg.le)
      rw [part]
      split_ifs <;> linarith
    rw [hcells, measure_biUnion_finset hdisjoint fun i _ => measurableSet_cell hn havg i j,
      Finset.sum_congr rfl fun i hi => h.volume_cell havg (Finset.mem_range.1 hi),
      ← ENNReal.ofReal_sum_of_nonneg hnonneg, ← Finset.sum_div, h.sum_part_eq hnone htotal hj, htotal]

end AliasTable

end DglAscend
