import DglAscend.Random.Choice
import Mathlib.Algebra.BigOperators.Group.Finset.Basic
import Mathlib.Algebra.BigOperators.Group.Finset.Piecewise
import Mathlib.Algebra.Order.BigOperators.Group.Finset
import Mathlib.Tactic.Ring

/-!
# The tree sampler

`utils::TreeSampler` of `sample_utils.h` over a whole sequence of draws, with the array of decreases
that it may have.  A number is drawn as a share `u` of the weight at the root.
-/

namespace DglAscend.Random

/-- `utils::TreeSampler` -/
structure TreeSampler where
  numLeafs : ℕ
  weight : ℕ → ℚ
  decrease : Option (List ℚ)

namespace TreeSampler

/-- The sampler of some probabilities. -/
def ofProb (prob : List ℚ) (decrease : Option (List ℚ)) : TreeSampler :=
  ⟨Random.numLeafs prob.length, buildTree (Random.numLeafs prob.length) prob, decrease⟩

/-- The current weight of a category. -/
def leaf (s : TreeSampler) (t : ℕ) : ℚ := s.weight (s.numLeafs + t)

/-- The weight of a category after it was drawn. -/
def lowered (s : TreeSampler) (t : ℕ) : ℚ :=
  match s.decrease with
  | none => 0
  | some decrease => s.leaf t - decrease.getD t 0

/-- The loop from a leaf up to the root. -/
def lower (s : TreeSampler) (t : ℕ) : TreeSampler where
  numLeafs := s.numLeafs
  weight := setLeaf s.numLeafs (s.numLeafs + t + 1) (s.numLeafs + t) (s.lowered t) s.weight
  decrease := s.decrease

/-- `Draw`; `none` is `-1`. -/
def draw (replace : Bool) (u : ℚ) (s : TreeSampler) : Option ℕ × TreeSampler :=
  if s.weight 1 ≤ 0 then (none, s)
  else
    let cur := descend s.numLeafs s.weight (u * s.weight 1) s.numLeafs 1 0
    let rst := cur - s.numLeafs
    (some rst, if replace then s else s.lower rst)

/-- The sampler after some draws. -/
def afterDraws (replace : Bool) (s : TreeSampler) (us : List ℚ) : TreeSampler :=
  us.foldl (fun s u => (s.draw replace u).2) s

/-- Something holds for each draw and the sampler before it. -/
def EachDraw (replace : Bool) (P : TreeSampler → ℚ → Prop) : TreeSampler → List ℚ → Prop
  | _, [] => True
  | s, u :: us => P s u ∧ EachDraw replace P (s.draw replace u).2 us

/-- Every inner node is the sum of its children. -/
def Adds (s : TreeSampler) : Prop :=
  ∀ i, 1 ≤ i → i < s.numLeafs → s.weight i = s.weight (2 * i) + s.weight (2 * i + 1)

/-- The draw is one of the `n` categories, and one with a weight. -/
def DrawsAvailable (n : ℕ) (replace : Bool) (s : TreeSampler) (u : ℚ) : Prop :=
  0 < s.weight 1 → ∃ t < n, (s.draw replace u).1 = some t ∧ 0 < s.leaf t

/-- The number drawn is not `0`, or the first category has a weight. -/
def NotBelow (s : TreeSampler) (u : ℚ) : Prop := 0 < s.weight 1 → u ≠ 0 ∨ 0 < s.leaf 0

/-- The decrease of a category is the weight of one of its candidates. -/
def PerCandidate (prob : List ℚ) (decrease : Option (List ℚ)) : Prop :=
  ∀ d ∈ decrease, ∃ count : ℕ → ℕ, ∀ t < prob.length, prob.getD t 0 = count t * d.getD t 0

/-! ## Sums -/

variable {s : TreeSampler}

lemma draw_of_le (hroot : s.weight 1 ≤ 0) (replace : Bool) (u : ℚ) :
    s.draw replace u = (none, s) := if_pos hroot

lemma exists_draw (hpos : 0 < s.numLeafs) (hroot : 0 < s.weight 1) (replace : Bool) (u : ℚ) :
    ∃ t < s.numLeafs,
      descend s.numLeafs s.weight (u * s.weight 1) s.numLeafs 1 0 = s.numLeafs + t ∧
        s.draw replace u = (some t, if replace then s else s.lower t) := by
  obtain ⟨hge, hlt⟩ : s.numLeafs ≤ descend s.numLeafs s.weight (u * s.weight 1) s.numLeafs 1 0 ∧
      descend s.numLeafs s.weight (u * s.weight 1) s.numLeafs 1 0 < 2 * s.numLeafs :=
    descend_range (by omega) le_rfl (by omega)
  obtain ⟨t, ht⟩ := Nat.exists_eq_add_of_le hge
  refine ⟨t, by omega, ht, ?_⟩
  rw [draw, if_neg (not_le.2 hroot), ht]
  simp only [Nat.add_sub_cancel_left]

lemma numLeafs_draw (s : TreeSampler) (replace : Bool) (u : ℚ) :
    (s.draw replace u).2.numLeafs = s.numLeafs := by
  rw [draw]
  split
  · rfl
  · cases replace <;> rfl

variable {t j : ℕ}

lemma leaf_lower (hpos : 0 < s.numLeafs) (ht : t < s.numLeafs) (hj : j < s.numLeafs) :
    (s.lower t).leaf j = if j = t then s.lowered t else s.leaf j :=
  setLeaf_add hpos ht (s.lowered t) hj

lemma Adds.draw (h : s.Adds) (hpos : 0 < s.numLeafs) (replace : Bool) (u : ℚ) :
    (s.draw replace u).2.Adds := by
  rcases le_or_gt (s.weight 1) 0 with hroot | hroot
  · rwa [draw_of_le hroot]
  · obtain ⟨t, ht, -, hdraw⟩ := exists_draw hpos hroot replace u
    rw [hdraw]
    cases replace with
    | true => exact h
    | false =>
        have hset := SumsExcept.setLeaf hpos ht (s.lowered t) fun i hi hlt _ => h i hi hlt
        exact fun i hi hlt => hset i hi hlt (by omega)

lemma adds_ofProb (prob : List ℚ) (decrease : Option (List ℚ)) : (ofProb prob decrease).Adds :=
  fun _ hi hlt => sumUp_sum (fun j hj hjlt => absurd hjlt (by simp only [ofProb]; omega)) hi hlt

/-- **Every inner node is the sum of its children** after all draws. -/
theorem adds_afterDraws (prob : List ℚ) (decrease : Option (List ℚ)) (replace : Bool) (us : List ℚ) :
    ((ofProb prob decrease).afterDraws replace us).Adds := by
  have hrun (s : TreeSampler) (hpos : 0 < s.numLeafs) (h : s.Adds) : (s.afterDraws replace us).Adds := by
    induction us generalizing s with
    | nil => exact h
    | cons u us ih =>
        exact ih _ (by rw [numLeafs_draw]; exact hpos) (h.draw hpos replace u)
  exact hrun _ (numLeafs_pos _) (adds_ofProb prob decrease)

/-! ## Stock -/

/-- A category has a number of candidates left, all of one weight. -/
structure Stocked (s : TreeSampler) (n : ℕ) (unit : ℕ → ℚ) (stock : ℕ → ℕ) : Prop where
  sums : Sums s.numLeafs s.weight
  pow : ∃ k, s.numLeafs = 2 ^ k
  le : n ≤ s.numLeafs
  leaf : ∀ t < s.numLeafs, s.leaf t = stock t * unit t
  padding : ∀ t, n ≤ t → stock t = 0
  once : s.decrease = none → ∀ t, stock t ≤ 1
  units : ∀ d ∈ s.decrease, ∀ t < n, d.getD t 0 = unit t

/-- One candidate of a category is taken. -/
def take (stock : ℕ → ℕ) (t : ℕ) : ℕ → ℕ := Function.update stock t (stock t - 1)

variable {s : TreeSampler} {n : ℕ} {unit : ℕ → ℚ} {stock : ℕ → ℕ} {u : ℚ} (replace : Bool)

section

variable (h : s.Stocked n unit stock)
include h

lemma Stocked.leaf_pos (ht : t < s.numLeafs) (hpos : 0 < s.leaf t) :
    t < n ∧ 0 < stock t ∧ 0 < unit t := by
  rw [h.leaf t ht] at hpos
  have hstock : 0 < stock t := by
    by_contra hzero
    rw [Nat.eq_zero_of_not_pos hzero, Nat.cast_zero, zero_mul] at hpos
    exact lt_irrefl 0 hpos
  refine ⟨?_, hstock, pos_of_mul_pos_right hpos (Nat.cast_nonneg _)⟩
  by_contra hn
  exact hstock.ne' (h.padding t (Nat.not_lt.1 hn))

lemma Stocked.leaf_pos_of_stock (ht : t < n) (hstock : 0 < stock t) (hunit : 0 < unit t) :
    0 < s.leaf t := by
  rw [h.leaf t (ht.trans_le h.le)]
  exact mul_pos (Nat.cast_pos.2 hstock) hunit

/-- The new weight of a category that was drawn. -/
lemma Stocked.lower (ht : t < s.numLeafs) (hpos : 0 < s.leaf t) :
    (s.lower t).Stocked n unit (take stock t) := by
  obtain ⟨hn, hstock, hunit⟩ := h.leaf_pos ht hpos
  have hvalue : s.lowered t = ((stock t - 1 : ℕ) : ℚ) * unit t := by
    rw [lowered]
    cases hd : s.decrease with
    | none =>
        have hone := h.once hd t
        have hlast : stock t - 1 = 0 := by omega
        rw [hlast, Nat.cast_zero, zero_mul]
    | some d =>
        show s.leaf t - d.getD t 0 = _
        rw [h.units d hd t hn, h.leaf t ht, Nat.cast_sub hstock, Nat.cast_succ]
        ring
  have hleaf (j : ℕ) (hj : j < s.numLeafs) : (s.lower t).leaf j = take stock t j * unit j := by
    rw [leaf_lower h.sums.pos ht hj, hvalue, take]
    by_cases hjt : j = t
    · rw [if_pos hjt, hjt, Function.update_self]
    · rw [if_neg hjt, Function.update_of_ne hjt]
      exact h.leaf j hj
  have hnonneg : 0 ≤ s.lowered t := by
    rw [hvalue]
    exact mul_nonneg (Nat.cast_nonneg _) hunit.le
  refine ⟨h.sums.setLeaf ht hnonneg, h.pow, h.le, hleaf,
    fun j hj => ?_, fun hd j => ?_, h.units⟩
  · rw [take, Function.update_of_ne (by omega)]
    exact h.padding j hj
  · rw [take]
    by_cases hjt : j = t
    · rw [hjt, Function.update_self]
      exact (Nat.sub_le _ _).trans (h.once hd t)
    · rw [Function.update_of_ne hjt]
      exact h.once hd j

/-- The number `0` draws the first category. -/
lemma Stocked.draw_zero (hroot : 0 < s.weight 1) : (s.draw replace 0).1 = some 0 := by
  obtain ⟨k, hk⟩ := h.pow
  obtain ⟨t, -, hwalk, hdraw⟩ := exists_draw h.sums.pos hroot replace 0
  have hsums := h.sums
  rw [hk] at hsums
  have hzero := hsums.descend_zero (2 ^ k) (d := 0) (Nat.zero_le k) (Nat.le_add_left _ _)
  rw [hk, zero_mul] at hwalk
  rw [pow_zero, hwalk] at hzero
  rw [hdraw]
  exact congrArg some (by omega)

/-- **One draw** takes a candidate of its category. -/
theorem Stocked.draw (hu : 0 ≤ u ∧ u < 1) (hroot : 0 < s.weight 1) (hbelow : s.NotBelow u) :
    ∃ t s', s.draw replace u = (some t, s') ∧ 0 < s.leaf t ∧ t < n ∧
      0 < stock t ∧ 0 < unit t ∧ s'.Stocked n unit (if replace then stock else take stock t) := by
  obtain ⟨t, ht, hwalk, hdraw⟩ := exists_draw h.sums.pos hroot replace u
  have hpos : 0 < s.leaf t := by
    by_cases hzero : u = 0
    · have hfirst := h.draw_zero replace hroot
      rw [← hzero, hdraw] at hfirst
      obtain rfl : t = 0 := Option.some.inj hfirst
      exact (hbelow hroot).resolve_left (not_not.2 hzero)
    · have hlow : 0 < u * s.weight 1 := mul_pos (lt_of_le_of_ne hu.1 (Ne.symm hzero)) hroot
      have hhigh : u * s.weight 1 ≤ 0 + s.weight 1 := by
        rw [zero_add]
        exact mul_le_of_le_one_left hroot.le hu.2.le
      have hend := h.sums.descend_pos s.numLeafs le_rfl (by omega) hlow hhigh
      rwa [hwalk] at hend
  obtain ⟨hn, hstock, hunit⟩ := h.leaf_pos ht hpos
  refine ⟨t, _, hdraw, hpos, hn, hstock, hunit, ?_⟩
  cases replace with
  | true => exact h
  | false => exact h.lower ht hpos

/-- A draw is available exactly if it is not a `0` below the first weight. -/
lemma Stocked.drawsAvailable_iff (hu : 0 ≤ u ∧ u < 1) :
    s.DrawsAvailable n replace u ↔ s.NotBelow u := by
  constructor
  · intro havail hroot
    obtain ⟨t, -, hdraw, hpos⟩ := havail hroot
    by_cases hzero : u = 0
    · rw [hzero, h.draw_zero replace hroot] at hdraw
      obtain rfl : 0 = t := Option.some.inj hdraw
      exact .inr hpos
    · exact .inl hzero
  · intro hbelow hroot
    obtain ⟨t, s', hdraw, hpos, hn, -⟩ := h.draw replace hu hroot hbelow
    exact ⟨t, hn, by rw [hdraw], hpos⟩

/-- A draw that hits a category with candidates left takes one of them. -/
lemma Stocked.draw_of_stock (hu : 0 ≤ u ∧ u < 1) (hdraw : (s.draw replace u).1 = some t)
    (ht : t < n) (hstock : 0 < stock t) (hunit : 0 < unit t) :
    s.NotBelow u ∧ (s.draw replace u).2.Stocked n unit (if replace then stock else take stock t) := by
  have hbelow : s.NotBelow u := (h.drawsAvailable_iff replace hu).1 fun _ =>
    ⟨t, ht, hdraw, h.leaf_pos_of_stock ht hstock hunit⟩
  refine ⟨hbelow, ?_⟩
  rcases le_or_gt (s.weight 1) 0 with hroot | hroot
  · rw [draw_of_le hroot] at hdraw
    cases hdraw
  · obtain ⟨t', s', hpair, -, -, -, -, hnext⟩ := h.draw replace hu hroot hbelow
    rw [hpair] at hdraw ⊢
    obtain rfl : t' = t := Option.some.inj hdraw
    exact hnext

end

variable {prob us : List ℚ}

/-- **All draws are available** exactly if none is a `0` below the first weight. -/
theorem Stocked.eachDraw_iff (h : s.Stocked n unit stock) (hus : ∀ u ∈ us, 0 ≤ u ∧ u < 1) :
    EachDraw replace (fun s u => s.DrawsAvailable n replace u) s us ↔ EachDraw replace NotBelow s us := by
  induction us generalizing s stock with
  | nil => exact Iff.rfl
  | cons u us ih =>
      have hu := hus u List.mem_cons_self
      have hus' : ∀ u ∈ us, 0 ≤ u ∧ u < 1 := fun u hu => hus u (List.mem_cons_of_mem _ hu)
      rw [EachDraw, EachDraw, h.drawsAvailable_iff replace hu]
      refine and_congr_right fun hbelow => ?_
      rcases le_or_gt (s.weight 1) 0 with hroot | hroot
      · rw [draw_of_le hroot]
        exact ih h hus'
      · obtain ⟨t, s', hdraw, -, -, -, -, hnext⟩ := h.draw replace hu hroot hbelow
        rw [hdraw]
        exact ih hnext hus'

lemma leaf_ofProb (prob : List ℚ) (decrease : Option (List ℚ)) (t : ℕ) :
    (ofProb prob decrease).leaf t = prob.getD t 0 := buildTree_leaf prob (numLeafs_pos _)

/-- A sampler without decreases has one candidate for each category with a weight. -/
lemma stocked_none (hprob : ∀ x ∈ prob, 0 ≤ x) :
    (ofProb prob none).Stocked prob.length (prob.getD · 0)
      (fun t => if 0 < prob.getD t 0 then 1 else 0) where
  sums := sums_buildTree (numLeafs_pos _) hprob
  pow := ⟨_, rfl⟩
  le := le_numLeafs _
  leaf t _ := by
    rw [leaf_ofProb]
    by_cases hpos : 0 < prob.getD t 0
    · rw [if_pos hpos, Nat.cast_one, one_mul]
    · rw [if_neg hpos, Nat.cast_zero, zero_mul]
      exact le_antisymm (not_lt.1 hpos) (getD_nonneg hprob t)
  padding t ht := if_neg (by rw [List.getD_eq_default _ _ ht]; exact lt_irrefl 0)
  once _ t := by
    split
    · exact le_rfl
    · exact Nat.zero_le 1
  units := nofun

/-- A sampler with decreases has the candidates that make up the weights. -/
lemma stocked_some {prob d : List ℚ} (hprob : ∀ x ∈ prob, 0 ≤ x) {count : ℕ → ℕ}
    (hcount : ∀ t < prob.length, prob.getD t 0 = count t * d.getD t 0) :
    (ofProb prob (some d)).Stocked prob.length (d.getD · 0)
      (fun t => if t < prob.length then count t else 0) where
  sums := sums_buildTree (numLeafs_pos _) hprob
  pow := ⟨_, rfl⟩
  le := le_numLeafs _
  leaf t _ := by
    rw [leaf_ofProb]
    by_cases ht : t < prob.length
    · rw [if_pos ht, hcount t ht]
    · rw [if_neg ht, List.getD_eq_default _ _ (Nat.not_lt.1 ht), Nat.cast_zero, zero_mul]
  padding t ht := if_neg (Nat.not_lt.2 ht)
  once := nofun
  units d' hd t _ := by rw [Option.some.inj hd]

/-- **The draws of a sampler.**  All of them are available exactly if none is a `0` below the first
weight. -/
theorem eachDraw_ofProb_iff {decrease : Option (List ℚ)} (hprob : ∀ x ∈ prob, 0 ≤ x)
    (hdecrease : PerCandidate prob decrease) (hus : ∀ u ∈ us, 0 ≤ u ∧ u < 1) :
    EachDraw replace (fun s u => s.DrawsAvailable prob.length replace u) (ofProb prob decrease) us ↔
      EachDraw replace NotBelow (ofProb prob decrease) us := by
  cases decrease with
  | none => exact (stocked_none hprob).eachDraw_iff replace hus
  | some d =>
      obtain ⟨count, hcount⟩ := hdecrease d rfl
      exact (stocked_some hprob hcount).eachDraw_iff replace hus

/-! ## Draws without replacement -/

/-- The candidates with a weight that are left. -/
def left (n : ℕ) (unit : ℕ → ℚ) (stock : ℕ → ℕ) : ℕ :=
  ∑ t ∈ (Finset.range n).filter (0 < unit ·), stock t

/-- The category that is drawn loses one candidate. -/
lemma left_take (hn : t < n) (hunit : 0 < unit t) (hstock : 0 < stock t) :
    left n unit (take stock t) + 1 = left n unit stock := by
  have ht : t ∈ (Finset.range n).filter (0 < unit ·) :=
    Finset.mem_filter.2 ⟨Finset.mem_range.2 hn, hunit⟩
  rw [left, left, take, Finset.sum_update_of_mem ht, ← Finset.add_sum_erase _ stock ht,
    Finset.sdiff_singleton_eq_erase]
  omega

/-- With a candidate left there is weight at the root. -/
lemma Stocked.root_pos (h : s.Stocked n unit stock) (hleft : 0 < left n unit stock) :
    0 < s.weight 1 := by
  obtain ⟨t, ht, hstock⟩ := Finset.exists_ne_zero_of_sum_ne_zero hleft.ne'
  obtain ⟨hn, hunit⟩ := Finset.mem_filter.1 ht
  have hpos := h.leaf_pos_of_stock (Finset.mem_range.1 hn) (Nat.pos_of_ne_zero hstock) hunit
  have hlt : t < s.numLeafs := (Finset.mem_range.1 hn).trans_le h.le
  exact hpos.trans_le (h.sums.le_root (by omega) (by omega))

/-- What is drawn, one after the other. -/
def draws (replace : Bool) : TreeSampler → List ℚ → List (Option ℕ)
  | _, [] => []
  | s, u :: us => (s.draw replace u).1 :: draws replace (s.draw replace u).2 us

/-- As many draws as there are candidates take different ones. -/
theorem Stocked.draws_once (h : s.Stocked n unit stock) (hus : ∀ u ∈ us, 0 ≤ u ∧ u < 1)
    (hleft : us.length ≤ left n unit stock) (hbelow : EachDraw false NotBelow s us) :
    ∃ picks : List ℕ,
      s.draws false us = picks.map some ∧ (∀ t, picks.count t ≤ stock t) ∧
        ∀ t ∈ picks, t < n ∧ 0 < unit t := by
  induction us generalizing s stock with
  | nil => exact ⟨[], rfl, fun _ => Nat.zero_le _, nofun⟩
  | cons u us ih =>
      have hroot := h.root_pos (Nat.zero_lt_of_lt hleft)
      obtain ⟨t, s', hdraw, -, hn, hstock, hunit, hnext⟩ :=
        h.draw false (hus u List.mem_cons_self) hroot hbelow.1
      have htake := left_take hn hunit hstock
      have hrest := hbelow.2
      rw [hdraw] at hrest
      obtain ⟨picks, hpicks, hcount, hmem⟩ := ih hnext (fun u hu => hus u (List.mem_cons_of_mem _ hu))
        (by rw [List.length_cons] at hleft; simp only [Bool.false_eq_true, if_false]; omega) hrest
      refine ⟨t :: picks, ?_, fun j => ?_, ?_⟩
      · rw [draws, hdraw, hpicks, List.map_cons]
      · have hj := hcount j
        simp only [Bool.false_eq_true, if_false, take] at hj
        by_cases hjt : j = t
        · rw [hjt, Function.update_self] at hj
          rw [hjt, List.count_cons_self]
          omega
        · rw [Function.update_of_ne hjt] at hj
          rwa [List.count_cons_of_ne (Ne.symm hjt)]
      · rintro j hj
        rcases List.mem_cons.1 hj with rfl | hj
        · exact ⟨hn, hunit⟩
        · exact hmem j hj

/-- Draws of categories that have candidates left are no `0` below the first weight. -/
lemma Stocked.eachDraw_of_draws (h : s.Stocked n unit stock) (hus : ∀ u ∈ us, 0 ≤ u ∧ u < 1)
    {picks : List ℕ} (hdraws : s.draws false us = picks.map some)
    (hcount : ∀ t, picks.count t ≤ stock t) (hunit : ∀ t ∈ picks, t < n ∧ 0 < unit t) :
    EachDraw false NotBelow s us := by
  induction us generalizing s stock picks with
  | nil => trivial
  | cons u us ih =>
      rw [draws] at hdraws
      cases picks with
      | nil => cases hdraws
      | cons t picks =>
          rw [List.map_cons, List.cons.injEq] at hdraws
          have hu := hus u List.mem_cons_self
          have hus' : ∀ u ∈ us, 0 ≤ u ∧ u < 1 := fun u hu => hus u (List.mem_cons_of_mem _ hu)
          obtain ⟨ht, hunit'⟩ := hunit t List.mem_cons_self
          have hstock : 0 < stock t := by
            have hone := hcount t
            rw [List.count_cons_self] at hone
            omega
          obtain ⟨hbelow, hnext⟩ := h.draw_of_stock false hu hdraws.1 ht hstock hunit'
          refine ⟨hbelow, ih hnext hus' hdraws.2 (fun j => ?_) fun j hj =>
            hunit j (List.mem_cons_of_mem _ hj)⟩
          have hj := hcount j
          simp only [Bool.false_eq_true, if_false, take]
          by_cases hjt : j = t
          · rw [hjt, List.count_cons_self] at hj
            rw [hjt, Function.update_self]
            omega
          · rw [List.count_cons_of_ne (Ne.symm hjt)] at hj
            rwa [Function.update_of_ne hjt]

/-- The sampler of `Choice` has no decreases. -/
lemma draws_eq_drawLeaves {leaves : ℕ} (hpos : 0 < leaves) (w : ℕ → ℚ) (us : List ℚ) :
    draws replace ⟨leaves, w, none⟩ us = drawLeaves leaves replace us w := by
  have hdraw (u : ℚ) (w : ℕ → ℚ) : TreeSampler.draw replace u ⟨leaves, w, none⟩ =
      ((drawLeaf leaves replace u w).1, ⟨leaves, (drawLeaf leaves replace u w).2, none⟩) := by
    rcases le_or_gt (w 1) 0 with hroot | hroot
    · rw [draw_of_le hroot, drawLeaf, if_pos hroot]
    · obtain ⟨t, ht, hwalk, hdraw⟩ := exists_draw (s := ⟨leaves, w, none⟩) hpos hroot replace u
      have hwalk : descend leaves w (u * w 1) leaves 1 0 = leaves + t := hwalk
      rw [hdraw, drawLeaf, if_neg (not_le.2 hroot), hwalk]
      simp only [Nat.add_sub_cancel_left, clearLeaf_eq_setLeaf]
      cases replace <;> rfl
  induction us generalizing w with
  | nil => rfl
  | cons u us ih => rw [draws, drawLeaves, hdraw, ih]

/-- As many candidates as there are positive probabilities. -/
lemma left_none (prob : List ℚ) :
    left prob.length (prob.getD · 0) (fun t => if 0 < prob.getD t 0 then 1 else 0) =
      prob.countP fun x => 0 < x := by
  have hset (t : ℕ) : t ∈ (Finset.range prob.length).filter (0 < prob.getD · 0) ↔
      (prob.map fun x => decide (0 < x)).getD t false = true := by
    rw [← mem_drawable_buildTree, mem_drawable, buildTree_leaf _ (numLeafs_pos _), Finset.mem_filter,
      Finset.mem_range]
    refine and_congr_left fun hpos => ⟨fun ht => ht.trans_le (le_numLeafs _), fun _ => ?_⟩
    by_contra ht
    rw [List.getD_eq_default _ _ (Nat.not_lt.1 ht)] at hpos
    exact lt_irrefl 0 hpos
  have hones (t : ℕ) (ht : t ∈ (Finset.range prob.length).filter (0 < prob.getD · 0)) :
      (if 0 < prob.getD t 0 then 1 else 0) = 1 := if_pos (Finset.mem_filter.1 ht).2
  rw [left, Finset.sum_congr rfl hones, ← Finset.card_eq_sum_ones, card_eq_count hset,
    List.count_eq_countP, List.countP_map]
  exact List.countP_congr fun x _ => by simp

/-- **`Choice` without replacement** returns different places with a probability exactly if no number
is a `0` below the first weight. -/
theorem choice_once_iff (hprob : ∀ x ∈ prob, 0 ≤ x) (hus : ∀ u ∈ us, 0 ≤ u ∧ u < 1)
    (henough : us.length ≤ prob.countP fun x => 0 < x) :
    (∃ picks : List ℕ, choice us prob false = .ok (picks.map some) ∧ picks.Nodup ∧
      ∀ t ∈ picks, t < prob.length ∧ 0 < prob.getD t 0) ↔
        EachDraw false NotBelow (ofProb prob none) us := by
  have hstock := stocked_none hprob
  have hchoice : choice us prob false = .ok (draws false (ofProb prob none) us) := by
    rw [choice, if_neg fun hmany => not_le.2 hmany.2 (henough.trans List.countP_le_length),
      ← draws_eq_drawLeaves false (numLeafs_pos _)]
    rfl
  rw [hchoice]
  constructor
  · rintro ⟨picks, hpicks, hnodup, hmem⟩
    refine hstock.eachDraw_of_draws hus (Except.ok.inj hpicks) (fun t => ?_) hmem
    by_cases ht : t ∈ picks
    · rw [if_pos (hmem t ht).2]
      exact List.nodup_iff_count_le_one.1 hnodup t
    · rw [List.count_eq_zero_of_not_mem ht]
      exact Nat.zero_le _
  · intro hbelow
    obtain ⟨picks, hpicks, hcount, hmem⟩ := hstock.draws_once hus (left_none prob ▸ henough) hbelow
    refine ⟨picks, congrArg Except.ok hpicks, ?_, hmem⟩
    exact List.nodup_iff_count_le_one.2 fun t => (hcount t).trans (hstock.once rfl t)

end TreeSampler

end DglAscend.Random
