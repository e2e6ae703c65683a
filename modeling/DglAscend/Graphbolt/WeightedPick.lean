import Mathlib.Data.List.GetD
import Mathlib.Data.List.Sort
import Mathlib.Data.List.TakeWhile
import Mathlib.Tactic
import DglAscend.Lib.Loops

/-!
# Picking neighbours by probability

`NonUniformPickOp` and `NonUniformPick` of `graphbolt/src/fused_csc_sampling_graph.cc`, with rational
probabilities.  With replacement a draw is looked for among the cumulative sums, and these are not
normalised when their last one is near one.  `replacement_in_range_iff` says when every draw is found.
-/

namespace DglAscend.Graphbolt

/-- Why a pick does not return. -/
inductive PickFailure
  | negativeSize
  | intOverflow
  | outOfRange
  deriving DecidableEq, Repr

/-- `std::partial_sort` and `std::nth_element` with `std::greater`: the elements before the middle are not
less than those behind it. -/
structure StdSelect where
  run : ℕ → List (ℚ × ℕ) → List (ℚ × ℕ)
  perm : ∀ k l, (run k l).Perm l
  selects : ∀ k l, ∀ a ∈ (run k l).take k, ∀ b ∈ (run k l).drop k, b.1 ≤ a.1

/-- `for (auto i = 0; i < n; ++i)`, where `i` is an `int`. -/
def intLoop (n : ℕ) : Except PickFailure Unit :=
  if n < 2 ^ 31 then .ok () else .error .intOverflow

/-- `positive_probs_indices` -/
def positiveProbsIndices (probs : List ℚ) : List ℕ :=
  (List.range probs.length).filter fun i => probs.getD i 0 ≠ 0

/-- `prefix_sum_probs` before it is normalised. -/
def prefixSums : ℚ → List ℚ → List ℚ
  | _, [] => []
  | sum, p :: ps => (sum + p) :: prefixSums (sum + p) ps

/-- The probabilities of the indices. -/
def positiveProbs (probs : List ℚ) : List ℚ := (positiveProbsIndices probs).map fun i => probs.getD i 0

/-- `prefix_sum_probs` -/
def prefixSumProbs (probs : List ℚ) : List ℚ :=
  let sumProbs := (positiveProbs probs).sum
  if 100001 / 100000 < sumProbs ∨ sumProbs < 99999 / 100000 then
    (prefixSums 0 (positiveProbs probs)).map (· / sumProbs)
  else prefixSums 0 (positiveProbs probs)

/-- `sampled_index`: the `std::lower_bound` of a draw. -/
def sampledIndex (probs : List ℚ) (uniformSample : ℚ) : ℕ :=
  ((prefixSumProbs probs).takeWhile fun s => s < uniformSample).length

/-- The index with the largest quotient of a probability and an exponential draw, if one is positive. -/
def argmaxPick (probs exponential : ℕ → ℚ) (indices : List ℕ) : Option ℕ :=
  (indices.zipIdx.foldl (fun best w =>
    if best.1 < probs w.1 / exponential w.2 then (probs w.1 / exponential w.2, some w.1) else best)
    ((0 : ℚ), none)).2

/-- `NonUniformPickOp`, with the uniform and the exponential draws. -/
def nonUniformPickOp (select : StdSelect) (uniform exponential : ℕ → ℚ) (probs : List ℚ) (fanout : ℤ)
    (replace : Bool) : Except PickFailure (List ℕ) :=
  let positive := positiveProbsIndices probs
  if positive.length = 0 then .ok []
  else if fanout = -1 ∨ (positive.length ≤ fanout ∧ replace = false) then .ok positive
  else
    let fanout := if replace then fanout else min fanout positive.length
    if fanout = 0 then .ok []
    else if fanout < 0 then .error .negativeSize
    else if replace then do
      intLoop positive.length
      intLoop fanout.toNat
      (List.range fanout.toNat).mapM fun i =>
        match positive[sampledIndex probs (uniform i)]? with
        | some e => .ok e
        | none => .error .outOfRange
    else do
      intLoop positive.length
      if fanout = 1 then
        match argmaxPick (fun e => probs.getD e 0) exponential positive with
        | some e => .ok [e]
        | none => .error .outOfRange
      else
        let q := positive.zipIdx.map fun w => (probs.getD w.1 0 / exponential w.2, w.1)
        .ok (((select.run fanout.toNat q).take fanout.toNat).map Prod.snd)

/-! ## Cumulative sums -/

variable {probs ps : List ℚ} {a u : ℚ} {fanout : ℤ} {i : ℕ}

lemma length_prefixSums (a : ℚ) (ps : List ℚ) : (prefixSums a ps).length = ps.length := by
  induction ps generalizing a with
  | nil => rfl
  | cons p ps ih => rw [prefixSums, List.length_cons, List.length_cons, ih]

/-- No cumulative sum is larger than the last one. -/
lemma le_of_mem_prefixSums (hps : ∀ p ∈ ps, 0 ≤ p) {s : ℚ} (hs : s ∈ prefixSums a ps) :
    s ≤ a + ps.sum := by
  induction ps generalizing a with
  | nil => cases hs
  | cons p ps ih =>
      have hrest : ∀ q ∈ ps, 0 ≤ q := fun q hq => hps q (List.mem_cons_of_mem _ hq)
      have hsum : 0 ≤ ps.sum := List.sum_nonneg hrest
      rw [List.sum_cons]
      rcases List.mem_cons.1 hs with rfl | hs
      · linarith
      · have hle := ih hrest hs
        linarith

lemma sum_mem_prefixSums (a : ℚ) (hne : ps ≠ []) : a + ps.sum ∈ prefixSums a ps := by
  induction ps generalizing a with
  | nil => exact absurd rfl hne
  | cons p ps ih =>
      rw [prefixSums, List.sum_cons, ← add_assoc]
      by_cases hps : ps = []
      · rw [hps, List.sum_nil, add_zero]
        exact List.mem_cons_self
      · exact List.mem_cons_of_mem _ (ih (a + p) hps)

/-- Indices without a probability do not count. -/
lemma sum_positiveProbs (probs : List ℚ) : (positiveProbs probs).sum = probs.sum := by
  have hfilter (l : List ℕ) : ((l.filter fun i => probs.getD i 0 ≠ 0).map fun i => probs.getD i 0).sum =
      (l.map fun i => probs.getD i 0).sum := by
    induction l with
    | nil => rfl
    | cons i l ih =>
        by_cases hi : probs.getD i 0 = 0
        · rw [List.filter_cons_of_neg (by simpa using hi), ih, List.map_cons, List.sum_cons, hi, zero_add]
        · rw [List.filter_cons_of_pos (by simpa using hi), List.map_cons, List.map_cons, List.sum_cons,
            List.sum_cons, ih]
  have hall : ((List.range probs.length).map fun i => probs.getD i 0) = probs := by
    apply List.ext_getElem
    · simp
    · intro i h h'
      simp [h']
  rw [positiveProbs, positiveProbsIndices, hfilter, hall]

lemma mem_positiveProbsIndices :
    i ∈ positiveProbsIndices probs ↔ i < probs.length ∧ probs.getD i 0 ≠ 0 := by
  rw [positiveProbsIndices, List.mem_filter, List.mem_range, decide_eq_true_iff]

/-- An index that is kept has a positive probability. -/
lemma pos_of_mem (hprobs : ∀ p ∈ probs, 0 ≤ p) (hi : i ∈ positiveProbsIndices probs) :
    0 < probs.getD i 0 := by
  obtain ⟨hlt, hne⟩ := mem_positiveProbsIndices.1 hi
  have hmem : probs.getD i 0 ∈ probs := by
    rw [List.getD_eq_getElem _ _ hlt]
    exact List.getElem_mem hlt
  exact lt_of_le_of_ne (hprobs _ hmem) hne.symm

lemma nonneg_positiveProbs (hprobs : ∀ p ∈ probs, 0 ≤ p) : ∀ p ∈ positiveProbs probs, 0 ≤ p := by
  intro p hp
  obtain ⟨i, hi, rfl⟩ := List.mem_map.1 hp
  exact (pos_of_mem hprobs hi).le

/-- With a positive sum there is a positive probability. -/
lemma positiveProbs_ne_nil (hsum : 0 < probs.sum) : positiveProbs probs ≠ [] := by
  intro hnil
  have hzero := sum_positiveProbs probs
  rw [hnil, List.sum_nil] at hzero
  exact hsum.ne hzero

/-- The last cumulative sum that the draws are compared with. -/
def lastSum (probs : List ℚ) : ℚ :=
  if 100001 / 100000 < probs.sum ∨ probs.sum < 99999 / 100000 then 1 else probs.sum

/-- **A draw is found** if and only if it is not larger than the last cumulative sum. -/
theorem sampledIndex_lt_iff (hprobs : ∀ p ∈ probs, 0 ≤ p) (hsum : 0 < probs.sum) :
    sampledIndex probs u < (positiveProbsIndices probs).length ↔ u ≤ lastSum probs := by
  have hne := positiveProbs_ne_nil hsum
  have htotal := sum_positiveProbs probs
  have hnonneg := nonneg_positiveProbs hprobs
  -- The cumulative sums with their largest element.
  have hlast : lastSum probs ∈ prefixSumProbs probs ∧ ∀ s ∈ prefixSumProbs probs, s ≤ lastSum probs := by
    have hmem := sum_mem_prefixSums 0 hne
    rw [zero_add, htotal] at hmem
    have hle : ∀ s ∈ prefixSums 0 (positiveProbs probs), s ≤ probs.sum := by
      intro s hs
      have h := le_of_mem_prefixSums hnonneg hs
      rwa [zero_add, htotal] at h
    rw [lastSum, prefixSumProbs, htotal]
    split_ifs with hnorm
    · refine ⟨List.mem_map.2 ⟨probs.sum, hmem, div_self hsum.ne'⟩, fun s hs => ?_⟩
      obtain ⟨s', hs', rfl⟩ := List.mem_map.1 hs
      exact (div_le_one hsum).2 (hle s' hs')
    · exact ⟨hmem, hle⟩
  have hlen : (prefixSumProbs probs).length = (positiveProbsIndices probs).length := by
    rw [prefixSumProbs]
    split_ifs
    · rw [List.length_map, length_prefixSums, positiveProbs, List.length_map]
    · rw [length_prefixSums, positiveProbs, List.length_map]
  rw [sampledIndex, ← hlen]
  constructor
  · intro hlt
    by_contra hu
    have hall : (prefixSumProbs probs).takeWhile (fun s => s < u) = prefixSumProbs probs := by
      rw [List.takeWhile_eq_self_iff]
      intro s hs
      exact decide_eq_true ((hlast.2 s hs).trans_lt (not_le.1 hu))
    rw [hall] at hlt
    exact lt_irrefl _ hlt
  · intro hu
    apply lt_of_le_of_ne (List.takeWhile_prefix _).length_le
    intro heq
    have hall := (List.takeWhile_prefix _).eq_of_length heq
    rw [List.takeWhile_eq_self_iff] at hall
    exact not_lt.2 hu (of_decide_eq_true (hall _ hlast.1))

/-! ## With replacement -/

/-- Every draw names an edge with a positive probability. -/
def ReplacementInRange (select : StdSelect) (uniform exponential : ℕ → ℚ) (probs : List ℚ)
    (fanout : ℤ) : Prop :=
  (∃ picks, nonUniformPickOp select uniform exponential probs fanout true = .ok picks ∧
    ∀ e ∈ picks, 0 < probs.getD e 0) ∧
  ∀ i < fanout.toNat, sampledIndex probs (uniform i) < (positiveProbsIndices probs).length

/-- The loops over the edges and over the picks have an `int` for each of their rounds, and the cumulative
sums are normalised or reach the draws. -/
def DrawsFound (uniform : ℕ → ℚ) (probs : List ℚ) (fanout : ℤ) : Prop :=
  0 < fanout → (positiveProbsIndices probs).length < 2 ^ 31 ∧ fanout < 2 ^ 31 ∧
    (99999 / 100000 ≤ probs.sum → probs.sum < 1 → ∀ i < fanout.toNat, uniform i ≤ probs.sum)

lemma le_lastSum_iff (hu : u < 1) :
    u ≤ lastSum probs ↔ (99999 / 100000 ≤ probs.sum → probs.sum < 1 → u ≤ probs.sum) := by
  rw [lastSum]
  split_ifs with hnorm
  · refine ⟨fun _ hlow hlt => ?_, fun _ => hu.le⟩
    rcases hnorm with hhigh | hlow'
    · linarith
    · linarith
  · rw [not_or, not_lt, not_lt] at hnorm
    refine ⟨fun h _ _ => h, fun h => ?_⟩
    by_cases hlt : probs.sum < 1
    · exact h hnorm.2 hlt
    · linarith

/-- **Sampling with replacement stays in range** if and only if the draws are found. -/
theorem replacement_in_range_iff (select : StdSelect) (uniform exponential : ℕ → ℚ) (probs : List ℚ)
    (fanout : ℤ) (hprobs : ∀ p ∈ probs, 0 ≤ p) (hsum : 0 < probs.sum) (hfanout : -1 ≤ fanout)
    (hdraws : ∀ i, 0 ≤ uniform i ∧ uniform i < 1) :
    ReplacementInRange select uniform exponential probs fanout ↔ DrawsFound uniform probs fanout := by
  have hne : (positiveProbsIndices probs).length ≠ 0 := by
    intro hzero
    apply positiveProbs_ne_nil hsum
    rw [positiveProbs, List.length_eq_zero_iff.1 hzero, List.map_nil]
  have hfound (i : ℕ) : sampledIndex probs (uniform i) < (positiveProbsIndices probs).length ↔
      (99999 / 100000 ≤ probs.sum → probs.sum < 1 → uniform i ≤ probs.sum) :=
    (sampledIndex_lt_iff hprobs hsum).trans (le_lastSum_iff (hdraws i).2)
  by_cases hpos : 0 < fanout
  · -- The branch that draws is taken.
    have hop : nonUniformPickOp select uniform exponential probs fanout true = (do
        intLoop (positiveProbsIndices probs).length
        intLoop fanout.toNat
        (List.range fanout.toNat).mapM fun i =>
          match (positiveProbsIndices probs)[sampledIndex probs (uniform i)]? with
          | some e => .ok e
          | none => .error .outOfRange) := by
      rw [nonUniformPickOp, if_neg hne, if_neg (by simp; omega)]
      simp only [if_true]
      rw [if_neg (by omega), if_neg (by omega)]
    have hnat : (fanout.toNat : ℤ) = fanout := Int.toNat_of_nonneg hpos.le
    constructor
    · rintro ⟨⟨picks, hpicks, -⟩, hin⟩ -
      rw [hop] at hpicks
      by_cases hedges : (positiveProbsIndices probs).length < 2 ^ 31
      · by_cases hrounds : fanout.toNat < 2 ^ 31
        · exact ⟨hedges, by omega, fun hlow hlt i hi => (hfound i).1 (hin i hi) hlow hlt⟩
        · rw [intLoop, if_pos hedges, intLoop, if_neg hrounds] at hpicks
          cases hpicks
      · rw [intLoop, if_neg hedges] at hpicks
        cases hpicks
    · intro h
      obtain ⟨hedges, hrounds, hsums⟩ := h hpos
      have hin : ∀ i < fanout.toNat,
          sampledIndex probs (uniform i) < (positiveProbsIndices probs).length :=
        fun i hi => (hfound i).2 fun hlow hlt => hsums hlow hlt i hi
      refine ⟨⟨(List.range fanout.toNat).map fun i =>
        (positiveProbsIndices probs).getD (sampledIndex probs (uniform i)) 0, ?_, fun e he => ?_⟩, hin⟩
      · rw [hop, intLoop, if_pos hedges, intLoop, if_pos (by omega)]
        apply mapM_ok
        intro i hi
        have hlt := hin i (List.mem_range.1 hi)
        rw [List.getElem?_eq_getElem hlt, List.getD_eq_getElem _ _ hlt]
      · obtain ⟨i, hi, rfl⟩ := List.mem_map.1 he
        have hlt := hin i (List.mem_range.1 hi)
        rw [List.getD_eq_getElem _ _ hlt]
        exact pos_of_mem hprobs (List.getElem_mem hlt)
  · -- Nothing is drawn.
    have hnat : fanout.toNat = 0 := by omega
    refine ⟨fun _ h => absurd h hpos, fun _ => ⟨?_, fun i hi => absurd hi (by omega)⟩⟩
    by_cases hall : fanout = -1
    · refine ⟨positiveProbsIndices probs, ?_, fun e he => pos_of_mem hprobs he⟩
      rw [nonUniformPickOp, if_neg hne, if_pos (Or.inl hall)]
    · refine ⟨[], ?_, nofun⟩
      rw [nonUniformPickOp, if_neg hne, if_neg (by simp [hall])]
      simp only [if_true]
      rw [if_pos (by omega)]

/-- A selection that sorts everything. -/
def sortSelect : StdSelect where
  run _ l := l.insertionSort fun a b => b.1 ≤ a.1
  perm _ l := List.perm_insertionSort _ l
  selects k l a ha b hb := by
    have htotal : Std.Total fun a b : ℚ × ℕ => b.1 ≤ a.1 := ⟨fun a b => le_total b.1 a.1⟩
    have htrans : IsTrans (ℚ × ℕ) fun a b => b.1 ≤ a.1 := ⟨fun a b c hab hbc => hbc.trans hab⟩
    have hsorted := List.pairwise_insertionSort (fun a b : ℚ × ℕ => b.1 ≤ a.1) l
    rw [← List.take_append_drop k (l.insertionSort _), List.pairwise_append] at hsorted
    exact hsorted.2.2 a ha b hb

/-- Three draws among two edges out of three. -/
theorem replacement_in_range_iff_three :
    ReplacementInRange sortSelect (fun _ => 1 / 2) (fun _ => 1) [1 / 2, 0, 3 / 2] 3 ↔
      DrawsFound (fun _ => 1 / 2) [1 / 2, 0, 3 / 2] 3 :=
  replacement_in_range_iff sortSelect _ _ _ _ (by norm_num) (by norm_num) (by omega)
    (fun _ => by norm_num)

/-- Probabilities whose sum is just below one, and a draw above it. -/
theorem draw_above_sum : ¬ ReplacementInRange sortSelect (fun _ => 999999 / 1000000) (fun _ => 1)
    [1 / 2, 499995 / 1000000] 1 := by
  intro h
  have hlt := h.2 0 Nat.one_pos
  rw [sampledIndex_lt_iff (by norm_num) (by norm_num), le_lastSum_iff (by norm_num)] at hlt
  exact absurd (hlt (by norm_num) (by norm_num)) (by norm_num)

end DglAscend.Graphbolt
