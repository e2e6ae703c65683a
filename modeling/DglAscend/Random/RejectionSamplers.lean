import DglAscend.Lib.WeightedDraw
import DglAscend.Random.Proportions

/-!
# The samplers that try again

`utils::AliasSampler` and `utils::CDFSampler` of `sample_utils.h`.  They look a number up in a table
that is made once for many draws.  Without replacement a draw tries again while it hits an element that
is gone, and the table is made again once half of its weight is gone.

The next element is nevertheless in proportion to what is left, and more than half of the tries succeed
(`afterDraws_proportional`).
-/

namespace DglAscend.Random

open MeasureTheory Set

/-- The two samplers; a cumulative search takes no number below `eps`. -/
inductive Lookup (K : Type*)
  | byAlias
  | byCdf (eps : K)

/-- `K` and `U`, or `cdf`. -/
inductive Table (K : Type*)
  | ofAlias (cells : AliasTable K)
  | ofCdf (eps : K) (cdf : List K)

/-- `AliasSampler` and `CDFSampler` -/
structure RejectionSampler (K : Type*) where
  prob : List K
  used : List Bool
  idMapping : List ℕ
  accum : K
  taken : K
  table : Table K

section Sampler

variable {K : Type*} [Field K] [LinearOrder K] [FloorSemiring K]

/-- The table of some weights. -/
def Lookup.build (kind : Lookup K) (weights : List K) : Table K :=
  match kind with
  | .byAlias =>
    let avg := weights.sum / weights.length
    .ofAlias ((AliasTable.init avg weights.length (weights.getD · 0)).run avg weights.length)
  | .byCdf eps => .ofCdf eps (weights.scanl (· + ·) 0)

/-- The place that a uniform number leads to, as a share `u` of the range it is drawn from. -/
def Table.find (table : Table K) (n : ℕ) (accum u : K) : ℕ :=
  match table with
  | .ofAlias cells => cells.lookup (accum / n) n u
  | .ofCdf eps cdf => cdf.findIdx (max (u * accum) eps ≤ ·) - 1

namespace RejectionSampler

variable (kind : Lookup K) (s : RejectionSampler K)

/-- The elements that are not used. -/
def unused : List ℕ := (List.range s.prob.length).filter fun i => s.used.getD i false = false

/-- `Reconstruct` -/
def reconstruct : Except Stop (RejectionSampler K) :=
  if s.unused = [] then .error .raised
  else
    let weights := s.unused.map (s.prob.getD · 0)
    .ok { s with idMapping := s.unused, accum := weights.sum, taken := 0, table := kind.build weights }

/-- The constructor, by `ResetState`. -/
def ofProb (prob : List K) : Except Stop (RejectionSampler K) :=
  reconstruct kind ⟨prob, List.replicate prob.length false, [], 0, 0, .ofCdf 0 []⟩

/-- What a number leads to. -/
def find (u : K) : ℕ := s.idMapping.getD (s.table.find s.idMapping.length s.accum u) 0

/-- An element is gone. -/
def take (rst : ℕ) : RejectionSampler K :=
  { s with used := s.used.set rst true, taken := s.taken + s.prob.getD rst 0 }

/-- The loop, until a number leads to an element that is not used. -/
def tries : List K → Except Stop (Option ℕ × RejectionSampler K × List K)
  | [] => .error .drawing
  | u :: us =>
    if s.used.getD (s.find u) false then tries us else .ok (some (s.find u), s.take (s.find u), us)

/-- A table of which half the weight is gone is made again. -/
def refresh : Except Stop (RejectionSampler K) :=
  if (2 : ℕ) * s.taken ≥ s.accum then s.reconstruct kind else .ok s

/-- `Draw`, with the numbers that are still there; `none` is `-1`. -/
def draw (replace : Bool) (us : List K) : Except Stop (Option ℕ × RejectionSampler K × List K) :=
  if replace then
    if s.accum ≤ 0 then .ok (none, s, us)
    else match us with
      | [] => .error .drawing
      | u :: us => .ok (some (s.find u), s, us)
  else do
    let s ← s.refresh kind
    if s.accum ≤ 0 then .ok (none, s, us) else s.tries us

/-- Some draws, one after the other. -/
def draws (replace : Bool) :
    ℕ → RejectionSampler K → List K → Except Stop (List (Option ℕ) × RejectionSampler K × List K)
  | 0, s, us => .ok ([], s, us)
  | k + 1, s, us => do
    let (first, s, us) ← s.draw kind replace us
    let (rest, s, us) ← draws replace k s us
    .ok (first :: rest, s, us)

end RejectionSampler

end Sampler

/-! ## The tables -/

section Tables

variable {weights : List ℝ}

lemma sum_eq_sum_getD (weights : List ℝ) :
    weights.sum = ∑ i ∈ Finset.range weights.length, weights.getD i 0 := by
  induction weights with
  | nil => simp
  | cons w ws ih =>
      rw [List.sum_cons, List.length_cons, Finset.sum_range_succ', ih, add_comm]
      simp

lemma getElem_scanl_add (weights : List ℝ) (start : ℝ) {i : ℕ}
    (hi : i < (weights.scanl (· + ·) start).length) :
    (weights.scanl (· + ·) start)[i] = start + ∑ k ∈ Finset.range i, weights.getD k 0 := by
  induction weights generalizing start i with
  | nil =>
      obtain rfl : i = 0 := by simpa using hi
      simp
  | cons w ws ih =>
      cases i with
      | zero => simp
      | succ i =>
          rw [List.scanl_cons] at hi
          simp only [List.scanl_cons, List.getElem_cons_succ]
          rw [ih (start + w) (by simpa using hi), Finset.sum_range_succ']
          simp only [List.getD_cons_succ, List.getD_cons_zero]
          ring

/-- A table is exact for the weights that its search can see. -/
def Lookup.Sees (kind : Lookup ℝ) (weights : List ℝ) : Prop :=
  match kind with
  | .byAlias => True
  | .byCdf eps => 0 < eps ∧ ∀ w ∈ weights, 0 < w → eps ≤ w

lemma byAlias_proportional (hweights : ∀ w ∈ weights, 0 ≤ w) (hpos : 0 < weights.sum) :
    Proportional weights.length (weights.getD · 0)
      ((Lookup.byAlias.build weights).find weights.length weights.sum) := by
  set n := weights.length with hn
  set avg := weights.sum / n with havg
  have hlen : 0 < n := by
    refine List.length_pos_iff.2 ?_
    rintro rfl
    exact lt_irrefl 0 hpos
  have hlen' : (0 : ℝ) < n := Nat.cast_pos.2 hlen
  have hneed : ∀ i < n, 0 ≤ weights.getD i 0 := by
    intro i hi
    rw [List.getD_eq_getElem _ _ hi]
    exact hweights _ (List.getElem_mem hi)
  have hinit := AliasTable.inv_init (div_pos hpos hlen').le hneed
  have hfuel : (AliasTable.init avg n (weights.getD · 0)).less.length +
      (AliasTable.init avg n (weights.getD · 0)).more.length ≤ n := by
    rw [← List.length_append, (AliasTable.init_perm avg n (weights.getD · 0)).length_eq,
      List.length_map, List.length_range]
  obtain ⟨hinv, hdone⟩ := hinit.run hfuel
  refine AliasTable.proportional hinv hdone hlen (div_pos hpos hlen') ?_
  rw [← sum_eq_sum_getD, mul_div_cancel₀ _ hlen'.ne']

lemma byCdf_proportional {eps : ℝ} (hweights : ∀ w ∈ weights, 0 ≤ w) (hpos : 0 < weights.sum)
    (heps : 0 < eps) (hsees : ∀ w ∈ weights, 0 < w → eps ≤ w) :
    Proportional weights.length (weights.getD · 0)
      (((Lookup.byCdf eps).build weights).find weights.length weights.sum) := by
  set n := weights.length with hn
  set before : ℕ → ℝ := fun i => ∑ k ∈ Finset.range i, weights.getD k 0 with hbefore
  have htotal : weights.sum = before n := sum_eq_sum_getD weights
  have hweight : ∀ i < n, 0 ≤ weights.getD i 0 := by
    intro i hi
    rw [List.getD_eq_getElem _ _ hi]
    exact hweights _ (List.getElem_mem hi)
  have hlarge : eps ≤ weights.sum := by
    obtain ⟨w, hw, hwpos⟩ := (sum_pos_iff_exists hweights).1 hpos
    exact (hsees w hw hwpos).trans (List.single_le_sum hweights w hw)
  -- What stands before a place is nothing, or no less than `eps`.
  have hsmall {i : ℕ} (hi : i ≤ n) (hlt : before i < eps) : before i = 0 := by
    refine Finset.sum_eq_zero fun k hk => ?_
    have hk' : k < n := (Finset.mem_range.1 hk).trans_le hi
    by_contra hne
    have hpos := lt_of_le_of_ne (hweight k hk') (Ne.symm hne)
    have hle : weights.getD k 0 ≤ before i := Finset.single_le_sum
      (fun l hl => hweight l ((Finset.mem_range.1 hl).trans_le hi)) hk
    rw [List.getD_eq_getElem _ _ hk'] at hpos hle
    exact absurd ((hsees _ (List.getElem_mem hk') hpos).trans hle) (not_le.2 hlt)
  have hsearch (u : ℝ) (hu : u ∈ Ico (0 : ℝ) 1) :
      ∃ t < n, ((Lookup.byCdf eps).build weights).find n weights.sum u = t ∧
        before t < max (u * weights.sum) eps ∧ max (u * weights.sum) eps ≤ before (t + 1) := by
    set p := max (u * weights.sum) eps with hp
    have hlast : p ≤ before n := by
      rw [← htotal]
      exact max_le (mul_le_of_le_one_left hpos.le hu.2.le) hlarge
    have hlen : (weights.scanl (· + ·) 0).length = n + 1 := List.length_scanl
    have hvalue {i : ℕ} (hi : i < (weights.scanl (· + ·) 0).length) :
        (weights.scanl (· + ·) 0)[i] = before i := by rw [getElem_scanl_add, zero_add]
    set place := (weights.scanl (· + ·) 0).findIdx (p ≤ ·) with hplace
    have hlt : place < (weights.scanl (· + ·) 0).length := by
      refine List.findIdx_lt_length_of_exists ⟨before n, ?_, by simpa using hlast⟩
      rw [← hvalue (i := n) (by omega)]
      exact List.getElem_mem _
    have hreach : p ≤ before place := by
      rw [← hvalue hlt]
      simpa using List.findIdx_getElem (w := hlt)
    have hfirst : place ≠ 0 := by
      intro hzero
      rw [hzero] at hreach
      have hstart : before 0 = 0 := Finset.sum_range_zero _
      rw [hstart] at hreach
      exact absurd (heps.trans_le (le_max_right _ _)) (not_lt.2 hreach)
    obtain ⟨t, ht⟩ := Nat.exists_eq_succ_of_ne_zero hfirst
    refine ⟨t, by omega, ?_, ?_, by rwa [← Nat.succ_eq_add_one, ← ht]⟩
    · show place - 1 = t
      omega
    · have hbelow := @List.not_of_lt_findIdx _ (p ≤ ·) (weights.scanl (· + ·) 0) t
        (by omega)
      rw [hvalue (by omega)] at hbelow
      simpa using hbelow
  apply Proportional.of_cumulative hweight
  · rwa [← sum_eq_sum_getD]
  · intro u hu
    obtain ⟨t, ht, hfind, -⟩ := hsearch u hu
    rwa [hfind]
  · rintro u ⟨hu, hu'⟩
    obtain ⟨t, ht, hfind, hlow, hhigh⟩ := hsearch u ⟨hu.le, hu'⟩
    rw [hfind, ← sum_eq_sum_getD]
    refine ⟨?_, (le_max_left _ _).trans hhigh⟩
    rcases lt_max_iff.1 hlow with hlow | hlow
    · exact hlow
    · have hzero := hsmall ht.le hlow
      simp only [hbefore] at hzero
      rw [hzero]
      exact mul_pos hu hpos

/-- **The tables** lead to a weight with its share of all of them. -/
lemma Lookup.proportional {kind : Lookup ℝ} (hweights : ∀ w ∈ weights, 0 ≤ w) (hpos : 0 < weights.sum)
    (hsees : kind.Sees weights) :
    Proportional weights.length (weights.getD · 0)
      ((kind.build weights).find weights.length weights.sum) := by
  cases kind with
  | byAlias => exact byAlias_proportional hweights hpos
  | byCdf eps => exact byCdf_proportional hweights hpos hsees.1 hsees.2

end Tables

/-! ## Runs -/

namespace RejectionSampler

/-- The table has all elements that are not used, and `taken` is the weight of the others in it. -/
structure Kept (kind : Lookup ℝ) (prob : List ℝ) (s : RejectionSampler ℝ) : Prop where
  prob_eq : s.prob = prob
  length_used : s.used.length = prob.length
  nodup : s.idMapping.Nodup
  lt : ∀ i ∈ s.idMapping, i < prob.length
  gone : ∀ i < prob.length, i ∉ s.idMapping → s.used.getD i false = true
  accum : s.accum = (s.idMapping.map (prob.getD · 0)).sum
  taken : s.taken = (s.idMapping.map fun i => if s.used.getD i false then prob.getD i 0 else 0).sum
  table : s.table = kind.build (s.idMapping.map (prob.getD · 0))

/-- The weight of the elements that are not used. -/
def weightLeft (prob : List ℝ) (s : RejectionSampler ℝ) : ℝ :=
  ∑ i ∈ Finset.range prob.length, if s.used.getD i false then 0 else prob.getD i 0

variable {kind : Lookup ℝ} {prob : List ℝ} {s s' : RejectionSampler ℝ} {us us' : List ℝ} {r : Option ℕ}

lemma Kept.sum_eq (h : s.Kept kind prob) (f : ℕ → ℝ)
    (hf : ∀ i < prob.length, s.used.getD i false = true → f i = 0) :
    (s.idMapping.map f).sum = ∑ i ∈ Finset.range prob.length, f i := by
  rw [← List.sum_toFinset f h.nodup]
  refine Finset.sum_subset (fun i hi => ?_) fun i hi hout => ?_
  · exact Finset.mem_range.2 (h.lt i (List.mem_toFinset.1 hi))
  · have hlt := Finset.mem_range.1 hi
    exact hf i hlt (h.gone i hlt fun hmem => hout (List.mem_toFinset.2 hmem))

/-- What is gone and what is left make up the table. -/
lemma Kept.weightLeft_add (h : s.Kept kind prob) : s.weightLeft prob + s.taken = s.accum := by
  have hleft : s.weightLeft prob =
      (s.idMapping.map fun i => if s.used.getD i false then 0 else prob.getD i 0).sum := by
    rw [weightLeft, h.sum_eq]
    exact fun i _ hi => by rw [hi]; rfl
  rw [hleft, h.taken, h.accum, ← List.sum_map_add]
  congr 1
  refine List.map_congr_left fun i _ => ?_
  split_ifs <;> ring

lemma mem_unused {i : ℕ} : i ∈ s.unused ↔ i < s.prob.length ∧ s.used.getD i false = false := by
  rw [unused, List.mem_filter, List.mem_range, decide_eq_true_iff]

/-- A table that is made again has nothing that is gone. -/
lemma kept_reconstruct (hlen : s.used.length = s.prob.length) (h : s.reconstruct kind = .ok s') :
    s'.Kept kind s.prob ∧ s'.used = s.used ∧ s'.taken = 0 := by
  rw [reconstruct] at h
  split_ifs at h
  obtain rfl := Except.ok.inj h
  refine ⟨⟨rfl, hlen, List.nodup_range.filter _, fun i hi => (mem_unused.1 hi).1, fun i hi hout => ?_,
    rfl, ?_, rfl⟩, rfl, rfl⟩
  · by_contra hused
    exact hout (mem_unused.2 ⟨hi, Bool.eq_false_iff.2 hused⟩)
  · symm
    refine List.sum_eq_zero fun x hx => ?_
    obtain ⟨i, hi, rfl⟩ := List.mem_map.1 hx
    rw [(mem_unused.1 hi).2]
    rfl

lemma Kept.refresh (h : s.Kept kind prob) (hrefresh : s.refresh kind = .ok s') :
    s'.Kept kind prob ∧ s'.used = s.used ∧ (2 * s'.taken < s'.accum ∨ s'.taken = 0) := by
  rw [RejectionSampler.refresh, Nat.cast_ofNat] at hrefresh
  split_ifs at hrefresh with hhalf
  · obtain ⟨hkept, hused, htaken⟩ := kept_reconstruct (h.length_used.trans (by rw [h.prob_eq])) hrefresh
    rw [h.prob_eq] at hkept
    exact ⟨hkept, hused, Or.inr htaken⟩
  · obtain rfl := Except.ok.inj hrefresh
    exact ⟨h, rfl, Or.inl (not_le.1 hhalf)⟩

/-- An element leaves the table with its weight. -/
lemma Kept.take (h : s.Kept kind prob) {i : ℕ} (hi : i ∈ s.idMapping) (hunused : s.used.getD i false = false) :
    (s.take i).Kept kind prob := by
  have hlt : i < s.used.length := (h.lt i hi).trans_eq h.length_used.symm
  have hset (j : ℕ) : (s.used.set i true).getD j false = if j = i then true else s.used.getD j false := by
    rw [List.getD_eq_getElem?_getD, List.getElem?_set]
    by_cases hj : i = j
    · rw [if_pos hj, if_pos hj.symm, if_pos (hj ▸ hlt)]
      rfl
    · rw [if_neg hj, if_neg (Ne.symm hj), List.getD_eq_getElem?_getD]
  refine ⟨h.prob_eq, by rw [RejectionSampler.take, List.length_set, h.length_used], h.nodup, h.lt, ?_,
    h.accum, ?_, h.table⟩
  · intro j hj hout
    rw [RejectionSampler.take]
    simp only [hset]
    split_ifs
    · rfl
    · exact h.gone j hj hout
  · rw [RejectionSampler.take]
    simp only [hset, h.taken, h.prob_eq]
    rw [← List.sum_toFinset _ h.nodup, ← List.sum_toFinset _ h.nodup,
      ← Finset.add_sum_erase _ _ (List.mem_toFinset.2 hi),
      ← Finset.add_sum_erase s.idMapping.toFinset _ (List.mem_toFinset.2 hi), hunused]
    simp only [Bool.false_eq_true, if_false, if_true, zero_add]
    rw [add_comm]
    congr 1
    refine Finset.sum_congr rfl fun j hj => ?_
    rw [if_neg (Finset.ne_of_mem_erase hj)]

/-- A number leads to an element of the table, to each with its share. -/
lemma Kept.find (h : s.Kept kind prob) (hprob : ∀ x ∈ prob, 0 ≤ x) (hsees : kind.Sees prob)
    (hpos : 0 < s.accum) : (∀ u ∈ Ico (0 : ℝ) 1, s.find u ∈ s.idMapping) ∧
      ∀ j ∈ s.idMapping, volume {u | u ∈ Ico (0 : ℝ) 1 ∧ s.find u = j} =
        ENNReal.ofReal (prob.getD j 0 / s.accum) := by
  set weights := s.idMapping.map (prob.getD · 0) with hweights
  have hmem : ∀ w ∈ weights, 0 ≤ w ∧ w ∈ prob := by
    intro w hw
    obtain ⟨i, hi, rfl⟩ := List.mem_map.1 hw
    refine ⟨getD_nonneg hprob i, ?_⟩
    rw [List.getD_eq_getElem _ _ (h.lt i hi)]
    exact List.getElem_mem _
  have hsees' : kind.Sees weights := by
    cases kind with
    | byAlias => exact trivial
    | byCdf eps => exact ⟨hsees.1, fun w hw => hsees.2 w (hmem w hw).2⟩
  have hdraw := Lookup.proportional (fun w hw => (hmem w hw).1) (h.accum ▸ hpos) hsees'
  have hlen : weights.length = s.idMapping.length := List.length_map _
  rw [← h.accum, ← h.table, hlen] at hdraw
  have hfind {u : ℝ} (hu : u ∈ Ico (0 : ℝ) 1) :
      s.find u = s.idMapping.get ⟨s.table.find s.idMapping.length s.accum u, hdraw.lt u hu⟩ :=
    List.getD_eq_getElem _ _ _
  refine ⟨fun u hu => hfind hu ▸ List.get_mem _ _, fun j hj => ?_⟩
  obtain ⟨k, hk, rfl⟩ := List.mem_iff_getElem.1 hj
  have hset : {u | u ∈ Ico (0 : ℝ) 1 ∧ s.find u = s.idMapping[k]} =
      {u | u ∈ Ico (0 : ℝ) 1 ∧ s.table.find s.idMapping.length s.accum u = k} := by
    ext u
    refine and_congr_right fun hu => ?_
    rw [hfind hu, List.get_eq_getElem, h.nodup.getElem_inj_iff]
  rw [hset, hdraw.law k hk, ← hlen, ← sum_eq_sum_getD, ← h.accum]
  congr 2
  rw [List.getD_eq_getElem _ _ (hlen.trans_gt hk), List.getElem_map]

/-- The loop ends with a number that leads to an element that is not used. -/
lemma tries_cases (h : s.tries us = .ok (r, s', us')) : ∃ u ∈ us, s.used.getD (s.find u) false = false ∧
    r = some (s.find u) ∧ s' = s.take (s.find u) ∧ ∀ v ∈ us', v ∈ us := by
  induction us with
  | nil => cases h
  | cons u us ih =>
      rw [tries] at h
      split_ifs at h with hused
      · obtain ⟨v, hv, hcase⟩ := ih h
        exact ⟨v, List.mem_cons_of_mem _ hv, hcase.1, hcase.2.1, hcase.2.2.1,
          fun w hw => List.mem_cons_of_mem _ (hcase.2.2.2 w hw)⟩
      · simp only [Except.ok.injEq, Prod.mk.injEq] at h
        obtain ⟨rfl, rfl, rfl⟩ := h
        exact ⟨u, List.mem_cons_self, Bool.eq_false_iff.2 hused, rfl, rfl,
          fun w hw => List.mem_cons_of_mem _ hw⟩

lemma tries_ne_raised {s : RejectionSampler ℝ} : s.tries us ≠ .error .raised := by
  induction us with
  | nil => exact fun h => Stop.noConfusion (Except.error.inj h)
  | cons u us ih =>
      rw [tries]
      split_ifs
      · exact ih
      · intro h
        cases h

lemma draw_false {s : RejectionSampler ℝ} (hrefresh : s.refresh kind = .ok s') (us : List ℝ) :
    s.draw kind false us = if s'.accum ≤ 0 then .ok (none, s', us) else s'.tries us := by
  simp only [draw, Bool.false_eq_true, if_false, hrefresh]
  rfl

lemma draw_false_error {e : Stop} (hrefresh : s.refresh kind = .error e) (us : List ℝ) :
    s.draw kind false us = .error e := by
  simp only [draw, Bool.false_eq_true, if_false, hrefresh]
  rfl

/-- The elements that were drawn are used. -/
structure Drew (kind : Lookup ℝ) (prob : List ℝ) (drawn : List (Option ℕ)) (s : RejectionSampler ℝ) :
    Prop where
  kept : s.Kept kind prob
  used_iff : ∀ i < prob.length, s.used.getD i false = true ↔ some i ∈ drawn
  nodup : drawn.reduceOption.Nodup

variable {drawn : List (Option ℕ)}

lemma Drew.weightLeft_eq (h : s.Drew kind prob drawn) :
    s.weightLeft prob = ∑ i ∈ Finset.range prob.length, remaining prob false drawn i := by
  refine Finset.sum_congr rfl fun i hi => ?_
  simp only [remaining, true_and, h.used_iff i (Finset.mem_range.1 hi)]

/-- **Step lemma**: a draw gives an element that was not drawn before. -/
lemma Drew.draw (h : s.Drew kind prob drawn) (hprob : ∀ x ∈ prob, 0 ≤ x) (hsees : kind.Sees prob)
    (hus : ∀ u ∈ us, u ∈ Ico (0 : ℝ) 1) (hdraw : s.draw kind false us = .ok (r, s', us')) :
    s'.Drew kind prob (drawn ++ [r]) ∧ ∀ u ∈ us', u ∈ us := by
  cases hrefresh : s.refresh kind with
  | error e =>
      rw [draw_false_error hrefresh] at hdraw
      cases hdraw
  | ok t =>
      obtain ⟨hkept, hused, -⟩ := h.kept.refresh hrefresh
      rw [draw_false hrefresh] at hdraw
      split_ifs at hdraw with haccum
      · simp only [Except.ok.injEq, Prod.mk.injEq] at hdraw
        obtain ⟨rfl, rfl, rfl⟩ := hdraw
        refine ⟨⟨hkept, fun i hi => ?_, ?_⟩, fun u hu => hu⟩
        · rw [hused, h.used_iff i hi]
          simp
        · rw [List.reduceOption_append, List.reduceOption_cons_of_none, List.reduceOption_nil,
            List.append_nil]
          exact h.nodup
      · obtain ⟨u, hu, hunused, rfl, rfl, hrest⟩ := tries_cases hdraw
        have hin := (hkept.find hprob hsees (not_le.1 haccum)).1 u (hus u hu)
        have hlt := hkept.lt _ hin
        refine ⟨⟨hkept.take hin hunused, fun i hi => ?_, ?_⟩, hrest⟩
        · rw [take, List.getD_eq_getElem?_getD, List.getElem?_set]
          have hlen := hkept.length_used
          by_cases hi' : t.find u = i
          · rw [if_pos hi', if_pos (by omega), hi']
            simp
          · rw [if_neg hi', ← List.getD_eq_getElem?_getD, hused, h.used_iff i hi]
            simp [Ne.symm hi']
        · rw [List.reduceOption_append, List.reduceOption_cons_of_some, List.reduceOption_nil,
            List.nodup_append]
          refine ⟨h.nodup, List.nodup_singleton _, fun a ha b hb => ?_⟩
          obtain rfl := List.mem_singleton.1 hb
          rintro rfl
          rw [List.reduceOption_mem_iff, ← h.used_iff _ hlt, ← hused, hunused] at ha
          exact Bool.false_ne_true ha

/-- **Run lemma**: some draws. -/
lemma Drew.draws (h : s.Drew kind prob drawn) (hprob : ∀ x ∈ prob, 0 ≤ x) (hsees : kind.Sees prob)
    (hus : ∀ u ∈ us, u ∈ Ico (0 : ℝ) 1) {k : ℕ} {more : List (Option ℕ)}
    (hdraws : s.draws kind false k us = .ok (more, s', us')) : s'.Drew kind prob (drawn ++ more) := by
  induction k generalizing s us drawn more with
  | zero =>
      simp only [RejectionSampler.draws, Except.ok.injEq, Prod.mk.injEq] at hdraws
      obtain ⟨rfl, rfl, rfl⟩ := hdraws
      rwa [List.append_nil]
  | succ k ih =>
      rw [RejectionSampler.draws] at hdraws
      cases hfirst : s.draw kind false us with
      | error e =>
          rw [hfirst] at hdraws
          cases hdraws
      | ok first =>
          obtain ⟨r, t, vs⟩ := first
          rw [hfirst] at hdraws
          cases hrest : t.draws kind false k vs with
          | error e =>
              simp only [bind, Except.bind, hrest] at hdraws
              cases hdraws
          | ok rest =>
              obtain ⟨rs, t', vs'⟩ := rest
              simp only [bind, Except.bind, hrest, Except.ok.injEq, Prod.mk.injEq] at hdraws
              obtain ⟨rfl, rfl, rfl⟩ := hdraws
              obtain ⟨hnext, hsub⟩ := h.draw hprob hsees hus hfirst
              have hall := ih hnext (fun u hu => hus u (hsub u hu)) hrest
              rwa [List.append_assoc, List.singleton_append] at hall

lemma drew_ofProb (h : ofProb kind prob = .ok s) : s.Drew kind prob [] := by
  obtain ⟨hkept, hused, -⟩ := kept_reconstruct (List.length_replicate) h
  refine ⟨hkept, fun i hi => ?_, List.nodup_nil⟩
  rw [hused]
  simp [List.getD_eq_getElem?_getD, hi]

lemma refresh_error {e : Stop} (h : s.refresh kind = .error e) : s.unused = [] ∧ e = .raised := by
  rw [RejectionSampler.refresh, reconstruct] at h
  split_ifs at h with hhalf hnone
  exact ⟨hnone, (Except.error.inj h).symm⟩

lemma weightLeft_nonneg (s : RejectionSampler ℝ) (hprob : ∀ x ∈ prob, 0 ≤ x) : 0 ≤ s.weightLeft prob := by
  refine Finset.sum_nonneg fun i _ => ?_
  split_ifs
  · exact le_rfl
  · exact getD_nonneg hprob i

lemma Kept.taken_nonneg (h : s.Kept kind prob) (hprob : ∀ x ∈ prob, 0 ≤ x) : 0 ≤ s.taken := by
  rw [h.taken]
  refine List.sum_nonneg fun x hx => ?_
  obtain ⟨i, -, rfl⟩ := List.mem_map.1 hx
  split_ifs
  · exact getD_nonneg hprob i
  · exact le_rfl

/-- With some weight left the table can be made again. -/
lemma Drew.refresh_ok (h : s.Drew kind prob drawn) (hleft : s.weightLeft prob ≠ 0) :
    ∃ t, s.refresh kind = .ok t := by
  cases hrefresh : s.refresh kind with
  | ok t => exact ⟨t, rfl⟩
  | error e =>
      have hnone := (refresh_error hrefresh).1
      refine absurd (Finset.sum_eq_zero fun i hi => ?_) hleft
      split_ifs with hused
      · rfl
      · have hmem : i ∈ s.unused := mem_unused.2
          ⟨h.kept.prob_eq ▸ Finset.mem_range.1 hi, Bool.eq_false_iff.2 hused⟩
        rw [hnone] at hmem
        cases hmem

/-- The next draw raises or gives `-1`. -/
def Exhausted (kind : Lookup ℝ) (s : RejectionSampler ℝ) (us : List ℝ) : Prop :=
  s.draw kind false us = .error .raised ∨ ∃ s' us', s.draw kind false us = .ok (none, s', us')

/-- A draw is exhausted exactly when no weight is left. -/
lemma Drew.exhausted_iff (h : s.Drew kind prob drawn) (hprob : ∀ x ∈ prob, 0 ≤ x) (us : List ℝ) :
    s.Exhausted kind us ↔ s.weightLeft prob = 0 := by
  cases hrefresh : s.refresh kind with
  | error e =>
      refine iff_of_true (Or.inl ?_) ?_
      · rw [draw_false_error hrefresh, (refresh_error hrefresh).2]
      · by_contra hleft
        obtain ⟨t, ht⟩ := h.refresh_ok hleft
        rw [hrefresh] at ht
        cases ht
  | ok t =>
      obtain ⟨hkept, hused, hhalf⟩ := h.kept.refresh hrefresh
      have hsum := hkept.weightLeft_add
      rw [weightLeft, hused, ← weightLeft] at hsum
      have hleft := s.weightLeft_nonneg hprob
      have htaken := hkept.taken_nonneg hprob
      rw [Exhausted, draw_false hrefresh]
      split_ifs with haccum
      · refine iff_of_true (Or.inr ⟨t, us, rfl⟩) ?_
        linarith
      · refine iff_of_false ?_ fun hzero => ?_
        · rintro (hraised | ⟨s', us', hnone⟩)
          · exact tries_ne_raised hraised
          · obtain ⟨u, -, -, hr, -⟩ := tries_cases hnone
            cases hr
        · rcases hhalf with hhalf | hhalf
          · linarith
          · linarith

/-- **The next draw without replacement**: it is exhausted exactly when no weight is left; and else more
than half of the numbers end it, each element that is left with a share in proportion to its
probability. -/
theorem afterDraws_proportional {k : ℕ} {start : RejectionSampler ℝ} (hprob : ∀ x ∈ prob, 0 ≤ x)
    (hsees : kind.Sees prob) (hus : ∀ u ∈ us, u ∈ Ico (0 : ℝ) 1)
    (hstart : ofProb kind prob = .ok start) (hrun : start.draws kind false k us = .ok (drawn, s, us')) :
    drawn.reduceOption.Nodup ∧
      (∀ vs, s.Exhausted kind vs ↔
        ∑ i ∈ Finset.range prob.length, remaining prob false drawn i = 0) ∧
      (∑ i ∈ Finset.range prob.length, remaining prob false drawn i ≠ 0 →
        ∃ accum, ∑ i ∈ Finset.range prob.length, remaining prob false drawn i ≤ accum ∧
          accum < 2 * ∑ i ∈ Finset.range prob.length, remaining prob false drawn i ∧
          ∀ j < prob.length,
            volume {u | u ∈ Ico (0 : ℝ) 1 ∧ ∃ s', s.draw kind false [u] = .ok (some j, s', [])} =
              ENNReal.ofReal (remaining prob false drawn j / accum)) := by
  have hdrew := (drew_ofProb hstart).draws hprob hsees hus hrun
  rw [List.nil_append] at hdrew
  refine ⟨hdrew.nodup, ?_⟩
  rw [← hdrew.weightLeft_eq]
  refine ⟨fun vs => hdrew.exhausted_iff hprob vs, fun hzero => ?_⟩
  have hpos : 0 < s.weightLeft prob := lt_of_le_of_ne (s.weightLeft_nonneg hprob) (Ne.symm hzero)
  obtain ⟨t, hrefresh⟩ := hdrew.refresh_ok hpos.ne'
  obtain ⟨hkept, hused, hhalf⟩ := hdrew.kept.refresh hrefresh
  have hsum' := hkept.weightLeft_add
  have hsame : t.weightLeft prob = s.weightLeft prob := by rw [weightLeft, hused, weightLeft]
  rw [hsame] at hsum'
  have htaken := hkept.taken_nonneg hprob
  have haccum : 0 < t.accum := by linarith
  refine ⟨t.accum, by linarith, ?_, fun j hj => ?_⟩
  · rcases hhalf with hhalf | hhalf
    · linarith
    · linarith
  · have hdraw (u : ℝ) : (∃ s', s.draw kind false [u] = .ok (some j, s', [])) ↔
        s.used.getD j false = false ∧ t.find u = j := by
      rw [draw_false hrefresh, if_neg haccum.not_ge, tries, tries, hused]
      constructor
      · rintro ⟨s', h⟩
        split_ifs at h with hfound
        simp only [Except.ok.injEq, Prod.mk.injEq, Option.some.injEq] at h
        rw [← h.1]
        exact ⟨Bool.eq_false_iff.2 hfound, rfl⟩
      · rintro ⟨hunused, rfl⟩
        exact ⟨t.take (t.find u), by rw [if_neg (Bool.eq_false_iff.1 hunused)]⟩
    simp only [hdraw]
    by_cases hout : s.used.getD j false = false
    · have hin : j ∈ t.idMapping := by
        by_contra hmem
        rw [← hused, hkept.gone j hj hmem] at hout
        exact Bool.false_ne_true hout.symm
      have hnot : ¬(false = false ∧ some j ∈ drawn) := fun h => by
        rw [← hdrew.used_iff j hj, hout] at h
        exact Bool.false_ne_true h.2
      simp only [hout, true_and]
      rw [(hkept.find hprob hsees haccum).2 j hin, remaining, if_neg hnot]
    · have hmem := (hdrew.used_iff j hj).1 (by simpa using hout)
      have hempty : {u | u ∈ Ico (0 : ℝ) 1 ∧ s.used.getD j false = false ∧ t.find u = j} = ∅ := by
        ext u
        exact ⟨fun hu => absurd hu.2.1 hout, fun hu => absurd hu (notMem_empty u)⟩
      rw [hempty, measure_empty, remaining, if_pos ⟨rfl, hmem⟩, zero_div, ENNReal.ofReal_zero]

/-- With the weights 1 and 3 the second element is drawn and the table is made again. -/
lemma afterDraws_proportional_two : ∃ start s : RejectionSampler ℝ,
    ofProb (.byCdf 1) [1, 3] = .ok start ∧
      start.draws (.byCdf 1) false 1 [1 / 2] = .ok ([some 1], s, []) ∧ ∃ accum, 1 ≤ accum ∧ accum < 2 ∧
      volume {u | u ∈ Ico (0 : ℝ) 1 ∧ ∃ s', s.draw (.byCdf 1) false [u] = .ok (some 0, s', [])} =
        ENNReal.ofReal (1 / accum) := by
  have hprob : ∀ x ∈ [(1 : ℝ), 3], 0 ≤ x := by simp
  have hsees : (Lookup.byCdf (1 : ℝ)).Sees [1, 3] := ⟨one_pos, by simp⟩
  obtain ⟨start, hstart⟩ : ∃ start, ofProb (.byCdf 1) [(1 : ℝ), 3] = .ok start := ⟨_, rfl⟩
  have hrun : start.draws (.byCdf 1) false 1 [1 / 2] = .ok ([some 1], start.take 1, []) := by
    obtain rfl := Except.ok.inj hstart
    norm_num [draws, draw, refresh, tries, find, take, Table.find, Lookup.build, unused, List.range,
      List.range.loop, List.findIdx_cons, bind, Except.bind]
  have hus : ∀ u ∈ [(1 / 2 : ℝ)], u ∈ Ico (0 : ℝ) 1 := by norm_num
  have hlaw := (afterDraws_proportional hprob hsees hus hstart hrun).2.2
  have hsum : ∑ i ∈ Finset.range [(1 : ℝ), 3].length, remaining [(1 : ℝ), 3] false [some 1] i = 1 := by
    simp [Finset.sum_range_succ, remaining]
  rw [hsum] at hlaw
  obtain ⟨accum, hlow, hhigh, hshare⟩ := hlaw one_ne_zero
  refine ⟨start, start.take 1, hstart, hrun, accum, hlow, by linarith, ?_⟩
  simpa [remaining] using hshare 0 (by simp)

end RejectionSampler

end DglAscend.Random
