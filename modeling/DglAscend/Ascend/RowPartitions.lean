import DglAscend.Lib.EqualShares
import Mathlib.Data.List.GetD

/-!
# Row partitions of the uniform sampler

`BuildBalancedPartitions` of `array/ascend/csr_row_wise_sampling_uniform.cc` and the offsets that its
caller computes for the blocks.  The weights are added up in `double`, the items are counted and the
picks added up in 32 bits.
-/

namespace DglAscend.Ascend.RowPartitions

/-- Results of `double` arithmetic are rounded, and the integers up to `2 ^ 53` are kept. -/
structure Rounding where
  run : ℚ → ℚ
  exact : ∀ k : ℕ, k ≤ 2 ^ 53 → run k = k

variable (d : Rounding) (weights : List ℕ) (numParts : ℕ)

/-- `item_count` -/
def itemCount : ℕ := weights.length % 2 ^ 32

/-- `prefix`, in `double`. -/
def weightPrefix : List ℚ :=
  (weights.take (itemCount weights)).scanl (fun sum (w : ℕ) => d.run (sum + w)) 0

/-- `total_weight` -/
def totalWeight : ℚ := (weightPrefix d weights).getD (itemCount weights) 0

/-- `std::lower_bound` for the target of a part. -/
def lowerBoundOfPart (part : ℕ) : ℕ :=
  (weightPrefix d weights).findIdx fun w =>
    d.run (d.run (totalWeight d weights * part) / numParts) ≤ w

/-- The loops over the parts, which find the boundaries and then enforce monotonicity. -/
def searchedBoundary : ℕ → ℕ
  | 0 => 0
  | part + 1 =>
    min (max (lowerBoundOfPart d weights numParts (part + 1) % 2 ^ 32) (searchedBoundary part))
      (itemCount weights)

/-- The boundary before a part. -/
def boundary (part : ℕ) : ℕ :=
  if part = numParts then itemCount weights
  else if itemCount weights = 0 then 0
  else if itemCount weights ≤ numParts then min part (itemCount weights)
  else if totalWeight d weights ≤ 0 then part * itemCount weights % 2 ^ 32 / numParts
  else searchedBoundary d weights numParts part

/-- `BuildBalancedPartitions`; nothing when `item_count + 1`, the size of `prefix`, wraps to `0`. -/
def buildBalancedPartitions : Option (List ℕ) :=
  if numParts = 0 then some [0]
  else if itemCount weights ≠ 0 ∧ numParts < itemCount weights ∧ itemCount weights + 1 = 2 ^ 32 then none
  else some ((List.range (numParts + 1)).map (boundary d weights numParts))

/-- `out_starts`, read from the sums of the picks in 32 bits. -/
def outStarts (picks : List ℕ) (rowSplit : List ℕ) : List ℕ :=
  rowSplit.map ((picks.scanl (fun sum pick => (sum + pick) % 2 ^ 32) 0).getD · 0)

/-- The blocks share out the rows and the output: the boundaries rise from `0` to the number of rows, the
output of a block starts after the picks of the rows before it, and every row and every place of the
output belong to one block. -/
structure SharesOut (picks : List ℕ) (numBlocks : ℕ) (rowSplit : List ℕ) : Prop where
  length : rowSplit.length = numBlocks + 1
  first : rowSplit.getD 0 0 = 0
  last : rowSplit.getD numBlocks 0 = picks.length
  mono : ∀ b < numBlocks, rowSplit.getD b 0 ≤ rowSplit.getD (b + 1) 0
  starts : ∀ b ≤ numBlocks,
    (outStarts picks rowSplit).getD b 0 = (picks.take (rowSplit.getD b 0)).sum
  rows : ∀ row < picks.length, ∃! b, b < numBlocks ∧ InSlot (rowSplit.getD · 0) b row
  places : ∀ place < picks.sum, ∃! b, b < numBlocks ∧ InSlot ((outStarts picks rowSplit).getD · 0) b place

/-- The numbers fit in 32 bits: the rows with the end of the last one, the picks of all rows and, when
nothing is picked and there are more rows than blocks, the products that share out the rows equally. -/
structure Fits (picks : List ℕ) (numBlocks : ℕ) : Prop where
  rows_lt : picks.length + 1 < 2 ^ 32
  picks_lt : picks.sum < 2 ^ 32
  equal : picks.sum = 0 → numBlocks < picks.length →
    (numBlocks - 1) * picks.length < 2 ^ 32 ∨ numBlocks = 3 ∧ picks.length = 2 ^ 32 - 2

/-! ## Sums -/

lemma getD_scanl_mod {m : ℕ} (picks : List ℕ) (start : ℕ) {i : ℕ} (hi : i ≤ picks.length) :
    (picks.scanl (fun sum pick => (sum + pick) % m) (start % m)).getD i 0 =
      (start + (picks.take i).sum) % m := by
  induction picks generalizing start i with
  | nil =>
      obtain rfl : i = 0 := Nat.le_zero.1 hi
      rfl
  | cons pick picks ih =>
      rw [List.scanl_cons]
      cases i with
      | zero => rfl
      | succ i =>
          rw [List.getD_cons_succ, Nat.mod_add_mod, ih _ (Nat.le_of_succ_le_succ hi),
            List.take_succ_cons, List.sum_cons, Nat.add_assoc]

variable {d weights numParts} {picks : List ℕ} {numBlocks : ℕ} {rowSplit : List ℕ}

lemma getD_outStarts {b : ℕ} (hb : b < rowSplit.length) (hle : rowSplit.getD b 0 ≤ picks.length) :
    (outStarts picks rowSplit).getD b 0 = (picks.take (rowSplit.getD b 0)).sum % 2 ^ 32 := by
  have hsum := getD_scanl_mod (m := 2 ^ 32) picks 0 hle
  rw [Nat.zero_mod, Nat.zero_add] at hsum
  rw [← hsum, outStarts, List.getD_eq_getElem _ _ (by rwa [List.length_map]), List.getElem_map,
    List.getD_eq_getElem _ _ hb]

lemma getD_scanl_round (d : Rounding) (weights : List ℕ) (start : ℕ) {i : ℕ} (hi : i ≤ weights.length)
    (hsum : start + weights.sum ≤ 2 ^ 53) :
    (weights.scanl (fun sum (w : ℕ) => d.run (sum + w)) (start : ℚ)).getD i 0 =
      ((start + (weights.take i).sum : ℕ) : ℚ) := by
  induction weights generalizing start i with
  | nil =>
      obtain rfl : i = 0 := Nat.le_zero.1 hi
      rfl
  | cons w weights ih =>
      rw [List.sum_cons] at hsum
      rw [List.scanl_cons]
      cases i with
      | zero => rfl
      | succ i =>
          rw [List.getD_cons_succ, ← Nat.cast_add, d.exact _ (by omega),
            ih _ (Nat.le_of_succ_le_succ hi) (by omega), List.take_succ_cons, List.sum_cons, Nat.add_assoc]

lemma itemCount_of_lt (hrows : weights.length < 2 ^ 32) : itemCount weights = weights.length :=
  Nat.mod_eq_of_lt hrows

lemma totalWeight_eq (hrows : weights.length < 2 ^ 32) (hsum : weights.sum ≤ 2 ^ 53) :
    totalWeight d weights = weights.sum := by
  have htotal := getD_scanl_round d weights 0 le_rfl (by rwa [Nat.zero_add])
  rw [List.take_length, Nat.zero_add, Nat.cast_zero] at htotal
  rw [totalWeight, weightPrefix, itemCount_of_lt hrows, List.take_length, htotal]

/-! ## Boundaries -/

lemma searchedBoundary_le (part : ℕ) : searchedBoundary d weights numParts part ≤ itemCount weights :=
  rising_le (f := fun part => lowerBoundOfPart d weights numParts part % 2 ^ 32) rfl (fun _ => rfl) part

lemma searchedBoundary_mono (part : ℕ) :
    searchedBoundary d weights numParts part ≤ searchedBoundary d weights numParts (part + 1) :=
  rising_mono (f := fun part => lowerBoundOfPart d weights numParts part % 2 ^ 32) rfl (fun _ => rfl) part

lemma boundary_zero (hparts : 0 < numParts) : boundary d weights numParts 0 = 0 := by
  rw [boundary, if_neg hparts.ne]
  by_cases hitems : itemCount weights = 0
  · rw [if_pos hitems]
  · rw [if_neg hitems, Nat.zero_min, Nat.zero_mul, Nat.zero_mod, Nat.zero_div, searchedBoundary,
      ite_self, ite_self]

lemma boundary_last : boundary d weights numParts numParts = itemCount weights := if_pos rfl

lemma boundary_le {part : ℕ} (hparts : 0 < numParts) (hpart : part ≤ numParts) :
    boundary d weights numParts part ≤ itemCount weights := by
  rw [boundary]
  split_ifs with h1 h2 h3 h4
  · exact le_rfl
  · exact Nat.zero_le _
  · exact min_le_right _ _
  · exact share_le _ hparts hpart
  · exact searchedBoundary_le part

/-! ## What the boundaries share out -/

lemma boundary_eq_equalShare (hitems : itemCount weights ≠ 0) (hmany : numParts < itemCount weights)
    (hzero : totalWeight d weights ≤ 0) (part : ℕ) :
    boundary d weights numParts part = equalShare (itemCount weights) numParts part := by
  rw [boundary, equalShare, if_neg hitems, if_neg (Nat.not_le.2 hmany), if_pos hzero]

/-- The boundaries never go down, unless there is no weight and the equal shares do. -/
lemma boundary_mono_of (hparts : 0 < numParts)
    (hequal : totalWeight d weights ≤ 0 → numParts < itemCount weights →
      ∀ part < numParts, equalShare (itemCount weights) numParts part ≤
        equalShare (itemCount weights) numParts (part + 1)) {part : ℕ} (hpart : part < numParts) :
    boundary d weights numParts part ≤ boundary d weights numParts (part + 1) := by
  by_cases hlast : part + 1 = numParts
  · rw [hlast, boundary_last]
    exact boundary_le hparts hpart.le
  by_cases hitems : itemCount weights = 0
  · rw [boundary, boundary, if_neg hpart.ne, if_neg hlast, if_pos hitems, if_pos hitems]
  by_cases hfew : itemCount weights ≤ numParts
  · rw [boundary, boundary, if_neg hpart.ne, if_neg hlast, if_neg hitems, if_neg hitems, if_pos hfew,
      if_pos hfew]
    omega
  by_cases hzero : totalWeight d weights ≤ 0
  · rw [boundary_eq_equalShare hitems (Nat.not_le.1 hfew) hzero,
      boundary_eq_equalShare hitems (Nat.not_le.1 hfew) hzero]
    exact hequal hzero (Nat.not_le.1 hfew) part hpart
  · rw [boundary, boundary, if_neg hpart.ne, if_neg hlast, if_neg hitems, if_neg hitems, if_neg hfew,
      if_neg hfew, if_neg hzero, if_neg hzero]
    exact searchedBoundary_mono part

lemma buildBalancedPartitions_eq_some (hparts : 0 < numParts)
    (h : buildBalancedPartitions d weights numParts = some rowSplit) :
    rowSplit = (List.range (numParts + 1)).map (boundary d weights numParts) := by
  rw [buildBalancedPartitions, if_neg hparts.ne'] at h
  split_ifs at h
  exact (Option.some.inj h).symm

lemma getD_map_boundary {b : ℕ} (hb : b ≤ numParts) :
    ((List.range (numParts + 1)).map (boundary d weights numParts)).getD b 0 =
      boundary d weights numParts b := by
  rw [List.getD_eq_getElem _ _ (by rw [List.length_map, List.length_range]; omega), List.getElem_map,
    List.getElem_range]

lemma sum_take_le (picks : List ℕ) (i : ℕ) : (picks.take i).sum ≤ picks.sum :=
  (List.take_sublist _ _).sum_le_sum fun _ _ => Nat.zero_le _

lemma sum_take_mono (picks : List ℕ) {i j : ℕ} (hij : i ≤ j) :
    (picks.take i).sum ≤ (picks.take j).sum :=
  (List.take_sublist_take_left hij).sum_le_sum fun _ _ => Nat.zero_le _

/-- Boundaries and starts that are right share out the rows and the output. -/
lemma sharesOut_of_starts (hlength : rowSplit.length = numBlocks + 1)
    (hfirst : rowSplit.getD 0 0 = 0) (hlast : rowSplit.getD numBlocks 0 = picks.length)
    (hmono : ∀ b < numBlocks, rowSplit.getD b 0 ≤ rowSplit.getD (b + 1) 0)
    (hstarts : ∀ b ≤ numBlocks,
      (outStarts picks rowSplit).getD b 0 = (picks.take (rowSplit.getD b 0)).sum) :
    SharesOut picks numBlocks rowSplit where
  length := hlength
  first := hfirst
  last := hlast
  mono := hmono
  starts := hstarts
  rows := by
    refine (existsUnique_inSlot_iff (b := (rowSplit.getD · 0)) hfirst hlast fun b hb => ?_).2 hmono
    rw [← hlast]
    exact boundary_mono hmono hb le_rfl
  places := by
    refine (existsUnique_inSlot_iff (b := ((outStarts picks rowSplit).getD · 0)) ?_ ?_
      fun b hb => ?_).2 fun b hb => ?_
    · rw [hstarts 0 (Nat.zero_le _), hfirst]
      rfl
    · rw [hstarts numBlocks le_rfl, hlast, List.take_length]
    · rw [hstarts b hb]
      exact sum_take_le _ _
    · rw [hstarts b hb.le, hstarts (b + 1) hb]
      exact sum_take_mono _ (hmono b hb)

lemma Fits.sharesOut (h : Fits picks numBlocks) (hblocks : 0 < numBlocks) :
    ∃ rowSplit, buildBalancedPartitions d picks numBlocks = some rowSplit ∧
      SharesOut picks numBlocks rowSplit := by
  have hrows := h.rows_lt
  have hsum := h.picks_lt
  have hitems : itemCount picks = picks.length := itemCount_of_lt (by omega)
  have hequal : totalWeight d picks ≤ 0 → numBlocks < itemCount picks → ∀ part < numBlocks,
      equalShare (itemCount picks) numBlocks part ≤ equalShare (itemCount picks) numBlocks (part + 1) := by
    intro hzero hmany
    rw [totalWeight_eq (by omega) (by omega)] at hzero
    have hnone : picks.sum = 0 := Nat.le_zero.1 (by exact_mod_cast hzero)
    rw [hitems] at hmany ⊢
    exact (equalShare_mono_iff hblocks hmany hrows).2 (h.equal hnone hmany)
  have hmono : ∀ b < numBlocks,
      boundary d picks numBlocks b ≤ boundary d picks numBlocks (b + 1) :=
    fun b hb => boundary_mono_of hblocks hequal hb
  have hle : ∀ b ≤ numBlocks, boundary d picks numBlocks b ≤ picks.length := fun b hb =>
    (boundary_le hblocks hb).trans_eq hitems
  have hsome : buildBalancedPartitions d picks numBlocks =
      some ((List.range (numBlocks + 1)).map (boundary d picks numBlocks)) := by
    rw [buildBalancedPartitions, if_neg hblocks.ne', if_neg fun hwrap => by omega]
  have hlength : ((List.range (numBlocks + 1)).map (boundary d picks numBlocks)).length =
      numBlocks + 1 := by
    rw [List.length_map, List.length_range]
  refine ⟨_, hsome, sharesOut_of_starts hlength ?_ ?_ (fun b hb => ?_) fun b hb => ?_⟩
  · rw [getD_map_boundary (Nat.zero_le _), boundary_zero hblocks]
  · rw [getD_map_boundary le_rfl, boundary_last, hitems]
  · rw [getD_map_boundary hb.le, getD_map_boundary hb]
    exact hmono b hb
  · rw [getD_outStarts (by rw [hlength]; omega) (by rw [getD_map_boundary hb]; exact hle b hb),
      Nat.mod_eq_of_lt ((sum_take_le _ _).trans_lt hsum)]

/-- The offset behind the last block is a number of 32 bits. -/
lemma SharesOut.picks_lt (h : SharesOut picks numBlocks rowSplit) : picks.sum < 2 ^ 32 := by
  have hlength := h.length
  have hstart := h.starts numBlocks le_rfl
  rw [getD_outStarts (by omega) h.last.le, h.last, List.take_length] at hstart
  rw [← hstart]
  exact Nat.mod_lt _ (by decide)

lemma SharesOut.fits (h : SharesOut picks numBlocks rowSplit) (hblocks : 0 < numBlocks)
    (hblocks' : numBlocks + 1 < 2 ^ 32)
    (hsome : buildBalancedPartitions d picks numBlocks = some rowSplit) : Fits picks numBlocks := by
  have heq := buildBalancedPartitions_eq_some hblocks hsome
  have hlast := h.last
  rw [heq, getD_map_boundary le_rfl, boundary_last] at hlast
  have hitems : picks.length < 2 ^ 32 := by
    rw [← hlast]
    exact Nat.mod_lt _ (by decide)
  have hrows : picks.length + 1 < 2 ^ 32 := by
    by_contra hge
    have hwrap : buildBalancedPartitions d picks numBlocks = none := by
      rw [buildBalancedPartitions, if_neg hblocks.ne', if_pos (by rw [hlast]; omega)]
    rw [hwrap] at hsome
    cases hsome
  refine ⟨hrows, h.picks_lt, fun hnone hmany => ?_⟩
  have hzero : totalWeight d picks ≤ 0 := by
    rw [totalWeight_eq hitems (by omega), hnone]
    exact le_rfl
  refine (equalShare_mono_iff hblocks hmany hrows).1 fun part hpart => ?_
  have hstep := h.mono part hpart
  rwa [heq, getD_map_boundary hpart.le, getD_map_boundary hpart,
    boundary_eq_equalShare (by omega) (by omega) hzero,
    boundary_eq_equalShare (by omega) (by omega) hzero, hlast] at hstep

/-- **The rows and the output are shared out** exactly when their numbers fit in 32 bits. -/
theorem sharesOut_iff (d : Rounding) (picks : List ℕ) {numBlocks : ℕ} (hblocks : 0 < numBlocks)
    (hblocks' : numBlocks + 1 < 2 ^ 32) :
    (∃ rowSplit, buildBalancedPartitions d picks numBlocks = some rowSplit ∧
      SharesOut picks numBlocks rowSplit) ↔ Fits picks numBlocks := by
  constructor
  · rintro ⟨rowSplit, hsome, h⟩
    exact h.fits hblocks hblocks' hsome
  · exact fun h => h.sharesOut hblocks

/-- Small sums are not rounded. -/
def exactly : Rounding := ⟨id, fun _ _ => rfl⟩

/-- Three rows, two of them with picks, for two blocks. -/
theorem sharesOut_threeRows : ∃ rowSplit, buildBalancedPartitions exactly [5, 0, 2] 2 = some rowSplit ∧
    SharesOut [5, 0, 2] 2 rowSplit :=
  (sharesOut_iff exactly [5, 0, 2] (by decide) (by decide)).2 ⟨by decide, by decide, by decide⟩

/-- Two rows with `2 ^ 31` picks each: the output ends at offset `0`. -/
theorem not_sharesOut_manyPicks :
    ¬∃ rowSplit, buildBalancedPartitions exactly [2 ^ 31, 2 ^ 31] 40 = some rowSplit ∧
      SharesOut [2 ^ 31, 2 ^ 31] 40 rowSplit := by
  rintro ⟨rowSplit, -, h⟩
  exact absurd h.picks_lt (by decide)

end DglAscend.Ascend.RowPartitions
