import DglAscend.Lib.EqualShares

/-!
# Balanced partitions

`BuildBalancedPartitions` of `array/ascend/spmm.cc` shares out weighted items over cores.  The
boundaries are those of the prefix sums of the weights; without weight they are taken from the item
numbers, in 32-bit arithmetic.
-/

namespace DglAscend.Ascend

/-- `std::lower_bound` in the prefix sums, for the weight `total_weight * part / num_parts`.  Sums
below `2 ^ 32` are compared with the quotient as with its `double`, so the division is left out. -/
def lowerBoundOfPart (weights : List ℕ) (numParts part : ℕ) : ℕ :=
  (weights.scanl (· + ·) 0).findIdx fun w => weights.sum * part ≤ w * numParts

/-- The loop of `BuildBalancedPartitions` over the parts. -/
def balancedBoundary (weights : List ℕ) (numParts : ℕ) : ℕ → ℕ
  | 0 => 0
  | part + 1 =>
    min (max (lowerBoundOfPart weights numParts (part + 1)) (balancedBoundary weights numParts part))
      weights.length

/-- `BuildBalancedPartitions`: the boundary before `part`. -/
def buildBalancedPartitions (weights : List ℕ) (numParts part : ℕ) : ℕ :=
  if numParts = 0 then 0
  else if part = numParts then weights.length
  else if weights.length = 0 then 0
  else if weights.length ≤ numParts then min part weights.length
  else if weights.sum = 0 then part * weights.length % 2 ^ 32 / numParts
  else balancedBoundary weights numParts part

variable {weights : List ℕ} {numParts part : ℕ}

/-- The items are weighted, or few enough for the boundaries to fit in 32 bits. -/
def NoWrap (weights : List ℕ) (numParts : ℕ) : Prop :=
  weights.sum = 0 → numParts < weights.length → (numParts - 1) * weights.length < 2 ^ 32

lemma balancedBoundary_le : balancedBoundary weights numParts part ≤ weights.length :=
  rising_le rfl (fun _ => rfl) part

lemma balancedBoundary_mono :
    balancedBoundary weights numParts part ≤ balancedBoundary weights numParts (part + 1) :=
  rising_mono rfl (fun _ => rfl) part

lemma buildBalancedPartitions_zero (hparts : 0 < numParts) :
    buildBalancedPartitions weights numParts 0 = 0 := by
  unfold buildBalancedPartitions
  rw [if_neg (by omega), if_neg (by omega)]
  by_cases hlen : weights.length = 0
  · rw [if_pos hlen]
  · rw [if_neg hlen, Nat.zero_min, Nat.zero_mul, Nat.zero_mod, Nat.zero_div, balancedBoundary,
      ite_self, ite_self]

lemma buildBalancedPartitions_last (hparts : 0 < numParts) :
    buildBalancedPartitions weights numParts numParts = weights.length := by
  rw [buildBalancedPartitions, if_neg (by omega), if_pos rfl]

lemma buildBalancedPartitions_le (hpart : part ≤ numParts) :
    buildBalancedPartitions weights numParts part ≤ weights.length := by
  unfold buildBalancedPartitions
  split_ifs with h1 h2 h3 h4 h5
  · exact Nat.zero_le _
  · exact le_refl _
  · exact Nat.zero_le _
  · exact min_le_right _ _
  · exact share_le _ (Nat.pos_of_ne_zero h1) hpart
  · exact balancedBoundary_le

lemma buildBalancedPartitions_eq_equalShare (hmany : numParts < weights.length) (hsum : weights.sum = 0)
    (hparts : 0 < numParts) (part : ℕ) :
    buildBalancedPartitions weights numParts part = equalShare weights.length numParts part := by
  rw [buildBalancedPartitions, equalShare, if_neg hparts.ne', if_neg (by omega : weights.length ≠ 0),
    if_neg (by omega : ¬ weights.length ≤ numParts), if_pos hsum]

/-- **The boundaries never go down** unless the item numbers of the cores overflow. -/
theorem buildBalancedPartitions_mono_iff (hparts : 0 < numParts) (hitems : weights.length ≤ 2 ^ 31) :
    (∀ p < numParts, buildBalancedPartitions weights numParts p ≤
        buildBalancedPartitions weights numParts (p + 1)) ↔ NoWrap weights numParts := by
  by_cases hequal : weights.sum = 0 ∧ numParts < weights.length
  · obtain ⟨hsum, hmany⟩ := hequal
    simp only [buildBalancedPartitions_eq_equalShare hmany hsum hparts]
    rw [equalShare_mono_iff hparts hmany (by omega)]
    refine ⟨fun h _ _ => h.resolve_right (by omega), fun h => .inl (h hsum hmany)⟩
  refine ⟨fun _ hsum hmany => absurd ⟨hsum, hmany⟩ hequal, fun _ p hp => ?_⟩
  by_cases hlast : p + 1 = numParts
  · rw [hlast, buildBalancedPartitions_last hparts]
    exact buildBalancedPartitions_le hp.le
  · simp only [buildBalancedPartitions, if_neg hparts.ne', if_neg hp.ne, if_neg hlast]
    split_ifs with h3 h4 h5
    · exact le_refl _
    · omega
    · omega
    · exact balancedBoundary_mono

/-- **Every item goes to exactly one core** unless the item numbers of the cores overflow. -/
theorem existsUnique_core_iff (hparts : 0 < numParts) (hitems : weights.length ≤ 2 ^ 31) :
    (∀ w < weights.length, ∃! p, p < numParts ∧
        InSlot (buildBalancedPartitions weights numParts) p w) ↔ NoWrap weights numParts := by
  rw [existsUnique_inSlot_iff (buildBalancedPartitions_zero hparts)
    (buildBalancedPartitions_last hparts) fun p hp => buildBalancedPartitions_le hp]
  exact buildBalancedPartitions_mono_iff hparts hitems

/-- The cores together take all items in order. -/
theorem slotItems_balanced (hparts : 0 < numParts) (hitems : weights.length ≤ 2 ^ 31)
    (hno : NoWrap weights numParts) :
    slotItems (buildBalancedPartitions weights numParts) numParts = List.range weights.length := by
  rw [slotItems_eq (buildBalancedPartitions_zero hparts)
    ((buildBalancedPartitions_mono_iff hparts hitems).2 hno), buildBalancedPartitions_last hparts]

end DglAscend.Ascend
