import DglAscend.Ascend.UnifiedBuffer
import DglAscend.Lib.WeightedDraw

/-!
# The tag buckets of a row

`LoadTagBounds` and `DrawBucket` of `csr_row_wise_sampling_biased_kernel.cpp`, with rational biases and
draws, and the loop that draws edges bucket by bucket.  A draw of one falls off the tail of the buckets
(`drawBucket_one`), and what is taken then is the last bucket, whatever is in it.
-/

namespace DglAscend.Ascend.Biased

/-- A tag bucket of a row: `TagBucketHead`, `rem_buf_` and `bias_buf_`. -/
structure Bucket where
  head : ℕ
  rem : ℕ
  bias : ℚ
  deriving DecidableEq

/-- `CountToFloat` goes by way of `int32_t`. -/
def countToFloat (n : ℕ) : ℚ := if n < 2 ^ 31 then n else n - 2 ^ 32

namespace Bucket

/-- A bucket from which an edge can be drawn. -/
def Usable (b : Bucket) : Prop := 0 < b.bias ∧ 0 < b.rem

instance (b : Bucket) : Decidable b.Usable := inferInstanceAs (Decidable (_ ∧ _))

/-- What a bucket adds to the total weight. -/
def weight (b : Bucket) : ℚ := if 0 < b.rem then countToFloat b.rem * b.bias else 0

/-- `rem_buf_.SetValue(t, r - 1)`, where `r` is a `uint32_t`. -/
def less (b : Bucket) : Bucket := { b with rem := u32 (b.rem + (2 ^ 32 - 1)) }

/-- The weight of a bucket is what it should be: its bias has been clamped, and its count, unless it does
not matter, is one of `int32_t`. -/
structure Fits (b : Bucket) : Prop where
  bias_nonneg : 0 ≤ b.bias
  rem_lt : 0 < b.bias → b.rem < 2 ^ 31

end Bucket

/-- A bucket behind the last one. -/
def noBucket : Bucket := ⟨0, 0, 0⟩

/-- The second loop of `DrawBucket`, from bucket `t` on. -/
def fallBelow : List Bucket → ℕ → ℚ → Option ℕ
  | [], _, _ => none
  | b :: bs, t, pick =>
      if b.rem = 0 then fallBelow bs (t + 1) pick
      else if pick - countToFloat b.rem * b.bias < 0 then some t
      else fallBelow bs (t + 1) (pick - countToFloat b.rem * b.bias)

/-- `DrawBucket`; `none` is `kNoBucket`. -/
def drawBucket (bs : List Bucket) (unit : ℚ) : Option ℕ :=
  let total := (bs.map Bucket.weight).sum
  if total ≤ 0 then none
  else some ((fallBelow bs 0 (unit * total)).getD (bs.length - 1))

variable {b : Bucket} {bs : List Bucket} {unit : ℚ} {t n left : ℕ}

/-! ## Draws -/

lemma countToFloat_pos (hpos : 0 < n) (hlt : n < 2 ^ 31) : 0 < countToFloat n := by
  rw [countToFloat, if_pos hlt, Nat.cast_pos]
  exact hpos

namespace Bucket

lemma Fits.weight_nonneg (h : b.Fits) : 0 ≤ b.weight := by
  rw [weight]
  split_ifs with hrem
  · by_cases hbias : 0 < b.bias
    · exact (mul_pos (countToFloat_pos hrem (h.rem_lt hbias)) hbias).le
    · rw [le_antisymm (not_lt.1 hbias) h.bias_nonneg, mul_zero]
  · exact le_refl 0

/-- A bucket has a weight if and only if an edge can be drawn from it. -/
lemma Fits.weight_pos_iff (h : b.Fits) : 0 < b.weight ↔ b.Usable := by
  constructor
  · intro hweight
    rw [weight] at hweight
    by_cases hrem : 0 < b.rem
    · rw [if_pos hrem] at hweight
      have hne : b.bias ≠ 0 := fun hzero => by
        rw [hzero, mul_zero] at hweight
        exact lt_irrefl 0 hweight
      exact ⟨lt_of_le_of_ne h.bias_nonneg hne.symm, hrem⟩
    · rw [if_neg hrem] at hweight
      exact absurd hweight (lt_irrefl 0)
  · rintro ⟨hbias, hrem⟩
    rw [weight, if_pos hrem]
    exact mul_pos (countToFloat_pos hrem (h.rem_lt hbias)) hbias

lemma less_bias : b.less.bias = b.bias := by rw [less]

lemma less_rem (hrem : 0 < b.rem) (hlt : b.rem < 2 ^ 32) : b.less.rem = b.rem - 1 := by
  show u32 (b.rem + (2 ^ 32 - 1)) = b.rem - 1
  rw [u32]
  omega

end Bucket

lemma fallBelow_eq (bs : List Bucket) (t : ℕ) {pick : ℚ} (hpick : 0 ≤ pick) :
    fallBelow bs t pick = (firstAbove (bs.map Bucket.weight) pick).map (· + t) := by
  induction bs generalizing t pick with
  | nil => rw [fallBelow, List.map_nil, firstAbove, Option.map_none]
  | cons b bs ih =>
      rw [fallBelow, List.map_cons, firstAbove]
      by_cases hrem : b.rem = 0
      · have hweight : b.weight = 0 := by rw [Bucket.weight, if_neg (by omega)]
        rw [if_pos hrem, hweight, if_neg (not_lt.2 hpick), sub_zero, ih (t + 1) hpick,
          Option.map_map]
        congr 1
        funext k
        show k + (t + 1) = k + 1 + t
        omega
      · have hweight : b.weight = countToFloat b.rem * b.bias := by
          rw [Bucket.weight, if_pos (Nat.pos_of_ne_zero hrem)]
        rw [if_neg hrem, ← hweight]
        by_cases hlt : pick < b.weight
        · rw [if_pos (sub_neg.2 hlt), if_pos hlt, Option.map_some, Nat.zero_add]
        · rw [if_neg (fun h => hlt (sub_neg.1 h)), if_neg hlt,
            ih (t + 1) (sub_nonneg.2 (not_lt.1 hlt)), Option.map_map]
          congr 1
          funext k
          show k + (t + 1) = k + 1 + t
          omega

lemma getD_weight (bs : List Bucket) (t : ℕ) :
    (bs.map Bucket.weight).getD t 0 = (bs.getD t noBucket).weight := by
  have hnone : noBucket.weight = 0 := if_neg (lt_irrefl 0)
  rw [← hnone, List.getD_map]

/-- What is known of the buckets of a row. -/
def AllFit (bs : List Bucket) : Prop := ∀ b ∈ bs, b.Fits

lemma AllFit.weights (h : AllFit bs) : ∀ w ∈ bs.map Bucket.weight, 0 ≤ w := by
  intro w hw
  obtain ⟨b, hb, rfl⟩ := List.mem_map.1 hw
  exact (h b hb).weight_nonneg

lemma getD_mem (ht : t < bs.length) : bs.getD t noBucket ∈ bs := by
  rw [List.getD_eq_getElem _ _ ht]
  exact List.getElem_mem ht

/-- There is a total weight if and only if there is a usable bucket. -/
lemma AllFit.total_pos_iff (h : AllFit bs) :
    0 < (bs.map Bucket.weight).sum ↔ ∃ b ∈ bs, b.Usable := by
  rw [sum_pos_iff_exists h.weights]
  constructor
  · rintro ⟨w, hw, hpos⟩
    obtain ⟨b, hb, rfl⟩ := List.mem_map.1 hw
    exact ⟨b, hb, (h b hb).weight_pos_iff.1 hpos⟩
  · rintro ⟨b, hb, husable⟩
    exact ⟨b.weight, List.mem_map_of_mem hb, (h b hb).weight_pos_iff.2 husable⟩

/-- A draw that does not fall off the tail is right, and one that does is the last bucket. -/
lemma drawBucket_some (h : AllFit bs) (hunit : 0 ≤ unit) (hdraw : drawBucket bs unit = some t) :
    (t < bs.length ∧ (bs.getD t noBucket).Usable) ∨ t = bs.length - 1 := by
  rw [drawBucket] at hdraw
  by_cases htotal : (bs.map Bucket.weight).sum ≤ 0
  · rw [if_pos htotal] at hdraw
    cases hdraw
  · rw [if_neg htotal, Option.some_inj] at hdraw
    have hpick : 0 ≤ unit * (bs.map Bucket.weight).sum := mul_nonneg hunit (not_le.1 htotal).le
    rw [fallBelow_eq bs 0 hpick] at hdraw
    cases hfirst : firstAbove (bs.map Bucket.weight) (unit * (bs.map Bucket.weight).sum) with
    | none =>
        rw [hfirst, Option.map_none, Option.getD_none] at hdraw
        exact Or.inr hdraw.symm
    | some k =>
        rw [hfirst, Option.map_some, Option.getD_some, Nat.add_zero] at hdraw
        subst hdraw
        obtain ⟨hlen, hpos⟩ := firstAbove_pos hpick hfirst
        rw [List.length_map] at hlen
        rw [getD_weight] at hpos
        exact Or.inl ⟨hlen, (h _ (getD_mem hlen)).weight_pos_iff.1 hpos⟩

/-- **Draws are right where the last bucket is usable.** -/
theorem drawBucket_usable (h : AllFit bs) (hunit : 0 ≤ unit)
    (hlast : (bs.getD (bs.length - 1) noBucket).Usable) :
    ∃ t, drawBucket bs unit = some t ∧ t < bs.length ∧ (bs.getD t noBucket).Usable := by
  have hne : bs ≠ [] := by
    rintro rfl
    exact absurd hlast.2 (lt_irrefl 0)
  have hlen : bs.length - 1 < bs.length := Nat.sub_lt (List.length_pos_of_ne_nil hne) Nat.one_pos
  have htotal : 0 < (bs.map Bucket.weight).sum := h.total_pos_iff.2 ⟨_, getD_mem hlen, hlast⟩
  have hdraw : drawBucket bs unit = some ((fallBelow bs 0
      (unit * (bs.map Bucket.weight).sum)).getD (bs.length - 1)) := by
    rw [drawBucket, if_neg (not_le.2 htotal)]
  refine ⟨_, hdraw, ?_⟩
  rcases drawBucket_some h hunit hdraw with hright | htail
  · exact hright
  · rw [htail]
    exact ⟨hlen, hlast⟩

/-- **A draw of one falls off the tail.** -/
theorem drawBucket_one (h : AllFit bs) : drawBucket bs 1 =
    if ∃ b ∈ bs, b.Usable then some (bs.length - 1) else none := by
  rw [drawBucket]
  by_cases husable : ∃ b ∈ bs, b.Usable
  · have htotal := h.total_pos_iff.2 husable
    have hnone : firstAbove (bs.map Bucket.weight) (1 * (bs.map Bucket.weight).sum) = none := by
      rw [firstAbove_eq_none_iff h.weights (by rw [one_mul]; exact htotal.le), one_mul]
    rw [if_neg (not_le.2 htotal), if_pos husable, fallBelow_eq bs 0 (by rw [one_mul]; exact htotal.le),
      hnone, Option.map_none, Option.getD_none]
  · rw [if_pos (not_lt.1 fun htotal => husable (h.total_pos_iff.1 htotal)), if_neg husable]

end DglAscend.Ascend.Biased
