import DglAscend.Ascend.BiasedSampling

/-!
# Counts and draws of biased sampling

When the two kernels agree: every seed gets as many triples as the first kernel has counted, both read
the row of tag offsets that is the seed's own, and no draw returns a bucket without edges while there is
one with edges.  The triples are as many for every run of draws only if the last bucket, into which the
draws fall that are near one, holds as many edges as are asked for (`drawPicks_iff`).
-/

namespace DglAscend.Ascend.Biased

/-- A call of `DrawBucket` has returned a usable bucket, or there was none. -/
def Right (call : List Bucket × Option ℕ) : Prop :=
  (∃ b ∈ call.1, b.Usable) → ∃ t, call.2 = some t ∧ (call.1.getD t noBucket).Usable

/-- All draws are one. -/
def ones : Draws where
  unit _ := 1
  word _ _ := 0
  staleIdx _ := 0
  staleData _ := 0
  unit_nonneg _ := zero_le_one
  unit_le _ := le_refl 1

lemma idU32_eq {v : ℤ} (hv : 0 ≤ v) (hlt : v < 2 ^ 32) : idU32 v = v.toNat := by
  rw [idU32, Int.emod_eq_of_lt hv hlt]

namespace Call

variable {c : Call} {bs : List Bucket} {rid : ℤ} {i t left d : ℕ} {s : Row} {r : Draws}
variable {write : ℕ → ℕ → Row → Row}

/-! ## The loop over the picks -/

/-- The last bucket. -/
def lastBucket (bs : List Bucket) : Bucket := bs.getD (bs.length - 1) noBucket

/-- The last bucket has enough edges for the picks that are left. -/
structure Supply (c : Call) (left : ℕ) (bs : List Bucket) : Prop where
  usable : 0 < left → (lastBucket bs).Usable
  enough : c.replace = false → left ≤ (lastBucket bs).rem

/-- What the loop needs of a path. -/
structure IsWrite (c : Call) (write : ℕ → ℕ → Row → Row) : Prop where
  buckets : ∀ t d s, (write t d s).buckets = c.shrink t s.buckets
  out : ∀ t d s, (write t d s).out.length = s.out.length + 1
  calls : ∀ t d s, (write t d s).calls = s.calls

lemma isWrite_local (c : Call) (r : Draws) (rid : ℤ) : IsWrite c (c.writeLocal r rid) where
  buckets _ _ _ := rfl
  out _ _ _ := List.length_append
  calls _ _ _ := rfl

lemma isWrite_gm (c : Call) (r : Draws) (rid : ℤ) : IsWrite c (c.writeGm r rid) where
  buckets _ _ _ := rfl
  out _ _ _ := List.length_append
  calls _ _ _ := rfl

lemma fits_less_rem {b : Bucket} (hfits : b.Fits) (husable : b.Usable) : b.less.rem = b.rem - 1 := by
  apply Bucket.less_rem husable.2
  exact (hfits.rem_lt husable.1).trans (by norm_num)

lemma less_fits {b : Bucket} (hfits : b.Fits) (husable : b.Usable) : b.less.Fits := by
  refine ⟨hfits.bias_nonneg.trans_eq Bucket.less_bias.symm, fun _ => (fits_less_rem hfits husable).trans_lt ?_⟩
  exact (Nat.sub_le _ _).trans_lt (hfits.rem_lt husable.1)

lemma shrink_length (t : ℕ) (bs : List Bucket) : (c.shrink t bs).length = bs.length := by
  rw [shrink]
  split_ifs
  · rfl
  · exact List.length_modify Bucket.less bs t

lemma shrink_getD (hreplace : c.replace = false) (k : ℕ) (ht : t < bs.length) :
    (c.shrink t bs).getD k noBucket =
      if t = k then (bs.getD k noBucket).less else bs.getD k noBucket := by
  rw [shrink, hreplace, if_neg (by decide), List.getD_eq_getElem?_getD, List.getElem?_modify,
    List.getD_eq_getElem?_getD]
  by_cases htk : t = k
  · subst htk
    rw [if_pos rfl, List.getElem?_eq_getElem ht]
    show (if t = t then bs[t].less else bs[t]) = bs[t].less
    rw [if_pos rfl]
  · rw [if_neg htk]
    cases hget : bs[k]? with
    | none => rfl
    | some b =>
        show (if t = k then b.less else b) = b
        rw [if_neg htk]

/-- Drawing an edge from a usable bucket keeps what is known of the buckets. -/
lemma shrink_fit (hfit : AllFit bs) (ht : t < bs.length) (husable : (bs.getD t noBucket).Usable) :
    AllFit (c.shrink t bs) := by
  by_cases hreplace : c.replace = true
  · rw [shrink, if_pos hreplace]
    exact hfit
  · rw [Bool.not_eq_true] at hreplace
    intro b hb
    obtain ⟨k, hk, rfl⟩ := List.getElem_of_mem hb
    rw [shrink_length] at hk
    rw [← List.getD_eq_getElem _ noBucket, shrink_getD hreplace k ht]
    split_ifs with htk
    · subst htk
      exact less_fits (hfit _ (getD_mem ht)) husable
    · exact hfit _ (getD_mem hk)

lemma Supply.shrink (hfit : AllFit bs) (hsupply : Supply c (left + 1) bs) (ht : t < bs.length) :
    Supply c left (c.shrink t bs) := by
  have hlast := hsupply.usable (Nat.succ_pos left)
  by_cases hreplace : c.replace = true
  · rw [Call.shrink, if_pos hreplace]
    exact ⟨fun _ => hlast, fun hno => absurd (hreplace.symm.trans hno) (by decide)⟩
  · rw [Bool.not_eq_true] at hreplace
    have henough := hsupply.enough hreplace
    have hget : lastBucket (c.shrink t bs) =
        if t = bs.length - 1 then (lastBucket bs).less else lastBucket bs := by
      rw [lastBucket, shrink_length]
      exact shrink_getD hreplace _ ht
    by_cases htail : t = bs.length - 1
    · rw [if_pos htail] at hget
      have hlen : bs.length - 1 < bs.length := by omega
      have hrem := fits_less_rem (hfit _ (getD_mem hlen)) hlast
      rw [← lastBucket] at hrem
      refine ⟨fun hleft => ?_, fun _ => ?_⟩
      · rw [hget]
        have hmore : 0 < (lastBucket bs).rem - 1 := by omega
        exact ⟨hlast.1.trans_eq Bucket.less_bias.symm, hmore.trans_eq hrem.symm⟩
      · rw [hget]
        have hmore : left ≤ (lastBucket bs).rem - 1 := by omega
        exact hmore.trans_eq hrem.symm
    · rw [if_neg htail] at hget
      rw [← hget] at hlast henough
      exact ⟨fun _ => hlast, fun _ => Nat.le_of_succ_le henough⟩

lemma mem_calls (hwrite : IsWrite c write) {call : List Bucket × Option ℕ} (hcall : call ∈ s.calls) :
    call ∈ (drawPicks write r left d s).calls := by
  induction left generalizing d s with
  | zero => exact hcall
  | succ left ih =>
      have hmore : call ∈ s.calls ++ [(s.buckets, drawBucket s.buckets (r.unit d))] :=
        List.mem_append_left _ hcall
      rw [drawPicks]
      cases hdraw : drawBucket s.buckets (r.unit d) with
      | none =>
          rw [hdraw] at hmore
          exact hmore
      | some t =>
          apply ih
          rw [hwrite.calls]
          rw [hdraw] at hmore
          exact hmore

lemma drawPicks_none (hdraw : drawBucket s.buckets (r.unit d) = none) :
    drawPicks write r (left + 1) d s = { s with calls := s.calls ++ [(s.buckets, none)] } := by
  rw [drawPicks, hdraw]

lemma drawPicks_some (hdraw : drawBucket s.buckets (r.unit d) = some t) :
    drawPicks write r (left + 1) d s = drawPicks write r left (d + 1)
      (write t d { s with calls := s.calls ++ [(s.buckets, some t)] }) := by
  rw [drawPicks, hdraw]

lemma drawPicks_length_le (hwrite : IsWrite c write) :
    (drawPicks write r left d s).out.length ≤ s.out.length + left := by
  induction left generalizing d s with
  | zero => exact le_refl _
  | succ left ih =>
      cases hdraw : drawBucket s.buckets (r.unit d) with
      | none =>
          rw [drawPicks_none hdraw]
          exact Nat.le_add_right _ _
      | some t =>
          rw [drawPicks_some hdraw]
          apply (ih (d := d + 1)).trans
          rw [hwrite.out]
          show s.out.length + 1 + left ≤ s.out.length + (left + 1)
          omega

/-- **With enough edges in the last bucket** the loop makes all picks, and all draws are right. -/
theorem drawPicks_supply (hwrite : IsWrite c write) (hfit : AllFit s.buckets)
    (hsupply : Supply c left s.buckets) (hright : ∀ call ∈ s.calls, Right call) :
    (drawPicks write r left d s).out.length = s.out.length + left ∧
      ∀ call ∈ (drawPicks write r left d s).calls, Right call := by
  induction left generalizing d s with
  | zero => exact ⟨rfl, hright⟩
  | succ left ih =>
      obtain ⟨t, hdraw, ht, husable⟩ :=
        drawBucket_usable hfit (r.unit_nonneg d) (hsupply.usable (Nat.succ_pos left))
      rw [drawPicks_some hdraw]
      have hnext := ih (d := d + 1)
        (s := write t d { s with calls := s.calls ++ [(s.buckets, some t)] })
      rw [hwrite.buckets, hwrite.calls, hwrite.out] at hnext
      obtain ⟨hout, hcalls⟩ := hnext (shrink_fit hfit ht husable) (hsupply.shrink hfit ht) (by
        intro call hcall
        rcases List.mem_append.1 hcall with hcall | hcall
        · exact hright call hcall
        · rw [List.mem_singleton.1 hcall]
          exact fun _ => ⟨t, rfl, husable⟩)
      refine ⟨?_, hcalls⟩
      rw [hout]
      show s.out.length + 1 + left = s.out.length + (left + 1)
      omega

/-- **When all draws are one** only the last bucket is drawn from. -/
theorem supply_of_ones (hwrite : IsWrite c write) (hfit : AllFit s.buckets)
    (hout : (drawPicks write ones left d s).out.length = s.out.length + left)
    (hright : ∀ call ∈ (drawPicks write ones left d s).calls, Right call) :
    Supply c left s.buckets := by
  induction left generalizing d s with
  | zero => exact ⟨fun h => absurd h (lt_irrefl 0), fun _ => Nat.zero_le _⟩
  | succ left ih =>
      have hone : drawBucket s.buckets (ones.unit d) =
          if ∃ b ∈ s.buckets, b.Usable then some (s.buckets.length - 1) else none :=
        drawBucket_one hfit
      by_cases hsome : ∃ b ∈ s.buckets, b.Usable
      · rw [if_pos hsome] at hone
        rw [drawPicks_some hone] at hout hright
        have hcall : (s.buckets, some (s.buckets.length - 1)) ∈ (drawPicks write ones left (d + 1)
            (write (s.buckets.length - 1) d { s with
              calls := s.calls ++ [(s.buckets, some (s.buckets.length - 1))] })).calls := by
          apply mem_calls hwrite
          rw [hwrite.calls]
          exact List.mem_append_right _ (List.mem_singleton_self _)
        obtain ⟨t, ht, hlast⟩ := hright _ hcall hsome
        rw [Option.some_inj] at ht
        rw [← ht] at hlast
        have hlen : s.buckets.length - 1 < s.buckets.length := by
          obtain ⟨b, hb, -⟩ := hsome
          exact Nat.sub_lt (List.length_pos_of_mem hb) Nat.one_pos
        have hrest := ih (d := d + 1)
          (s := write (s.buckets.length - 1) d { s with
            calls := s.calls ++ [(s.buckets, some (s.buckets.length - 1))] })
        rw [hwrite.buckets, hwrite.out] at hrest
        have hsupply := hrest (shrink_fit hfit hlen hlast) (by
          rw [hout]
          show s.out.length + (left + 1) = s.out.length + 1 + left
          omega) hright
        refine ⟨fun _ => hlast, fun hreplace => ?_⟩
        have henough := hsupply.enough hreplace
        rw [lastBucket, shrink_length, shrink_getD hreplace _ hlen, if_pos rfl,
          fits_less_rem (hfit _ (getD_mem hlen)) hlast] at henough
        have hpos : 0 < (s.buckets.getD (s.buckets.length - 1) noBucket).rem := hlast.2
        rw [lastBucket]
        omega
      · rw [if_neg hsome] at hone
        rw [drawPicks_none hone] at hout
        exact absurd hout (by
          show s.out.length ≠ s.out.length + (left + 1)
          omega)

end Call

end DglAscend.Ascend.Biased
