import DglAscend.Ascend.BiasedAgreement

/-!
# When the kernels of biased sampling agree

The conditions under which all seeds of a call get what has been counted for them, as conditions on the
tag offsets, the biases and the number of samples (`agrees_iff`).
-/

namespace DglAscend.Ascend.Biased.Call

variable (c : Call)

/-- Entry `t` of the seed's own row of tag offsets. -/
def ownTag (rid : ℤ) (t : ℕ) : ℤ := c.tagOffset.getD (rid.toNat * (c.numTags + 1) + t) 0

/-- The edges of a bucket by the offsets as they are. -/
def rawSize (rid : ℤ) (t : ℕ) : ℕ := idU32 (c.ownTag rid (t + 1)) - idU32 (c.ownTag rid t)

/-- The edges of a bucket by the offsets clamped to the row. -/
def size (rid : ℤ) (t : ℕ) : ℕ :=
  clampTag (c.ownTag rid (t + 1)) (c.deg rid) - clampTag (c.ownTag rid t) (c.deg rid)

/-- A sum over the buckets that have a bias. -/
def biased (f : ℕ → ℕ) : ℕ := ((List.range c.numTags).map fun t => if 0 < c.bias t then f t else 0).sum

/-- What a seed asks for. -/
def asked (rid : ℤ) : ℕ :=
  let population := u32 (c.biased (c.rawSize rid))
  if c.selectAll then population
  else if c.replace then (if population = 0 then 0 else c.fanout)
  else min population c.fanout

/-- What all seeds ask for, in `uint32_t`. -/
def askedTotal : ℕ := u32 (c.seeds.map fun rid => if c.Valid rid then c.asked rid else 0).sum

/-- No draws are made: all edges are taken. -/
def TakesAll (rid : ℤ) : Prop :=
  c.selectAll ∨ c.replace = false ∧ u32 ((List.range c.numTags).map (c.size rid)).sum ≤ c.asked rid

instance (rid : ℤ) : Decidable (c.TakesAll rid) := inferInstanceAs (Decidable (_ ∨ _))

/-- The buckets that have a bias have fewer than `2 ^ 31` edges. -/
def CountsFit (rid : ℤ) : Prop := ∀ t < c.numTags, 0 < c.bias t → c.size rid t < 2 ^ 31

/-- The last bucket has enough edges. -/
def LastHolds (rid : ℤ) : Prop :=
  0 < c.bias (c.numTags - 1) ∧ if c.replace then 0 < c.size rid (c.numTags - 1)
    else c.asked rid ≤ c.size rid (c.numTags - 1)

/-- What holds of a seed that gets what it asks for. -/
def SeedExact (rid : ℤ) : Prop :=
  c.asked rid = 0 ∨ c.askedTotal ≠ 0 ∧
    if c.TakesAll rid then
      if c.ThroughUb rid (c.asked rid) then c.asked rid ≤ c.biased (c.size rid)
      else c.asked rid = c.biased (c.size rid)
    else c.CountsFit rid ∧ c.LastHolds rid

/-- The condition: every seed has its own row of tag offsets, and gets what it asks for. -/
def Exact : Prop :=
  ∀ rid ∈ c.seeds, c.Valid rid →
    (rid.toNat + 1) * (c.numTags + 1) ≤ 2 ^ 32 ∧ (c.askedTotal ≤ c.idMax → c.SeedExact rid)

/-- The two kernels agree about seed `i`. -/
structure SeedAgrees (r : Draws) (i : ℕ) : Prop where
  row : c.Valid (c.seeds.getD i (-1)) → ∀ t ≤ c.numTags,
    u32 (c.rowBase (c.seeds.getD i (-1)) + t) = (c.seeds.getD i (-1)).toNat * (c.numTags + 1) + t ∧
    c.rowBase (c.seeds.getD i (-1)) + t = (c.seeds.getD i (-1)).toNat * (c.numTags + 1) + t
  count : ¬c.Refused → (c.sampled r i).out.length = c.numPicks (c.seeds.getD i (-1))
  draws : ¬c.Refused → ∀ call ∈ (c.sampled r i).calls, Right call

/-- The two kernels agree about all seeds, whatever is drawn. -/
def Agrees : Prop := ∀ r, ∀ i < c.seeds.length, c.SeedAgrees r i

variable {c} {rid : ℤ} {i t : ℕ} {r : Draws}

/-! ## Rows of tag offsets -/

lemma Valid.idU32_eq (h : c.Valid rid) : idU32 rid = rid.toNat := by
  have hlt := u32_lt c.csr.numRows
  have hrows := h.2
  rw [numTotalRows] at hrows
  apply Biased.idU32_eq h.1
  omega

/-- The seed has its own row. -/
def OwnRow (c : Call) (rid : ℤ) : Prop := (rid.toNat + 1) * (c.numTags + 1) ≤ 2 ^ 32

section

variable (h : c.Valid rid)
include h

lemma rowBase_eq (hrow : c.OwnRow rid) : c.rowBase rid = rid.toNat * (c.numTags + 1) := by
  rw [OwnRow, Nat.succ_mul] at hrow
  rw [rowBase, h.idU32_eq, u32_eq (by omega)]

lemma u32_rowBase (hrow : c.OwnRow rid) (ht : t ≤ c.numTags) :
    u32 (c.rowBase rid + t) = rid.toNat * (c.numTags + 1) + t := by
  rw [rowBase_eq h hrow]
  rw [OwnRow, Nat.succ_mul] at hrow
  exact u32_eq (by omega)

/-- Both kernels read the seed's own row if and only if it ends before `2 ^ 32`. -/
lemma ownRow_iff : c.OwnRow rid ↔ ∀ t ≤ c.numTags,
    u32 (c.rowBase rid + t) = rid.toNat * (c.numTags + 1) + t ∧
    c.rowBase rid + t = rid.toNat * (c.numTags + 1) + t := by
  constructor
  · intro hrow t ht
    refine ⟨u32_rowBase h hrow ht, ?_⟩
    rw [rowBase_eq h hrow]
  · intro hall
    have hlast := (hall c.numTags (le_refl _)).1
    have hlt := u32_lt (c.rowBase rid + c.numTags)
    rw [OwnRow, Nat.succ_mul]
    omega

lemma rawCount_eq (hrow : c.OwnRow rid) (ht : t < c.numTags) :
    c.rawCount rid t = if 0 < c.bias t then c.rawSize rid t else 0 := by
  have hhi : u32 (c.rowBase rid + t + 1) = rid.toNat * (c.numTags + 1) + (t + 1) :=
    u32_rowBase h hrow (Nat.succ_le_of_lt ht)
  rw [rawCount, u32_rowBase h hrow ht.le, hhi]
  show (if 0 < c.bias t then (if idU32 (c.ownTag rid (t + 1)) < idU32 (c.ownTag rid t) then 0
    else idU32 (c.ownTag rid (t + 1)) - idU32 (c.ownTag rid t)) else 0) = _
  rw [rawSize]
  by_cases hlt : idU32 (c.ownTag rid (t + 1)) < idU32 (c.ownTag rid t)
  · rw [if_pos hlt, Nat.sub_eq_zero_of_le hlt.le]
  · rw [if_neg hlt]

/-- The first kernel counts what is asked for. -/
lemma numPicks_eq (hrow : c.OwnRow rid) : c.numPicks rid = c.asked rid := by
  have hsum : ((List.range c.numTags).map (c.rawCount rid)).sum = c.biased (c.rawSize rid) := by
    rw [biased, List.map_congr_left fun t ht => rawCount_eq h hrow (List.mem_range.1 ht)]
  rw [numPicks, if_pos h, hsum, asked]
  show (if c.selectAll then _ else if c.replace then _ else
    if u32 (c.biased (c.rawSize rid)) < c.fanout then u32 (c.biased (c.rawSize rid)) else c.fanout) = _
  by_cases hlt : u32 (c.biased (c.rawSize rid)) < c.fanout
  · rw [if_pos hlt, min_eq_left hlt.le]
  · rw [if_neg hlt, min_eq_right (not_lt.1 hlt)]

lemma buckets_eq (hrow : c.OwnRow rid) : c.buckets rid =
    (List.range c.numTags).map fun t =>
      ⟨clampTag (c.ownTag rid t) (c.deg rid), c.size rid t, c.bias t⟩ := by
  rw [buckets]
  apply List.map_congr_left
  intro t ht
  rw [rowBase_eq h hrow]
  show Bucket.mk (clampTag (c.ownTag rid t) (c.deg rid))
    (if clampTag (c.ownTag rid (t + 1)) (c.deg rid) < clampTag (c.ownTag rid t) (c.deg rid) then 0
      else clampTag (c.ownTag rid (t + 1)) (c.deg rid) - clampTag (c.ownTag rid t) (c.deg rid))
    (c.bias t) = _
  rw [size]
  by_cases hlt : clampTag (c.ownTag rid (t + 1)) (c.deg rid) < clampTag (c.ownTag rid t) (c.deg rid)
  · rw [if_pos hlt, Nat.sub_eq_zero_of_le hlt.le]
  · rw [if_neg hlt]

end

/-! ## Seeds -/

lemma idU32_lt (v : ℤ) : idU32 v < 2 ^ 32 := by
  rw [idU32]
  have hlt := Int.emod_lt_of_pos v (show (0 : ℤ) < 2 ^ 32 by norm_num)
  omega

lemma fanout_lt (c : Call) : c.fanout < 2 ^ 32 := by
  rw [fanout]
  split_ifs
  · norm_num
  · exact idU32_lt _

lemma numPicks_lt (c : Call) (rid : ℤ) : c.numPicks rid < 2 ^ 32 := by
  have hfanout := c.fanout_lt
  have hnnz := u32_lt ((List.range c.numTags).map (c.rawCount rid)).sum
  rw [numPicks]
  generalize u32 ((List.range c.numTags).map (c.rawCount rid)).sum = nnz at *
  show (if c.Valid rid then if c.selectAll then nnz else if c.replace then
    (if nnz = 0 then 0 else c.fanout) else if nnz < c.fanout then nnz else c.fanout else 0) < 2 ^ 32
  split_ifs <;> omega

/-- `row_picks` is the count of the seed, although the sums wrap around. -/
lemma rowPicks_eq (hi : i < c.seeds.length) :
    u32 (c.outStarts (i + 1) + (2 ^ 32 - c.outStarts i)) = c.numPicks (c.seeds.getD i (-1)) := by
  have hlt := c.numPicks_lt (c.seeds.getD i (-1))
  have hsum : ((c.seeds.take (i + 1)).map c.numPicks).sum =
      ((c.seeds.take i).map c.numPicks).sum + c.numPicks (c.seeds.getD i (-1)) := by
    rw [List.take_succ_eq_append_getElem hi, List.map_append, List.sum_append, List.map_singleton,
      List.sum_singleton, List.getD_eq_getElem _ _ hi]
  rw [outStarts, outStarts, hsum]
  generalize ((c.seeds.take i).map c.numPicks).sum = start at *
  generalize c.numPicks (c.seeds.getD i (-1)) = picks at *
  rw [u32, u32, u32]
  omega

lemma bias_nonneg (c : Call) (t : ℕ) : 0 ≤ c.bias t := by
  rw [bias]
  split_ifs with h
  · exact h
  · exact le_refl 0

lemma allFit (h : c.Valid rid) (hrow : c.OwnRow rid) (hfit : c.CountsFit rid) :
    AllFit (c.buckets rid) := by
  rw [buckets_eq h hrow]
  intro b hb
  obtain ⟨t, ht, rfl⟩ := List.mem_map.1 hb
  exact ⟨c.bias_nonneg t, fun hbias => hfit t (List.mem_range.1 ht) hbias⟩

lemma length_allPicks (pick : ℕ → Pick) (bs : List Bucket) : (allPicks pick bs).length =
    (bs.map fun b => if 0 < b.bias then b.rem else 0).sum := by
  induction bs with
  | nil => rfl
  | cons b bs ih =>
      rw [allPicks] at ih
      rw [allPicks, List.map_cons, List.sum_cons, ← ih, List.filter_cons]
      by_cases hbias : 0 < b.bias
      · rw [if_pos (decide_eq_true hbias), if_pos hbias, List.flatMap_cons, List.length_append,
          List.length_map, List.length_range]
      · rw [if_neg (by rw [decide_eq_true_eq]; exact hbias), if_neg hbias, Nat.zero_add]

lemma length_allPicks_buckets (h : c.Valid rid) (hrow : c.OwnRow rid) (pick : ℕ → Pick) :
    (allPicks pick (c.buckets rid)).length = c.biased (c.size rid) := by
  rw [length_allPicks, buckets_eq h hrow, List.map_map, biased]
  rfl

lemma takeAll_iff (h : c.Valid rid) (hrow : c.OwnRow rid) :
    c.takeAll rid (c.asked rid) = true ↔ c.TakesAll rid := by
  have hmap : (c.buckets rid).map Bucket.rem = (List.range c.numTags).map (c.size rid) := by
    rw [buckets_eq h hrow, List.map_map]
    rfl
  rw [takeAll, hmap, TakesAll, Bool.or_eq_true, Bool.and_eq_true, Bool.not_eq_true', decide_eq_true_eq]

lemma supply_iff (h : c.Valid rid) (hrow : c.OwnRow rid) (hasked : 0 < c.asked rid) :
    Supply c (c.asked rid) (c.buckets rid) ↔ c.LastHolds rid := by
  have hlen : (c.buckets rid).length = c.numTags := by rw [buckets, List.length_map, List.length_range]
  rw [LastHolds]
  by_cases htags : c.numTags = 0
  · have hbias : ¬0 < c.bias (c.numTags - 1) := by
      rw [bias, List.getD_eq_default _ _ (by rw [← numTags]; omega), if_pos (le_refl 0)]
      exact lt_irrefl 0
    have hlast : lastBucket (c.buckets rid) = noBucket := by
      rw [lastBucket, List.getD_eq_default _ _ (by omega)]
    constructor
    · intro hsupply
      have husable := hsupply.usable hasked
      rw [hlast] at husable
      exact absurd husable.2 (lt_irrefl 0)
    · exact fun hholds => absurd hholds.1 hbias
  · have hlast : lastBucket (c.buckets rid) = ⟨clampTag (c.ownTag rid (c.numTags - 1)) (c.deg rid),
        c.size rid (c.numTags - 1), c.bias (c.numTags - 1)⟩ := by
      rw [lastBucket, hlen, buckets_eq h hrow, List.getD_eq_getElem?_getD, List.getElem?_map,
        List.getElem?_range (by omega)]
      rfl
    constructor
    · intro hsupply
      have husable := hsupply.usable hasked
      have henough := hsupply.enough
      rw [hlast] at husable henough
      refine ⟨husable.1, ?_⟩
      by_cases hreplace : c.replace = true
      · rw [if_pos hreplace]
        exact husable.2
      · rw [if_neg hreplace]
        exact henough (Bool.eq_false_of_not_eq_true hreplace)
    · rintro ⟨hbias, hholds⟩
      by_cases hreplace : c.replace = true
      · rw [if_pos hreplace] at hholds
        refine ⟨fun _ => ?_, fun hno => absurd (hreplace.symm.trans hno) (by decide)⟩
        rw [hlast]
        exact ⟨hbias, hholds⟩
      · rw [if_neg hreplace] at hholds
        refine ⟨fun _ => ?_, fun _ => ?_⟩
        · rw [hlast]
          exact ⟨hbias, hasked.trans_le hholds⟩
        · rw [hlast]
          exact hholds

/-! ## Rows -/

/-- What a row has to give, without regard to what is drawn. -/
def RowRight (c : Call) (rid : ℤ) : Prop := ∀ r,
  (c.sampleRow r rid (c.asked rid)).out.length = c.asked rid ∧
    ∀ call ∈ (c.sampleRow r rid (c.asked rid)).calls, Right call

lemma rowRight_all (h : c.Valid rid) (hrow : c.OwnRow rid) (hall : c.TakesAll rid) :
    c.RowRight rid ↔ if c.ThroughUb rid (c.asked rid) then c.asked rid ≤ c.biased (c.size rid)
      else c.asked rid = c.biased (c.size rid) := by
  have htake := (takeAll_iff h hrow).2 hall
  by_cases hub : c.ThroughUb rid (c.asked rid)
  · have hrun (r : Draws) : c.sampleRow r rid (c.asked rid) =
        ⟨(allPicks (c.pickLocal r rid (c.window c.csr.indices r.staleIdx rid)) (c.buckets rid)).take
          (c.asked rid), c.asked rid, []⟩ := by
      rw [sampleRow, if_pos hub, sampleRowThroughUb, if_pos htake]
    rw [if_pos hub, ← min_eq_left_iff, RowRight]
    constructor
    · intro hright
      have hlen := (hright ones).1
      rw [hrun, List.length_take, length_allPicks_buckets h hrow] at hlen
      exact hlen
    · intro hmin r
      rw [hrun, List.length_take, length_allPicks_buckets h hrow]
      exact ⟨hmin, fun call hcall => by cases hcall⟩
  · have hrun (r : Draws) : c.sampleRow r rid (c.asked rid) =
        ⟨allPicks (fun k => c.pickGm rid (c.off rid + k)) (c.buckets rid), (allPicks (fun k =>
          c.pickGm rid (c.off rid + k)) (c.buckets rid)).length, []⟩ := by
      rw [sampleRow, if_neg hub, sampleRowDirectGm, if_pos htake]
    rw [if_neg hub, RowRight]
    constructor
    · intro hright
      have hlen := (hright ones).1
      rw [hrun, length_allPicks_buckets h hrow] at hlen
      exact hlen.symm
    · intro heq r
      rw [hrun, length_allPicks_buckets h hrow]
      exact ⟨heq.symm, fun call hcall => by cases hcall⟩

/-- A row from which edges are drawn, on either path. -/
lemma sampleRow_draws (h : c.Valid rid) (hrow : c.OwnRow rid) (hall : ¬c.TakesAll rid) (r : Draws) :
    ∃ write s, IsWrite c write ∧ s.buckets = c.buckets rid ∧ s.out = [] ∧ s.calls = [] ∧
      (c.sampleRow r rid (c.asked rid)).calls = (drawPicks write r (c.asked rid) 0 s).calls ∧
      ((c.sampleRow r rid (c.asked rid)).out.length = c.asked rid ↔
        (drawPicks write r (c.asked rid) 0 s).out.length = c.asked rid) := by
  have htake : ¬c.takeAll rid (c.asked rid) = true := fun htake => hall ((takeAll_iff h hrow).1 htake)
  by_cases hub : c.ThroughUb rid (c.asked rid)
  · have hwrite := isWrite_local c r rid
    refine ⟨c.writeLocal r rid, ⟨c.buckets rid, c.window c.csr.indices r.staleIdx rid, [], []⟩, hwrite,
      rfl, rfl, rfl, ?_, ?_⟩
    · rw [sampleRow, if_pos hub, sampleRowThroughUb, if_neg htake]
    · rw [sampleRow, if_pos hub, sampleRowThroughUb, if_neg htake]
      show (List.take _ _).length = _ ↔ _
      have hle : (drawPicks (c.writeLocal r rid) r (c.asked rid) 0
          ⟨c.buckets rid, c.window c.csr.indices r.staleIdx rid, [], []⟩).out.length ≤ 0 + c.asked rid :=
        drawPicks_length_le hwrite
      rw [Nat.zero_add] at hle
      rw [List.length_take, min_eq_right hle]
  · refine ⟨c.writeGm r rid, ⟨c.buckets rid, r.staleIdx, [], []⟩, isWrite_gm c r rid, rfl, rfl, rfl,
      ?_, ?_⟩
    · rw [sampleRow, if_neg hub, sampleRowDirectGm, if_neg htake]
    · rw [sampleRow, if_neg hub, sampleRowDirectGm, if_neg htake]

lemma rowRight_of_lastHolds (h : c.Valid rid) (hrow : c.OwnRow rid) (hasked : 0 < c.asked rid)
    (hall : ¬c.TakesAll rid) (hfit : c.CountsFit rid) : c.RowRight rid ↔ c.LastHolds rid := by
  rw [← supply_iff h hrow hasked]
  constructor
  · intro hright
    obtain ⟨write, s, hwrite, hbuckets, hout, hcalls, heq, hiff⟩ := sampleRow_draws h hrow hall ones
    obtain ⟨hlen, hdraws⟩ := hright ones
    rw [heq] at hdraws
    have hsupply := supply_of_ones (d := 0) (s := s) hwrite (by
      rw [hbuckets]
      exact allFit h hrow hfit) (by rw [hiff.1 hlen, hout, List.length_nil, Nat.zero_add]) hdraws
    rw [hbuckets] at hsupply
    exact hsupply
  · intro hsupply r
    obtain ⟨write, s, hwrite, hbuckets, hout, hcalls, heq, hiff⟩ := sampleRow_draws h hrow hall r
    have hrun := drawPicks_supply (d := 0) (s := s) (r := r) hwrite (by
      rw [hbuckets]
      exact allFit h hrow hfit) (by
      rw [hbuckets]
      exact hsupply) (by
      rw [hcalls]
      exact fun call hcall => by cases hcall)
    rw [hout, List.length_nil, Nat.zero_add] at hrun
    rw [heq]
    exact ⟨hiff.2 hrun.1, hrun.2⟩

lemma rowRight_of_exact (h : c.Valid rid) (hrow : c.OwnRow rid) (hasked : 0 < c.asked rid)
    (hexact : c.SeedExact rid) : c.RowRight rid := by
  rcases hexact with hzero | ⟨-, hexact⟩
  · exact absurd hzero hasked.ne'
  · by_cases hall : c.TakesAll rid
    · rw [if_pos hall] at hexact
      exact (rowRight_all h hrow hall).2 hexact
    · rw [if_neg hall] at hexact
      exact (rowRight_of_lastHolds h hrow hasked hall hexact.1).2 hexact.2

/-! ## Calls -/

/-- Without invalid rows of tag offsets the first kernel counts what is asked for. -/
lemma outStarts_eq (hrows : ∀ rid ∈ c.seeds, c.Valid rid → c.OwnRow rid) :
    c.outStarts c.seeds.length = c.askedTotal := by
  rw [outStarts, askedTotal, List.take_length]
  congr 2
  apply List.map_congr_left
  intro rid hmem
  by_cases hvalid : c.Valid rid
  · rw [if_pos hvalid, numPicks_eq hvalid (hrows rid hmem hvalid)]
  · rw [if_neg hvalid, numPicks, if_neg hvalid]

lemma seed_mem (hi : i < c.seeds.length) : c.seeds.getD i (-1) ∈ c.seeds := by
  rw [List.getD_eq_getElem _ _ hi]
  exact List.getElem_mem hi

/-- A seed for which nothing is launched, or from which nothing is taken. -/
lemma sampled_nil (hi : i < c.seeds.length) (h : c.outStarts c.seeds.length = 0 ∨
    ¬c.Valid (c.seeds.getD i (-1)) ∨ c.numPicks (c.seeds.getD i (-1)) = 0) :
    c.sampled r i = ⟨[], 0, []⟩ := by
  rw [sampled, rowPicks_eq hi, if_pos h]

lemma sampled_row (hi : i < c.seeds.length) (hrun : c.outStarts c.seeds.length ≠ 0)
    (hvalid : c.Valid (c.seeds.getD i (-1))) (hpos : c.numPicks (c.seeds.getD i (-1)) ≠ 0) :
    c.sampled r i = c.sampleRow r (c.seeds.getD i (-1)) (c.numPicks (c.seeds.getD i (-1))) := by
  rw [sampled, rowPicks_eq hi, if_neg]
  rintro (hzero | hzero | hzero)
  · exact hrun hzero
  · exact hzero hvalid
  · exact hpos hzero

/-- **When the kernels agree.**  Every seed has its own row of tag offsets, which ends before `2 ^ 32`, and
gets what it asks for: if all edges are taken then there are as many by the clamped offsets as by the
offsets as they are, and if edges are drawn then the last bucket has enough of them.  This is enough in
every case, and necessary where no bucket has `2 ^ 31` edges. -/
theorem agrees_iff (c : Call) :
    (c.Exact → c.Agrees) ∧
      ((∀ rid ∈ c.seeds, c.Valid rid → c.CountsFit rid) → (c.Agrees ↔ c.Exact)) := by
  have henough : c.Exact → c.Agrees := by
    intro hexact r i hi
    have hmem := seed_mem hi
    have htotal := outStarts_eq fun rid hmem hvalid => (hexact rid hmem hvalid).1
    by_cases hvalid : c.Valid (c.seeds.getD i (-1))
    · obtain ⟨hrow, hseed⟩ := hexact _ hmem hvalid
      have hpicks := numPicks_eq hvalid hrow
      by_cases hzero : c.asked (c.seeds.getD i (-1)) = 0
      · have hnil : c.sampled r i = ⟨[], 0, []⟩ :=
          sampled_nil hi (Or.inr (Or.inr (hpicks.trans hzero)))
        refine ⟨fun _ => (ownRow_iff hvalid).1 hrow, fun _ => ?_, fun _ call hcall => ?_⟩
        · rw [hnil, hpicks, hzero]
          exact List.length_nil
        · rw [hnil] at hcall
          cases hcall
      · refine ⟨fun _ => (ownRow_iff hvalid).1 hrow, fun hrefused => ?_, fun hrefused => ?_⟩
        all_goals
          rw [Refused, htotal, not_lt] at hrefused
          have hright := rowRight_of_exact hvalid hrow (Nat.pos_of_ne_zero hzero) (hseed hrefused) r
          have hrun : c.outStarts c.seeds.length ≠ 0 := by
            rw [htotal]
            exact ((hseed hrefused).resolve_left hzero).1
          rw [sampled_row hi hrun hvalid (by rw [hpicks]; exact hzero), hpicks]
        · exact hright.1
        · exact hright.2
    · have hnil : c.sampled r i = ⟨[], 0, []⟩ := sampled_nil hi (Or.inr (Or.inl hvalid))
      refine ⟨fun h => absurd h hvalid, fun _ => ?_, fun _ call hcall => ?_⟩
      · rw [hnil, numPicks, if_neg hvalid]
        exact List.length_nil
      · rw [hnil] at hcall
        cases hcall
  refine ⟨henough, fun hfit => ⟨fun hagrees => ?_, henough⟩⟩
  have hrows : ∀ rid ∈ c.seeds, c.Valid rid → c.OwnRow rid := by
    intro rid hmem hvalid
    obtain ⟨i, hi, rfl⟩ := List.getElem_of_mem hmem
    have hrow := (hagrees ones i hi).row
    rw [List.getD_eq_getElem _ _ hi] at hrow
    exact (ownRow_iff hvalid).2 (hrow hvalid)
  intro rid hmem hvalid
  have hrow := hrows rid hmem hvalid
  refine ⟨hrow, fun htotal => ?_⟩
  by_cases hzero : c.asked rid = 0
  · exact Or.inl hzero
  · rw [← outStarts_eq hrows] at htotal
    obtain ⟨i, hi, rfl⟩ := List.getElem_of_mem hmem
    have hpicks := numPicks_eq hvalid hrow
    have hget : c.seeds.getD i (-1) = c.seeds[i] := List.getD_eq_getElem _ _ hi
    have hrun : c.outStarts c.seeds.length ≠ 0 := by
      intro hnone
      have hcount := (hagrees ones i hi).count (not_lt.2 htotal)
      rw [sampled_nil hi (Or.inl hnone), hget, hpicks] at hcount
      exact hzero hcount.symm
    have hright : c.RowRight c.seeds[i] := by
      intro r
      have hseed := hagrees r i hi
      have hcount := hseed.count (not_lt.2 htotal)
      have hdraws := hseed.draws (not_lt.2 htotal)
      rw [sampled_row hi hrun (by rw [hget]; exact hvalid) (by rw [hget, hpicks]; exact hzero), hget,
        hpicks] at hcount hdraws
      exact ⟨hcount, hdraws⟩
    refine Or.inr ⟨by rw [← outStarts_eq hrows]; exact hrun, ?_⟩
    by_cases hall : c.TakesAll c.seeds[i]
    · rw [if_pos hall]
      exact (rowRight_all hvalid hrow hall).1 hright
    · rw [if_neg hall]
      have hcounts := hfit _ hmem hvalid
      exact ⟨hcounts, (rowRight_of_lastHolds hvalid hrow (Nat.pos_of_ne_zero hzero) hall hcounts).1 hright⟩

/-- A row of two edges. -/
def twoEdges : Csr := Csr.parallelEdges

/-- A call for that row. -/
def twoEdgesCall (numSamples : ℤ) (tagOffset : List ℤ) (bias : List ℚ) (replace : Bool)
    (hlen : tagOffset.length = 1 * (bias.length + 1)) (htags : bias.length ≤ 1024)
    (hne : numSamples ≠ 0) : Call where
  csr := twoEdges
  data := none
  seeds := [0]
  numSamples := numSamples
  tagOffset := tagOffset
  biasGiven := bias
  replaceGiven := replace
  idMax := 2 ^ 31 - 1
  windowElems := 16
  data_length d hd := by cases hd
  tagOffset_length := hlen
  numTags_le := htags
  numSamples_ne := hne

/-- One of two edges, of two buckets that both have a bias. -/
lemma agrees_twoBuckets :
    (twoEdgesCall 1 [0, 1, 2] [1, 1] false rfl (by decide) (by decide)).Agrees := by
  apply (agrees_iff _).1
  intro rid hrid _
  rw [List.mem_singleton.1 hrid]
  refine ⟨by decide, fun _ => Or.inr ⟨by decide +kernel, ?_⟩⟩
  rw [if_neg (by decide +kernel)]
  refine ⟨?_, by decide +kernel, ?_⟩
  · rw [CountsFit]
    decide +kernel
  · decide +kernel

/-- A draw of one returns the last bucket, which has no bias; and where an offset lies behind the end of
the row more picks are counted than there are edges. -/
lemma not_agrees_tail :
    ¬(twoEdgesCall 1 [0, 1, 2] [1, 0] true rfl (by decide) (by decide)).Agrees ∧
      ¬(twoEdgesCall (-1) [0, 5] [1] false rfl (by decide) (by decide)).Agrees := by
  constructor
  · intro hagrees
    have hdraws := (hagrees ones 0 (by decide)).draws (by rw [Refused]; decide +kernel)
    obtain ⟨t, ht, husable⟩ := hdraws ([⟨0, 1, 1⟩, ⟨1, 1, 0⟩], some 1) (by decide +kernel)
      ⟨⟨0, 1, 1⟩, List.mem_cons_self, by decide +kernel⟩
    rw [Option.some_inj] at ht
    subst ht
    exact absurd husable.1 (lt_irrefl 0)
  · intro hagrees
    have hcount := (hagrees ones 0 (by decide)).count (by rw [Refused]; decide +kernel)
    exact absurd hcount (by decide +kernel)

end DglAscend.Ascend.Biased.Call
