import DglAscend.Partition.NDArrayPartition

/-!
# Global ids and local ids

The loops on the host are right in both modes: they group the ids by their parts, and the two maps
are inverse to each other.  What an Ascend array gets of it is less: ranges have no branch for
Ascend in `MapToLocal` and `MapToGlobal`, and the counts of a permutation are written on the host
into an array on the device.
-/

namespace DglAscend.Partition

variable {bounds : ℕ → ℤ} {numParts arraySize : ℕ} {id : ℤ}

/-! ## Ranges -/

/-- **The search** keeps its target between two bounds. -/
lemma searchRangeFrom_spec {start stop : ℕ} (hlt : start < stop) (hstart : bounds start ≤ id)
    (hstop : id < bounds stop) :
    searchRangeFrom bounds id start stop < stop ∧ bounds (searchRangeFrom bounds id start stop) ≤ id ∧
      id < bounds (searchRangeFrom bounds id start stop + 1) := by
  fun_induction searchRangeFrom bounds id start stop with
  | case1 start stop cur hmore hleft ih =>
      obtain ⟨h1, h2, h3⟩ := ih (by omega) hstart hleft
      exact ⟨by omega, h2, h3⟩
  | case2 start stop cur hmore hright ih =>
      exact ih (by omega) (not_lt.1 hright) hstop
  | case3 start stop cur hdone =>
      have hcur : cur = start := by omega
      have hnext : start + 1 = stop := by omega
      rw [hcur, hnext]
      exact ⟨hlt, hstart, hstop⟩

lemma searchRangeCpu_spec (hfirst : bounds 0 ≤ id) (hlast : id < bounds numParts) :
    searchRangeCpu bounds numParts id < numParts ∧ bounds (searchRangeCpu bounds numParts id) ≤ id ∧
      id < bounds (searchRangeCpu bounds numParts id + 1) := by
  apply searchRangeFrom_spec _ hfirst hlast
  by_contra hzero
  rw [Nat.eq_zero_of_not_pos hzero] at hlast
  exact absurd hfirst (not_le.2 hlast)

/-! ## Remainders -/

/-- `PartSize` for remainders. -/
def remainderSize (arraySize numParts p : ℕ) : ℤ :=
  arraySize / numParts + if p < arraySize % numParts then 1 else 0

/-- **The sizes** add up. -/
lemma sum_remainderSize (hparts : 0 < numParts) :
    ((List.range numParts).map (remainderSize arraySize numParts)).sum = arraySize := by
  have hsteps (n : ℕ) : ((List.range n).map (remainderSize arraySize numParts)).sum =
      (n * (arraySize / numParts) + min n (arraySize % numParts) : ℕ) := by
    induction n with
    | zero => simp
    | succ n ih =>
        rw [List.range_succ, List.map_append, List.sum_append, ih, List.map_singleton,
          List.sum_singleton, remainderSize]
        by_cases hn : n < arraySize % numParts
        · rw [if_pos hn, min_eq_left hn.le, min_eq_left (Nat.succ_le_of_lt hn)]
          push_cast
          ring
        · rw [if_neg hn, min_eq_right (not_lt.1 hn), min_eq_right (by omega)]
          push_cast
          ring
  have hmod := Nat.mod_lt arraySize hparts
  rw [hsteps, min_eq_right hmod.le, Nat.div_add_mod]

lemma sum_rangeSize (bounds : ℕ → ℤ) (numParts : ℕ) :
    ((List.range numParts).map fun p => bounds (p + 1) - bounds p).sum =
      bounds numParts - bounds 0 := by
  induction numParts with
  | zero => simp
  | succ n ih =>
      rw [List.range_succ, List.map_append, List.sum_append, ih, List.map_singleton,
        List.sum_singleton]
      ring

/-! ## Permutations -/

lemma countProcs_eq (procIds : List ℤ) (p : ℤ) : countProcs procIds p = procIds.count p := by
  have hsteps (c : ℤ → ℤ) : procIds.foldl (fun counts q => Function.update counts q (counts q + 1)) c p =
      c p + procIds.count p := by
    induction procIds generalizing c with
    | nil => simp
    | cons q qs ih =>
        rw [List.foldl_cons, ih, List.count_cons]
        by_cases hq : q = p
        · subst hq
          rw [Function.update_self, beq_self_eq_true, if_pos rfl]
          push_cast
          ring
        · rw [Function.update_of_ne (Ne.symm hq), if_neg (by simpa using hq), Nat.add_zero]
  rw [countProcs, hsteps, zero_add]

/-- **The sorted positions** are grouped by their parts, in order. -/
theorem sortedPairs_eq {procIds : List ℤ} (hrange : ∀ p ∈ procIds, 0 ≤ p ∧ p < numParts) :
    (sortedPairs procIds).map Prod.snd =
      bucketOrder (fun i => (procIds.getD i 0).toNat) numParts procIds.length := by
  have hget : ∀ i < procIds.length, procIds.getD i 0 ∈ procIds := by
    intro i hi
    rw [List.getD_eq_getElem?_getD, List.getElem?_eq_getElem hi]
    exact List.getElem_mem hi
  have hpairs : procIds.zip (List.range procIds.length) =
      (List.range procIds.length).map fun i => (procIds.getD i 0, i) := by
    apply List.ext_getElem
    · simp
    · intro i h1 h2
      have hi : i < procIds.length := by simpa using h2
      simp [List.getD_eq_getElem?_getD, List.getElem?_eq_getElem hi]
  have hlt : ∀ i < procIds.length, (procIds.getD i 0).toNat < numParts := by
    intro i hi
    obtain ⟨h1, h2⟩ := hrange _ (hget i hi)
    omega
  have hle : ∀ i < procIds.length, ∀ j < procIds.length,
      procIds.getD i 0 ≤ procIds.getD j 0 ↔ (procIds.getD i 0).toNat ≤ (procIds.getD j 0).toNat := by
    intro i hi j hj
    obtain ⟨h1, -⟩ := hrange _ (hget i hi)
    obtain ⟨h2, -⟩ := hrange _ (hget j hj)
    omega
  rw [sortedPairs, hpairs, mergeSort_eq_bucketOrder hlt hle, List.map_map]
  exact List.map_id _

lemma countProcs_sortedPairs (procIds : List ℤ) (p : ℤ) :
    countProcs ((sortedPairs procIds).map Prod.fst) p = procIds.count p := by
  have hperm : ((sortedPairs procIds).map Prod.fst).Perm procIds := by
    have hfst : (procIds.zip (List.range procIds.length)).map Prod.fst = procIds :=
      List.map_fst_zip (by rw [List.length_range])
    have hsorted := (List.mergeSort_perm (procIds.zip (List.range procIds.length))
      fun a b => decide (a.1 ≤ b.1)).map Prod.fst
    rwa [hfst] at hsorted
  rw [countProcs_eq, hperm.count_eq]

/-! ## Partitions -/

namespace NDArrayPartition

variable {part : NDArrayPartition} {ctx : Context} {ids : IdArray}

/-- The bounds go up from zero to the size of the array. -/
structure ValidBounds (part : NDArrayPartition) (ctx : Context) (bounds : IdArray) : Prop where
  ctx_eq : bounds.ctx = ctx
  length_eq : bounds.elems.length = part.numParts + 1
  first : bounds.at 0 = 0
  last : bounds.at part.numParts = part.arraySize
  mono : ∀ p < part.numParts, bounds.at p ≤ bounds.at (p + 1)

/-- A partition of an array on the device `ctx`. -/
structure Valid (part : NDArrayPartition) (ctx : Context) : Prop where
  numParts_pos : 0 < part.numParts
  bounds : ∀ bounds, part.mode = .range bounds → part.ValidBounds ctx bounds

/-- The part of the id at a position. -/
def partAt (part : NDArrayPartition) (ids : IdArray) (i : ℕ) : ℕ :=
  (part.owner (ids.elems.getD i 0)).toNat

/-- A global id and a local id that lead to each other, on arrays on the device `ctx`. -/
structure RoundTrip (part : NDArrayPartition) (ctx : Context) (id loc : ℤ) : Prop where
  nonneg : 0 ≤ loc
  lt_size : ∃ size, part.partSize (part.owner id).toNat = .ok size ∧ loc < size
  toGlobal : part.mapToGlobal ⟨ctx, [loc]⟩ (part.owner id).toNat = .ok ⟨ctx, [id]⟩

/-- All operations succeed on the ids, and agree with each other. -/
structure Bijective (part : NDArrayPartition) (ids : IdArray) : Prop where
  sizes : ∃ sizes : ℕ → ℤ, (∀ p < part.numParts, part.partSize p = .ok (sizes p)) ∧
    ((List.range part.numParts).map sizes).sum = part.arraySize
  permutation : ∃ perm counts, part.generatePermutation ids = .ok (perm, counts) ∧
    perm.elems = (bucketOrder (part.partAt ids) part.numParts ids.elems.length).map
      (fun (i : ℕ) => (i : ℤ)) ∧
    counts.elems = (List.range part.numParts).map
      fun p => (countIn (part.partAt ids) p 0 ids.elems.length : ℤ)
  roundTrip : ∃ locals, part.mapToLocal ids = .ok locals ∧
    List.Forall₂ (part.RoundTrip ids.ctx) ids.elems locals.elems

lemma Valid.owner_range (h : part.Valid ctx) {id : ℤ} (hid : 0 ≤ id) (hlt : id < part.arraySize) :
    0 ≤ part.owner id ∧ part.owner id < part.numParts := by
  unfold owner
  cases hmode : part.mode with
  | remainder =>
      have hpos : (0 : ℤ) < part.numParts := by exact_mod_cast h.numParts_pos
      exact ⟨Int.tmod_nonneg _ hid, Int.tmod_lt_of_pos _ hpos⟩
  | range bounds =>
      have hbounds := h.bounds bounds hmode
      obtain ⟨h1, -, -⟩ := searchRangeCpu_spec (hbounds.first.trans_le hid)
        (hlt.trans_eq hbounds.last.symm)
      exact ⟨Int.natCast_nonneg _, by simpa [mapProcByRangeCpu] using h1⟩

/-- **The sizes of the parts** add up to the size of the array. -/
theorem Valid.sizes (h : part.Valid ctx) : ∃ sizes : ℕ → ℤ,
    (∀ p < part.numParts, part.partSize p = .ok (sizes p)) ∧
      ((List.range part.numParts).map sizes).sum = part.arraySize := by
  cases hmode : part.mode with
  | remainder =>
      refine ⟨remainderSize part.arraySize part.numParts, fun p hp => ?_,
        sum_remainderSize h.numParts_pos⟩
      rw [partSize, if_neg (not_not.2 hp), hmode]
      rfl
  | range bounds =>
      have hbounds := h.bounds bounds hmode
      refine ⟨fun p => bounds.at (p + 1) - bounds.at p, fun p hp => ?_, ?_⟩
      · rw [partSize, if_neg (not_not.2 hp), hmode]
      · rw [sum_rangeSize, hbounds.first, hbounds.last, sub_zero]

/-- On an Ascend array a permutation is generated if and only if there is nothing to count. -/
lemma generatePermutation_eq_ok_iff {mapProc : ℤ → ℤ} {numParts d : ℕ} (hparts : 0 < numParts)
    (hctx : ids.ctx = .ascend d) :
    (∃ r, Partition.generatePermutation mapProc numParts ids = .ok r) ↔
      numParts = 1 ∨ ids.elems = [] := by
  unfold Partition.generatePermutation
  by_cases hone : numParts = 1
  · simp [hone]
  · by_cases hnil : ids.elems = []
    · simp [hone, hnil, hparts.ne']
    · have hlen : ¬ids.elems.length = 0 := fun h => hnil (List.length_eq_zero_iff.1 h)
      have hdevice : (full 0 numParts ids.ctx).ctx ≠ .cpu := by
        show ids.ctx ≠ .cpu
        rw [hctx]
        nofun
      simp only [if_neg (show ¬numParts < 1 by omega), if_neg hone, if_neg hlen,
        IdArray.store_device hdevice]
      constructor
      · rintro ⟨r, hr⟩
        exact absurd hr nofun
      · rintro (h | h)
        · exact absurd h hone
        · exact absurd h hnil

/-- **A permutation that is generated** groups the ids, and comes with their counts. -/
theorem generatePermutation_spec {mapProc : ℤ → ℤ} {numParts : ℕ} {perm counts : IdArray}
    (hrange : ∀ id ∈ ids.elems, 0 ≤ mapProc id ∧ mapProc id < numParts)
    (h : Partition.generatePermutation mapProc numParts ids = .ok (perm, counts)) :
    perm.elems = (bucketOrder (fun i => (mapProc (ids.elems.getD i 0)).toNat) numParts
        ids.elems.length).map (fun (i : ℕ) => (i : ℤ)) ∧
      counts.elems = (List.range numParts).map fun p =>
        (countIn (fun i => (mapProc (ids.elems.getD i 0)).toNat) p 0 ids.elems.length : ℤ) := by
  set partOf := fun i => (mapProc (ids.elems.getD i 0)).toNat with hpartOf
  have hget : ∀ i < ids.elems.length, ids.elems.getD i 0 ∈ ids.elems := by
    intro i hi
    rw [List.getD_eq_getElem?_getD, List.getElem?_eq_getElem hi]
    exact List.getElem_mem hi
  unfold Partition.generatePermutation at h
  by_cases hzero : numParts < 1
  · rw [if_pos hzero] at h
    cases h
  · rw [if_neg hzero] at h
    by_cases hone : numParts = 1
    · -- All ids are in the one part.
      rw [if_pos hone] at h
      obtain ⟨rfl, rfl⟩ := Prod.mk.inj (Except.ok.inj h)
      have hbucket : bucket partOf ids.elems.length 0 = List.range ids.elems.length := by
        rw [bucket, List.filter_eq_self]
        intro i hi
        obtain ⟨h1, h2⟩ := hrange _ (hget i (List.mem_range.1 hi))
        rw [hone] at h2
        rw [decide_eq_true_eq, hpartOf]
        show (mapProc (ids.elems.getD i 0)).toNat = 0
        omega
      constructor
      · rw [hone, bucketOrder, List.range_one, List.flatMap_singleton, hbucket, range,
          List.range_eq_range', Nat.sub_zero]
      · rw [hone, List.range_one, List.map_singleton, ← length_bucket, hbucket, List.length_range]
        rfl
    · rw [if_neg hone] at h
      by_cases hnil : ids.elems.length = 0
      · rw [if_pos hnil] at h
        obtain ⟨rfl, rfl⟩ := Prod.mk.inj (Except.ok.inj h)
        rw [hnil]
        constructor
        · simp [bucketOrder, bucket]
        · simp [full, countIn, List.map_const']
      · rw [if_neg hnil] at h
        have hprocs : ∀ p ∈ ids.elems.map mapProc, 0 ≤ p ∧ p < numParts := by
          intro p hp
          obtain ⟨id, hid, rfl⟩ := List.mem_map.1 hp
          exact hrange id hid
        have hparts : ∀ i < ids.elems.length,
            ((ids.elems.map mapProc).getD i 0).toNat = partOf i := by
          intro i hi
          simp [hpartOf, List.getD_eq_getElem?_getD, List.getElem?_eq_getElem hi]
        by_cases hcpu : ids.ctx = .cpu
        · have hctx : (full 0 numParts ids.ctx).ctx = .cpu := hcpu
          simp only [IdArray.store_cpu hctx] at h
          obtain ⟨rfl, rfl⟩ := Prod.mk.inj (Except.ok.inj h)
          constructor
          · have hsorted := sortedPairs_eq hprocs
            rw [List.length_map, bucketOrder_congr hparts] at hsorted
            rw [← hsorted, List.map_map]
            rfl
          · show (List.range numParts).map (fun (p : ℕ) => countProcs _ (p : ℤ)) = _
            apply List.map_congr_left
            intro p hp
            rw [countProcs_sortedPairs, List.count, List.countP_map]
            congr 1
            apply countP_eq_countIn
            intro i hi
            obtain ⟨h1, h2⟩ := hrange _ (List.getElem_mem hi)
            have hpart : partOf i = (mapProc ids.elems[i]).toNat := by
              simp [hpartOf, List.getD_eq_getElem?_getD, List.getElem?_eq_getElem hi]
            rw [hpart, Function.comp_apply, Bool.eq_iff_iff, beq_iff_eq, decide_eq_true_eq]
            omega
        · have hctx : (full 0 numParts ids.ctx).ctx ≠ .cpu := hcpu
          simp only [IdArray.store_device hctx] at h
          cases h

/-- **All operations succeed and agree** on an Ascend array if and only if the partition goes by
remainders and has one part, or there are no ids. -/
theorem bijective_iff (part : NDArrayPartition) (d : ℕ) (ids : IdArray)
    (hvalid : part.Valid (.ascend d)) (hctx : ids.ctx = .ascend d)
    (hids : ∀ id ∈ ids.elems, 0 ≤ id ∧ id < part.arraySize) :
    part.Bijective ids ↔ part.mode = .remainder ∧ (part.numParts = 1 ∨ ids.elems = []) := by
  cases hmode : part.mode with
  | range bounds =>
      constructor
      · rintro ⟨-, -, locals, hlocal, -⟩
        rw [mapToLocal, hmode, hctx] at hlocal
        exact absurd hlocal nofun
      · rintro ⟨h, -⟩
        cases h
  | remainder =>
      have hgenerate : part.generatePermutation ids = Partition.generatePermutation
          (mapProcByRemainderCpu part.numParts) part.numParts ids := by
        rw [generatePermutation, hmode, hctx]
        rfl
      have howner : ∀ id ∈ ids.elems, 0 ≤ part.owner id ∧ part.owner id < part.numParts :=
        fun id hid => hvalid.owner_range (hids id hid).1 (hids id hid).2
      have hproc : part.owner = mapProcByRemainderCpu part.numParts := by
        unfold owner
        rw [hmode]
      constructor
      · rintro ⟨-, ⟨perm, counts, hperm, -⟩, -⟩
        rw [hgenerate] at hperm
        exact ⟨rfl, (generatePermutation_eq_ok_iff hvalid.numParts_pos hctx).1 ⟨_, hperm⟩⟩
      · rintro ⟨-, hdone⟩
        refine ⟨hvalid.sizes, ?_, ?_⟩
        · obtain ⟨⟨perm, counts⟩, hperm⟩ :=
            (generatePermutation_eq_ok_iff hvalid.numParts_pos hctx).2 hdone
          obtain ⟨h1, h2⟩ := generatePermutation_spec (fun id hid => howner id hid) hperm
          rw [hproc] at hperm
          exact ⟨perm, counts, hgenerate.trans hperm, h1, h2⟩
        · refine ⟨mapToLocalFromRemainder part.numParts ids, ?_, ?_⟩
          · rw [mapToLocal, hmode, hctx]
          · rcases hdone with hone | hnil
            · -- With one part the ids are the local ids.
              rw [mapToLocalFromRemainder, if_neg (by omega), List.forall₂_same]
              intro id hid
              obtain ⟨h1, h2⟩ := hids id hid
              have hzero : (part.owner id).toNat = 0 := by
                obtain ⟨h3, h4⟩ := howner id hid
                rw [hone] at h4
                omega
              refine ⟨h1, ⟨part.arraySize, ?_, h2⟩, ?_⟩
              · rw [hzero, partSize, hmode, hone, if_neg (by omega)]
                simp [Nat.mod_one]
              · rw [hzero, mapToGlobal, hmode, hctx]
                simp only [mapToGlobalFromRemainder, hone]
                rfl
            · rw [mapToLocalFromRemainder, hnil]
              split_ifs
              · exact List.Forall₂.nil
              · rw [hnil]
                exact List.Forall₂.nil

theorem bijective_onePart : (createPartitionRemainderBased 3 1).Bijective ⟨.ascend 0, [2, 0, 2]⟩ := by
  refine (bijective_iff _ 0 _ ⟨by decide, fun bounds h => ?_⟩ rfl (by decide)).2 ⟨rfl, Or.inl rfl⟩
  exact absurd h nofun

/-- Two parts, with one id and two ids. -/
def twoRanges : NDArrayPartition := ⟨3, 2, .range ⟨.ascend 0, [0, 1, 3]⟩⟩

lemma valid_twoRanges : twoRanges.Valid (.ascend 0) := by
  refine ⟨by decide, fun bounds h => ?_⟩
  obtain rfl := Mode.range.inj h
  exact ⟨rfl, rfl, rfl, rfl, by decide⟩

/-- **Local ids of a range** are not to be had on Ascend. -/
theorem not_bijective_twoRanges :
    ¬∀ (part : NDArrayPartition) (d : ℕ) (ids : IdArray), part.Valid (.ascend d) →
      ids.ctx = .ascend d → (∀ id ∈ ids.elems, 0 ≤ id ∧ id < part.arraySize) → part.Bijective ids := by
  intro h
  obtain ⟨-, -, locals, hlocal, -⟩ := h twoRanges 0 ⟨.ascend 0, [2]⟩ valid_twoRanges rfl (by decide)
  have hfatal : twoRanges.mapToLocal ⟨.ascend 0, [2]⟩ = .error .fatal := rfl
  rw [hfatal] at hlocal
  exact absurd hlocal nofun

end NDArrayPartition

end DglAscend.Partition
