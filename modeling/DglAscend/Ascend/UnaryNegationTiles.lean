import DglAscend.Ascend.UnaryNegation

/-!
# The tiles of a negation

Both ways to compute a tile write the lanes of the negated elements (`fastTile_writes`,
`rareTile_writes`); the fast one where no low half is zero.  The probe sees to that (`tile_writes`).
-/

namespace DglAscend.Ascend.UnaryNeg

open LocalTensor

variable {cast : Lane → ℚ} {x : List (BitVec 64)} {off cnt l : ℕ} {ub : Ub}

/-- The lanes of the negated elements of a tile. -/
def exactWrites (x : List (BitVec 64)) (off cnt : ℕ) : List (ℕ × Lane) :=
  (List.range (cnt * 2)).map fun l => (off * 2 + l, gmLanes (x.map fun w => -w) (off * 2 + l))

/-! ## Lanes of the negated array -/

lemma getD_map_neg (x : List (BitVec 64)) (i : ℕ) : (x.map fun w => -w).getD i 0 = -x.getD i 0 := by
  rw [List.getD_eq_getElem?_getD, List.getD_eq_getElem?_getD, List.getElem?_map]
  cases x[i]? with
  | none => rw [Option.map_none, Option.getD_none, neg_zero]
  | some w => rfl

lemma gmLanes_neg_even (x : List (BitVec 64)) (hl : l % 2 = 0) :
    gmLanes (x.map fun w => -w) l = -gmLanes x l := by
  rw [gmLanes, gmLanes, if_pos hl, if_pos hl, getD_map_neg, loLane_neg]

/-- A high half: the borrow comes from the lane before. -/
lemma gmLanes_neg_odd (x : List (BitVec 64)) (hl : (l + 1) % 2 = 1) :
    gmLanes (x.map fun w => -w) (l + 1) =
      -gmLanes x (l + 1) - if gmLanes x l = 0 then 0 else 1 := by
  have heven : l % 2 = 0 := by omega
  have hhalf : (l + 1) / 2 = l / 2 := by omega
  rw [gmLanes, gmLanes, gmLanes, if_neg (by omega), if_neg (by omega), if_pos heven, hhalf,
    getD_map_neg, hiLane_neg]

lemma gmLanes_double (x : List (BitVec 64)) (i : ℕ) : gmLanes x (i * 2) = loLane (x.getD i 0) := by
  rw [gmLanes, if_pos (Nat.mul_mod_left i 2), Nat.mul_div_cancel i (by decide)]

/-! ## The pattern -/

lemma neg_one_sub (w : Lane) : -1 - w = -w - 1 := by ring

/-- The pattern of the borrow and the mask of the high halves. -/
structure Patterned (ub : Ub) : Prop where
  borrow : ∀ l < tileLanes, ub.borrow l = if l % 2 = 0 then 0 else -1
  idx : ∀ l < tileLanes, ub.idx l = if l % 2 = 0 then 0 else 1

lemma one_and_ofNat (l : ℕ) : (1 : Lane) &&& BitVec.ofNat 32 l = if l % 2 = 0 then 0 else 1 := by
  apply BitVec.eq_of_toNat_eq
  have hone : (1 : Lane).toNat = 1 := rfl
  rw [BitVec.toNat_and, hone, Nat.one_and_eq_mod_two, BitVec.toNat_ofNat]
  split_ifs with h
  · show l % 2 ^ 32 % 2 = 0
    omega
  · show l % 2 ^ 32 % 2 = 1
    omega

lemma patterned_buildPattern (ub : Ub) : Patterned (buildPattern ub) := by
  have hborrow (l : ℕ) (hl : l < tileLanes) :
      (buildPattern ub).borrow l = if l % 2 = 0 then 0 else -1 := by
    have hand : (buildPattern ub).borrow l = ((1 : Lane) &&& BitVec.ofNat 32 l) * -1 := by
      have hfirst (k : ℕ) (hk : k < tileLanes) : duplicate ub.borrow 1 tileLanes k = 1 :=
        lanewise_of_lt hk
      have hidx (k : ℕ) (hk : k < tileLanes) :
          createVecIndex ub.idx 0 tileLanes k = BitVec.ofNat 32 k := by
        rw [createVecIndex, lanewise_of_lt hk, zero_add]
      rw [buildPattern]
      show muls _ _ _ _ l = _
      rw [muls, lanewise_of_lt hl, withView]
      by_cases hchunk : l < tileElems
      · -- the first call ends after 1024 lanes
        rw [if_pos hchunk, LocalTensor.and, lanewise_of_lt (by exact hchunk), hfirst l hl, hidx l hl]
      · have hsub : tileElems + (l - tileElems) = l := by omega
        have hin : l - tileElems < tileLanes / 2 := by
          rw [tileLanes] at hl ⊢
          omega
        rw [if_neg hchunk, LocalTensor.and, lanewise_of_lt hin, view, view, hsub, LocalTensor.and,
          lanewise, if_neg (by exact hchunk), hfirst l hl, hidx l hl]
    rw [hand, one_and_ofNat]
    split_ifs with h
    · rw [zero_mul]
    · rw [one_mul]
  refine ⟨hborrow, fun l hl => ?_⟩
  have hmul : (buildPattern ub).idx l = (buildPattern ub).borrow l * -1 := by
    show muls _ _ _ _ l = _
    rw [muls, lanewise_of_lt hl]
    rfl
  rw [hmul, hborrow l hl]
  split_ifs with h
  · rw [zero_mul]
  · rw [neg_mul_neg, one_mul]

/-! ## The probe -/

lemma tileBytes_div (cnt : ℕ) : tileBytes cnt / 4 = cnt * 2 := by
  rw [tileBytes]
  split_ifs with h
  · rw [h, tileLanes]
    omega
  · omega

lemma loadTile_apply (x : List (BitVec 64)) (off : ℕ) (ub : Ub) (hl : l < cnt * 2) :
    loadTile x off cnt ub l = gmLanes x (off * 2 + l) := by
  rw [loadTile, copyIn, tileBytes_div, lanewise_of_lt hl]

lemma probe_eq_zero_iff (hcast : ∀ w, cast w = 0 ↔ w = 0) (s : LocalTensor) (ub : Ub) {lanes : ℕ}
    (hpos : 0 < lanes) : (probe cast s lanes ub).reduceOut = 0 ↔ ∃ l < lanes, s l = 0 := by
  have himage (l : ℕ) (hl : l < lanes) :
      (probe cast s lanes ub).probeF l = |cast (s l)| := by
    rw [probe]
    show lanewise lanes _ (fun l => |lanewise lanes ub.probeF (fun l => cast (s l)) l|) l = _
    rw [lanewise_of_lt hl, lanewise_of_lt hl]
  have hfold : (probe cast s lanes ub).reduceOut =
      (List.range (lanes - 1)).foldl (fun m l => Min.min m |cast (s (l + 1))|) |cast (s 0)| := by
    rw [← himage 0 hpos]
    apply List.foldl_ext
    intro m l hl
    rw [← himage (l + 1) (by rw [List.mem_range] at hl; omega)]
    rfl
  rw [hfold, foldl_min_abs_eq_zero_iff fun l => cast (s (l + 1)), hcast]
  constructor
  · rintro (hzero | ⟨l, hl, hzero⟩)
    · exact ⟨0, hpos, hzero⟩
    · rw [List.mem_range] at hl
      exact ⟨l + 1, by omega, (hcast _).1 hzero⟩
  · rintro ⟨l, hl, hzero⟩
    cases l with
    | zero => exact Or.inl hzero
    | succ l => exact Or.inr ⟨l, List.mem_range.2 (by omega), (hcast _).2 hzero⟩

/-! ## The two ways to compute a tile -/

/-- **One subtraction** is enough where no low half is zero. -/
lemma fastTile_writes (hub : Patterned ub) (hcnt : cnt ≤ tileElems) {s : LocalTensor}
    (hs : ∀ l < cnt * 2, s l = gmLanes x (off * 2 + l))
    (hlo : ∀ i < cnt, loLane (x.getD (off + i) 0) ≠ 0) :
    (fastTile s off cnt ub).2 = exactWrites x off cnt := by
  show copyOut _ _ _ = _
  rw [copyOut, tileBytes_div]
  apply List.map_congr_left
  intro l hl
  rw [List.mem_range] at hl
  have hlt : l < tileLanes := by
    rw [tileLanes]
    omega
  rw [sub, lanewise_of_lt hl, hub.borrow l hlt, hs l hl]
  rcases Nat.mod_two_eq_zero_or_one l with heven | hodd
  · rw [if_pos heven, gmLanes_neg_even x (by omega), zero_sub]
  · obtain ⟨k, rfl⟩ : ∃ k, l = k + 1 := ⟨l - 1, by omega⟩
    have hne : gmLanes x (off * 2 + k) ≠ 0 := by
      have hplace : off * 2 + k = (off + k / 2) * 2 := by omega
      rw [hplace, gmLanes_double]
      exact hlo (k / 2) (by omega)
    rw [if_neg (by omega), ← Nat.add_assoc, gmLanes_neg_odd x (by omega), if_neg hne,
      neg_one_sub]

lemma correction_eq (w : Lane) :
    signedMax (signedMin w (w * -1)) (-1) + 1 = if w = 0 then 1 else 0 := by
  rw [clampedMin_eq]
  split_ifs
  · rw [zero_add]
  · rw [neg_add_cancel]

lemma rareFirst_lanes (x : List (BitVec 64)) (off : ℕ) (ub : Ub) :
    (rareFirst x (off * 2) ub).rareLoOut 0 = gmLanes (x.map fun w => -w) (off * 2) ∧
      (rareFirst x (off * 2) ub).rareHiOut 0 = gmLanes (x.map fun w => -w) (off * 2 + 1) := by
  have hone : 0 < 1 := Nat.one_pos
  have hbytes : 4 / 4 = 1 := Nat.div_self (by decide)
  have hlo : (rareFirst x (off * 2) ub).rareLoOut 0 = gmLanes x (off * 2) * -1 := by
    simp only [rareFirst, muls, copyIn, hbytes, lanewise_of_lt hone, Nat.add_zero]
  have hhi : (rareFirst x (off * 2) ub).rareHiOut 0 = gmLanes x (off * 2 + 1) * -1 -
      signedMax (signedMin (gmLanes x (off * 2)) (gmLanes x (off * 2) * -1)) (-1) * -1 := by
    simp only [rareFirst, sub, maxs, LocalTensor.min, muls, copyIn, hbytes, lanewise_of_lt hone,
      Nat.add_zero]
  constructor
  · rw [hlo, mul_neg_one, gmLanes_neg_even x (Nat.mul_mod_left off 2)]
  · rw [hhi, clampedMin_eq, mul_neg_one, gmLanes_neg_odd x (by omega)]
    split_ifs
    · rw [zero_mul]
    · rw [neg_mul_neg, one_mul]

/-- The other elements: lane `l` of the rest is lane `l + 2` of the tile. -/
lemma rareRest_lane (hub : Patterned ub) {lanes : ℕ} (hlanes : lanes ≤ tileLanes)
    (hl : l < lanes - 2) :
    (rareRest x (off * 2) lanes ub).tSub l = gmLanes (x.map fun w => -w) (off * 2 + 2 + l) := by
  have hlt : l < tileLanes := by omega
  have hbytes : (lanes - 2) * 4 / 4 = lanes - 2 := Nat.mul_div_cancel _ (by decide)
  have heq : (rareRest x (off * 2) lanes ub).tSub l =
      ub.borrow l - gmLanes x (off * 2 + 2 + l) +
        (signedMax (signedMin (gmLanes x (off * 2 + 1 + l)) (gmLanes x (off * 2 + 1 + l) * -1)) (-1) +
          1) * ub.idx l := by
    show add _ _ _ _ l = _
    simp only [add, sub, mul, adds, maxs, LocalTensor.min, muls, copyIn, hbytes, lanewise_of_lt hl]
  rw [heq, correction_eq, hub.borrow l hlt, hub.idx l hlt]
  rcases Nat.mod_two_eq_zero_or_one l with heven | hodd
  · rw [if_pos heven, if_pos heven, gmLanes_neg_even x (by omega), mul_zero, add_zero, zero_sub]
  · have hplace : off * 2 + 2 + l = off * 2 + 1 + l + 1 := by omega
    have hne : ¬l % 2 = 0 := by omega
    rw [if_neg hne, if_neg hne, hplace, gmLanes_neg_odd x (by omega), mul_one, neg_one_sub]
    split_ifs
    · rw [sub_zero, sub_add_cancel]
    · rw [add_zero]

lemma Patterned.rareFirst (hub : Patterned ub) (laneBase : ℕ) :
    Patterned (rareFirst x laneBase ub) := ⟨hub.borrow, hub.idx⟩

/-- **A tile with zeros** is computed element by element. -/
lemma rareTile_writes (hub : Patterned ub) (hpos : 1 ≤ cnt) (hcnt : cnt ≤ tileElems) :
    (rareTile x off cnt ub).2 = exactWrites x off cnt := by
  obtain ⟨hlo, hhi⟩ := rareFirst_lanes x off ub
  have hsplit : exactWrites x off cnt =
      [(off * 2, gmLanes (x.map fun w => -w) (off * 2))] ++
        [(off * 2 + 1, gmLanes (x.map fun w => -w) (off * 2 + 1))] ++
          (List.range (cnt * 2 - 2)).map fun l =>
            (off * 2 + 2 + l, gmLanes (x.map fun w => -w) (off * 2 + 2 + l)) := by
    have hrange : cnt * 2 = 2 + (cnt * 2 - 2) := by omega
    rw [exactWrites, hrange, List.range_add, List.map_append, List.map_map]
    have hrest : 2 + (cnt * 2 - 2) - 2 = cnt * 2 - 2 := by omega
    rw [hrest]
    congr 1
    apply List.map_congr_left
    intro l _
    simp only [Function.comp_apply, Nat.add_assoc]
  rw [hsplit, rareTile]
  have hone (t : LocalTensor) (base : ℕ) : copyOut t base 4 = [(base, t 0)] := rfl
  by_cases htwo : 2 ≤ cnt
  · simp only [if_pos htwo, hone]
    have hloOut : (rareRest x (off * 2) (cnt * 2) (rareFirst x (off * 2) ub)).rareLoOut 0 = _ := hlo
    have hhiOut : (rareRest x (off * 2) (cnt * 2) (rareFirst x (off * 2) ub)).rareHiOut 0 = _ := hhi
    rw [hloOut, hhiOut, copyOut, Nat.mul_div_cancel _ (by decide)]
    congr 1
    apply List.map_congr_left
    intro l hl
    rw [rareRest_lane (hub.rareFirst _) (by rw [tileLanes]; omega) (List.mem_range.1 hl)]
  · have hcnt1 : cnt = 1 := by omega
    simp only [if_neg htwo, hone]
    rw [hlo, hhi, hcnt1]
    rfl

/-- **A tile.** -/
theorem tile_writes (hcast : ∀ w, cast w = 0 ↔ w = 0) (x : List (BitVec 64)) (off : ℕ)
    (hub : Patterned ub) (hpos : 1 ≤ cnt) (hcnt : cnt ≤ tileElems) :
    (tile cast x off cnt ub).2 = exactWrites x off cnt ∧ Patterned (tile cast x off cnt ub).1 := by
  have hprobe := probe_eq_zero_iff hcast (loadTile x off cnt ub) ub (show 0 < cnt * 2 by omega)
  have hload (l : ℕ) (hl : l < cnt * 2) := loadTile_apply x off ub hl
  rw [tile]
  by_cases hzero : (probe cast (loadTile x off cnt ub) (cnt * 2) ub).reduceOut = 0
  · simp only [if_pos hzero]
    refine ⟨rareTile_writes ⟨hub.borrow, hub.idx⟩ hpos hcnt, ?_⟩
    rw [rareTile]
    by_cases htwo : 2 ≤ cnt
    · simp only [if_pos htwo]
      exact ⟨hub.borrow, hub.idx⟩
    · simp only [if_neg htwo]
      exact ⟨hub.borrow, hub.idx⟩
  · simp only [if_neg hzero]
    refine ⟨fastTile_writes ⟨hub.borrow, hub.idx⟩ hcnt hload fun i hi hlo => ?_,
      ⟨hub.borrow, hub.idx⟩⟩
    apply hzero
    rw [hprobe]
    refine ⟨i * 2, by omega, ?_⟩
    rw [hload _ (by omega), ← Nat.add_mul, gmLanes_double, hlo]

end DglAscend.Ascend.UnaryNeg
