import DglAscend.Ascend.UnaryNegationTiles

/-!
# The negated array

What the cores write between them.  The range of a core is computed in `uint32_t`: a single core that
has to round up more than `2^32 - 512` elements gets none of them, and nothing is negated
(`exact_iff`).
-/

namespace DglAscend.Ascend.UnaryNeg

open LocalTensor

variable {cast : Lane → ℚ} {x : List (BitVec 64)} {blockNum : ℕ}

variable (cast x blockNum) in
/-- Every element of `y` is the negated element of `x`, whatever the buffers and `y` held before and in
whatever order the cores write. -/
def Negates : Prop :=
  ∀ (ub : ℕ → Ub) (y : List Lane), y.length = 2 * x.length →
    ∃ writes, launch cast x blockNum ub = .ok writes ∧
      ∀ ws : List (ℕ × Lane), ws.Perm writes →
        ∀ i < x.length, wordAt (applyWrites y ws) i = -x.getD i 0

variable (x) in
/-- Both ways to compute a tile write the same wherever the fast one may be taken. -/
def PathsAgree : Prop :=
  ∀ (off cnt : ℕ) (ub : Ub), Patterned ub → 1 ≤ cnt → cnt ≤ tileElems →
    (∀ i < cnt, loLane (x.getD (off + i) 0) ≠ 0) →
      (fastTile (loadTile x off cnt ub) off cnt ub).2 = (rareTile x off cnt ub).2

lemma pathsAgree (x : List (BitVec 64)) : PathsAgree x := by
  intro off cnt ub hub hpos hcnt hlo
  rw [fastTile_writes hub hcnt (fun l hl => loadTile_apply x off ub hl) hlo, rareTile_writes hub hpos hcnt]

/-! ## A core -/

lemma exactWrites_add (x : List (BitVec 64)) (off m n : ℕ) :
    exactWrites x off (m + n) = exactWrites x off m ++ exactWrites x (off + m) n := by
  rw [exactWrites, Nat.add_mul, List.range_add, List.map_append, List.map_map, exactWrites,
    exactWrites]
  congr 1
  apply List.map_congr_left
  intro l _
  simp only [Function.comp_apply, Nat.add_mul, Nat.add_assoc]

/-- The loop writes what is left of the range. -/
lemma loop_spec (hcast : ∀ w, cast w = 0 ↔ w = 0) {stop : ℕ} (hstop : stop < 2 ^ 32) (fuel : ℕ)
    (c : Core) (hub : Patterned c.ub) (hfuel : stop - c.off < fuel) :
    ∃ c', whileLoop (pending stop) (turn cast x stop) fuel c = .ok c' ∧
      c'.writes = c.writes ++ exactWrites x c.off (stop - c.off) := by
  induction fuel generalizing c with
  | zero => omega
  | succ fuel ih =>
      rw [whileLoop_succ]
      by_cases hgo : c.off < stop
      · have hpending : pending stop c = true := decide_eq_true hgo
        rw [if_pos hpending]
        obtain ⟨cnt, hcnt, hpos, hle, hrest⟩ : ∃ cnt,
            (if tileElems < stop - c.off then tileElems else stop - c.off) = cnt ∧ 1 ≤ cnt ∧
              cnt ≤ tileElems ∧ cnt ≤ stop - c.off := by
          refine ⟨_, rfl, ?_⟩
          rw [tileElems]
          split_ifs
          · omega
          · omega
        obtain ⟨hwrites, hpattern⟩ := tile_writes hcast x c.off hub hpos hle
        have hturn : turn cast x stop c =
            ⟨c.off + cnt, (tile cast x c.off cnt c.ub).1, c.writes ++ exactWrites x c.off cnt⟩ := by
          rw [turn, hcnt, u32_eq (by omega), hwrites]
        rw [hturn]
        obtain ⟨c', hok, hall⟩ := ih ⟨c.off + cnt, (tile cast x c.off cnt c.ub).1,
          c.writes ++ exactWrites x c.off cnt⟩ hpattern (by
            show stop - (c.off + cnt) < fuel
            omega)
        refine ⟨c', hok, ?_⟩
        have hsum : stop - c.off = cnt + (stop - (c.off + cnt)) := by omega
        rw [hall, List.append_assoc, hsum, exactWrites_add]
      · rw [if_neg (by rw [pending, decide_eq_true_eq]; exact hgo)]
        refine ⟨c, rfl, ?_⟩
        rw [Nat.sub_eq_zero_of_le (Nat.le_of_not_lt hgo)]
        exact (List.append_nil _).symm

/-- The lanes that a core writes. -/
def blockWrites (x : List (BitVec 64)) (blockNum b : ℕ) : List (ℕ × Lane) :=
  exactWrites x (unaryBlockRange x.length b blockNum).1
    ((unaryBlockRange x.length b blockNum).2 - (unaryBlockRange x.length b blockNum).1)

/-- **A core** writes the lanes of its range. -/
lemma block_spec (hcast : ∀ w, cast w = 0 ↔ w = 0) (x : List (BitVec 64)) (blockNum b : ℕ)
    (ub : Ub) :
    ∃ c, block cast x blockNum b ub = .ok c ∧ c.writes = blockWrites x blockNum b :=
  loop_spec hcast (u32_lt _) _ ⟨_, buildPattern ub, []⟩ (patterned_buildPattern ub)
    (Nat.lt_succ_self _)

lemma launch_eq (hcast : ∀ w, cast w = 0 ↔ w = 0) (ub : ℕ → Ub) :
    launch cast x blockNum ub = .ok ((List.range blockNum).flatMap (blockWrites x blockNum)) := by
  choose core hcore hwrites using fun b => block_spec hcast x blockNum b (ub b)
  rw [launch, mapM_ok fun b _ => hcore b]
  show Except.ok (((List.range blockNum).map core).flatMap Core.writes) = _
  rw [List.flatMap_map]
  congr 2
  funext b
  exact hwrites b

/-! ## The ranges of the cores -/

/-- `block_former` -/
def blockFormer (n blockNum : ℕ) : ℕ :=
  u32 (u32 (u32 ((n + blockNum - 1) / blockNum) + 512 - 1) / 512 * 512)

lemma stop_le (n b blockNum : ℕ) : (unaryBlockRange n b blockNum).2 ≤ n := by
  apply (u32_le _).trans
  split_ifs with h
  · exact h.le
  · exact le_rfl

/-- The lanes of the negated array. -/
def target (x : List (BitVec 64)) : List Lane :=
  (List.range (2 * x.length)).map (gmLanes (x.map fun w => -w))

/-- A core writes what the negated array holds. -/
lemma blockWrites_values (x : List (BitVec 64)) (blockNum b : ℕ) :
    ∀ w ∈ blockWrites x blockNum b, (target x)[w.1]? = some w.2 := by
  intro w hw
  obtain ⟨l, hl, rfl⟩ := List.mem_map.1 hw
  rw [List.mem_range] at hl
  have hstop := stop_le x.length b blockNum
  have hlt : (unaryBlockRange x.length b blockNum).1 * 2 + l < 2 * x.length := by omega
  rw [target, List.getElem?_map, List.getElem?_range hlt, Option.map_some]

lemma perCore_le {n : ℕ} (hblocks : 0 < blockNum) (hn : n < 2 ^ 32)
    (h : 2 ≤ blockNum ∨ n ≤ 2 ^ 32 - 512) : (n + blockNum - 1) / blockNum ≤ 2 ^ 32 - 512 := by
  rw [Nat.div_le_iff_le_mul_add_pred hblocks]
  rcases h with h | h
  · have hmul : 2 * (2 ^ 32 - 512) ≤ blockNum * (2 ^ 32 - 512) := Nat.mul_le_mul_right _ h
    omega
  · have hmul : 1 * (2 ^ 32 - 512) ≤ blockNum * (2 ^ 32 - 512) := Nat.mul_le_mul_right _ hblocks
    omega

lemma exists_block {n i : ℕ} (hblocks : 0 < blockNum) (hn : n < 2 ^ 32)
    (h : 2 ≤ blockNum ∨ n ≤ 2 ^ 32 - 512) (hi : i < n) :
    ∃ b < blockNum, (unaryBlockRange n b blockNum).1 ≤ i ∧ i < (unaryBlockRange n b blockNum).2 := by
  have hper := perCore_le hblocks hn h
  have hceil : n ≤ blockNum * ((n + blockNum - 1) / blockNum) := by
    have hmod := Nat.div_add_mod (n + blockNum - 1) blockNum
    have hlt := Nat.mod_lt (n + blockNum - 1) hblocks
    omega
  obtain ⟨per, hperEq⟩ : ∃ per, (n + blockNum - 1) / blockNum = per := ⟨_, rfl⟩
  rw [hperEq] at hper hceil
  obtain ⟨former, hformer⟩ : ∃ former, blockFormer n blockNum = former := ⟨_, rfl⟩
  have hround : per ≤ former := by
    rw [← hformer, blockFormer, hperEq, u32_eq (show per < 2 ^ 32 by omega),
      u32_eq (show per + 512 - 1 < 2 ^ 32 by omega), u32_eq (by omega)]
    omega
  have hpos : 0 < former := by
    rcases Nat.eq_zero_or_pos former with hzero | hpos
    · have hper0 : per = 0 := by omega
      rw [hper0] at hceil
      omega
    · exact hpos
  refine ⟨i / former, ?_, ?_⟩
  · rw [Nat.div_lt_iff_lt_mul hpos]
    exact hi.trans_le (hceil.trans (Nat.mul_le_mul_left _ hround))
  · have hle := Nat.div_mul_le_self i former
    have hlt := Nat.lt_div_mul_add (a := i) hpos
    have hstart : (unaryBlockRange n (i / former) blockNum).1 = i / former * former := by
      show u32 (i / former * blockFormer n blockNum) = _
      rw [hformer, u32_eq (by omega)]
    have hstop : (unaryBlockRange n (i / former) blockNum).2 =
        u32 (if i / former * former + former < n then i / former * former + former else n) := by
      show u32 (if u32 (i / former * blockFormer n blockNum) + blockFormer n blockNum < n then
        u32 (i / former * blockFormer n blockNum) + blockFormer n blockNum else n) = _
      rw [hformer, u32_eq (show i / former * former < 2 ^ 32 by omega)]
    rw [hstart, hstop]
    refine ⟨hle, ?_⟩
    split_ifs with hin
    · rw [u32_eq (by omega)]
      exact hlt
    · rw [u32_eq hn]
      exact hi

lemma mem_blockWrites {l : ℕ} (hblocks : 0 < blockNum) (hn : x.length < 2 ^ 32)
    (h : 2 ≤ blockNum ∨ x.length ≤ 2 ^ 32 - 512) (hl : l < 2 * x.length) :
    l ∈ ((List.range blockNum).flatMap (blockWrites x blockNum)).map Prod.fst := by
  obtain ⟨b, hb, hstart, hstop⟩ := exists_block hblocks hn h (show l / 2 < x.length by omega)
  obtain ⟨k, hk⟩ : ∃ k, (unaryBlockRange x.length b blockNum).1 * 2 + k = l :=
    ⟨l - (unaryBlockRange x.length b blockNum).1 * 2, by omega⟩
  rw [List.mem_map]
  refine ⟨(l, gmLanes (x.map fun w => -w) l), List.mem_flatMap.2 ⟨b, List.mem_range.2 hb, ?_⟩, rfl⟩
  rw [blockWrites, exactWrites, List.mem_map]
  refine ⟨k, List.mem_range.2 (by omega), ?_⟩
  rw [hk]

/-! ## The array -/

lemma getD_target (x : List (BitVec 64)) {l : ℕ} (hl : l < 2 * x.length) :
    (target x).getD l 0 = gmLanes (x.map fun w => -w) l := by
  rw [List.getD_eq_getElem?_getD, target, List.getElem?_map, List.getElem?_range hl, Option.map_some,
    Option.getD_some]

lemma wordAt_target {i : ℕ} (hi : i < x.length) : wordAt (target x) i = -x.getD i 0 := by
  rw [wordAt, getD_target x (by omega), getD_target x (by omega), Nat.mul_comm 2 i, gmLanes_double,
    gmLanes, if_neg (by omega), getD_map_neg]
  have hhalf : (i * 2 + 1) / 2 = i := by omega
  rw [hhalf, getD_map_neg, joinLanes_lo_hi]

lemma negates_of (hcast : ∀ w, cast w = 0 ↔ w = 0) (hblocks : 0 < blockNum)
    (hn : x.length < 2 ^ 32) (h : 2 ≤ blockNum ∨ x.length ≤ 2 ^ 32 - 512) :
    Negates cast x blockNum := by
  intro ub y hy
  refine ⟨_, launch_eq hcast ub, fun ws hws i hi => ?_⟩
  have hlen : y.length = (target x).length := by
    rw [hy, target, List.length_map, List.length_range]
  have hvalues : ∀ w ∈ ws, (target x)[w.1]? = some w.2 := by
    intro w hw
    obtain ⟨b, -, hw⟩ := List.mem_flatMap.1 (hws.subset hw)
    exact blockWrites_values x blockNum b w hw
  have hall : applyWrites y ws = target x := by
    apply List.ext_getElem?
    intro l
    rw [applyWrites_getElem? hlen hvalues]
    by_cases hl : l < 2 * x.length
    · rw [if_pos ((hws.map Prod.fst).symm.subset (mem_blockWrites hblocks hn h hl))]
    · have hge : (target x).length ≤ l := by
        rw [← hlen, hy]
        omega
      rw [List.getElem?_eq_none hge, List.getElem?_eq_none (hlen.trans_le hge), ite_self]
  rw [hall, wordAt_target hi]

/-- A core whose rounded share wraps around gets nothing. -/
lemma blockWrites_wrapped {n : ℕ} (hlen : x.length = n) (hlt : n < 2 ^ 32)
    (hgt : 2 ^ 32 - 512 < n) (b : ℕ) : blockWrites x 1 b = [] := by
  have hformer : blockFormer n 1 = 0 := by
    have hwrap : u32 (n + 512 - 1) / 512 = 0 := by
      rw [u32]
      omega
    rw [blockFormer, Nat.add_sub_cancel, Nat.div_one, u32_eq hlt, hwrap]
    rfl
  have hstart : (unaryBlockRange n b 1).1 = 0 := by
    show u32 (b * blockFormer n 1) = 0
    rw [hformer]
    rfl
  have hstop : (unaryBlockRange n b 1).2 = 0 := by
    show u32 (if u32 (b * blockFormer n 1) + blockFormer n 1 < n then
      u32 (b * blockFormer n 1) + blockFormer n 1 else n) = 0
    have hzero : u32 (b * 0) = 0 := rfl
    rw [hformer, hzero, if_pos (by omega)]
    rfl
  rw [blockWrites, hlen, hstart, hstop]
  rfl

/-- A buffer of zeros. -/
def Ub.zeros : Ub where
  xQueue := (fun _ => 0, fun _ => 0)
  yQueue := (fun _ => 0, fun _ => 0)
  borrow := fun _ => 0
  idx := fun _ => 0
  probeF := fun _ => 0
  reduceOut := 0
  rareLo := fun _ => 0
  rareHi := fun _ => 0
  rareLoOut := fun _ => 0
  rareHiOut := fun _ => 0
  sSub := fun _ => 0
  tmpRSub := fun _ => 0
  tSub := fun _ => 0

lemma not_negates_of (hcast : ∀ w, cast w = 0 ↔ w = 0) (hlt : x.length < 2 ^ 32)
    (hgt : 2 ^ 32 - 512 < x.length) : ¬Negates cast x 1 := by
  intro hnegates
  -- memory in which the first low half is wrong to begin with
  obtain ⟨v, hv⟩ : ∃ v : Lane, v ≠ loLane (-x.getD 0 0) :=
    ⟨loLane (-x.getD 0 0) + 1, fun h => by simp at h⟩
  obtain ⟨writes, hlaunch, hall⟩ := hnegates (fun _ => Ub.zeros) (List.replicate (2 * x.length) v)
    List.length_replicate
  have hwrites : writes = [] := by
    rw [launch_eq hcast] at hlaunch
    rw [← Except.ok.inj hlaunch, List.flatMap_eq_nil_iff]
    exact fun b _ => blockWrites_wrapped rfl hlt hgt b
  have hfirst := hall [] (by rw [hwrites]) 0 (by omega)
  apply hv
  rw [← hfirst, wordAt, loLane_join]
  show v = (List.replicate (2 * x.length) v).getD 0 0
  rw [List.getD_eq_getElem?_getD, List.getElem?_replicate, if_pos (by omega), Option.getD_some]

variable (cast x blockNum) in
/-- The negation is exact, and it does not matter how a tile is computed. -/
def Exact : Prop := Negates cast x blockNum ∧ PathsAgree x

/-- **Negation of an array** of `int64`: the launcher checks that the number of elements fits in 32 bits.
It is exact if and only if there are two cores, or the elements can be rounded up in 32 bits. -/
theorem exact_iff (hcast : ∀ w, cast w = 0 ↔ w = 0) (hblocks : 0 < blockNum)
    (hlen : x.length < 2 ^ 32) :
    Exact cast x blockNum ↔ 2 ≤ blockNum ∨ x.length ≤ 2 ^ 32 - 512 := by
  constructor
  · rintro ⟨hnegates, -⟩
    by_contra hnot
    have hone : blockNum = 1 := by omega
    subst hone
    exact not_negates_of hcast hlen (by omega) hnegates
  · exact fun h => ⟨negates_of hcast hblocks hlen h, pathsAgree x⟩

lemma toInt_cast_eq_zero_iff (w : Lane) : ((w.toInt : ℤ) : ℚ) = 0 ↔ w = 0 := by
  rw [Int.cast_eq_zero]
  exact ⟨fun h => BitVec.eq_of_toInt_eq h, fun h => h ▸ rfl⟩

lemma not_negates_replicate {n : ℕ} (hlt : n < 2 ^ 32) (hgt : 2 ^ 32 - 512 < n) :
    ¬Negates (fun w => (w.toInt : ℚ)) (List.replicate n 0) 1 := by
  apply not_negates_of toInt_cast_eq_zero_iff
  · rwa [List.length_replicate]
  · rwa [List.length_replicate]

/-- Elements with a zero in a low half, in a high half and in both. -/
theorem exact_three : Exact (fun w => (w.toInt : ℚ)) [2 ^ 32, 7, 0] 1 :=
  (exact_iff toInt_cast_eq_zero_iff Nat.one_pos (by norm_num)).2 (Or.inr (by norm_num))

/-- A device with one vector core. -/
theorem not_exact_oneCore :
    ¬Exact (fun w => (w.toInt : ℚ)) (List.replicate (2 ^ 32 - 511) 0)
      (calcBlockDim (some 1) (2 ^ 32 - 511)) := by
  have hdim : calcBlockDim (some 1) (2 ^ 32 - 511) = 1 := by decide
  rw [hdim]
  rintro ⟨hnegates, -⟩
  exact not_negates_replicate (by norm_num) (by norm_num) hnegates

end DglAscend.Ascend.UnaryNeg
