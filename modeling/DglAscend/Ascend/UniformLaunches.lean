import DglAscend.Ascend.BalancedPartitions
import DglAscend.Ascend.UniformBlocks

/-!
# Launching the uniform samplers

`CSRRowWiseSamplingUniform` and `CSRRowWiseSamplingUniformFused`: the picks of the seed rows, how the
rows are shared out over the cores, and the checks before a launch.  The fused launcher shares out the
rows on the device, in `csr_row_wise_sampling_uniform_fused_prep_kernel.cpp`.
-/

namespace DglAscend.Ascend

open Aten

/-! ## Rows of cores -/

/-- The rows of every core: all boundaries lie within the rows. -/
structure RowSplit (numRows numBlocks : ℕ) where
  bound : ℕ → ℕ
  zero : bound 0 = 0
  last : bound numBlocks = numRows
  le : ∀ block ≤ numBlocks, bound block ≤ numRows

lemma RowSplit.exists_block {numRows numBlocks i : ℕ} (r : RowSplit numRows numBlocks)
    (hi : i < numRows) : ∃ p < numBlocks, InSlot r.bound p i := by
  obtain ⟨p, -, hp, hin⟩ := exists_inSlot (b := r.bound) (w := i) (Nat.zero_le numBlocks)
    (r.zero.trans_le (Nat.zero_le i)) (hi.trans_eq r.last.symm)
  exact ⟨p, hp, hin⟩

lemma RowSplit.lt {numRows numBlocks block i : ℕ} (r : RowSplit numRows numBlocks)
    (hblock : block < numBlocks) (hin : InSlot r.bound block i) : i < numRows :=
  hin.2.trans_le (r.le (block + 1) hblock)

/-- The rows that `BuildBalancedPartitions` shares out. -/
def balancedSplit (picks : List ℕ) {numBlocks : ℕ} (hpos : 0 < numBlocks) :
    RowSplit picks.length numBlocks where
  bound := buildBalancedPartitions picks numBlocks
  zero := buildBalancedPartitions_zero hpos
  last := buildBalancedPartitions_last hpos
  le _ hle := buildBalancedPartitions_le hle

/-! ## The preparation kernel -/

/-- The second pass of the kernel: `boundary`, `run2` and the entries of `split_local`; `part` is the
number of entries. -/
structure Prep where
  boundary : ℕ
  run : ℕ
  split : List ℕ

namespace Prep

variable (picks : List ℕ) (numBlocks : ℕ)

/-- The pass goes on. -/
def pending (p : Prep) : Bool := p.boundary < picks.length ∧ p.split.length < numBlocks

/-- A turn of the pass: a row is consumed, or a boundary is resolved. -/
def step (p : Prep) : Prep :=
  if p.run < picks.sum % 2 ^ 32 * p.split.length / numBlocks then
    { p with run := p.run + picks.getD p.boundary 0, boundary := p.boundary + 1 }
  else { p with split := p.split ++ [p.boundary] }

/-- The boundaries that are resolved: without picks the rows are split equally. -/
def resolved : List ℕ :=
  if 0 < picks.length ∧ 1 < numBlocks ∧ picks.sum % 2 ^ 32 = 0 then
    (List.range numBlocks).map fun part => part * picks.length / numBlocks
  else (reached (whileLoop (pending picks numBlocks) (step picks numBlocks)
    (picks.length + numBlocks + 1) ⟨0, 0, [0]⟩)).split

/-- `split_local` after the guard against ties. -/
def splitLocal : List ℕ :=
  let filled := resolved picks numBlocks ++
    List.replicate (numBlocks + 1 - (resolved picks numBlocks).length) picks.length
  filled.tail.scanl max (filled.headD 0)

/-- `starts_local`: the picks before every boundary. -/
def startsLocal : List ℕ :=
  let x := (List.range (picks.length + 1)).foldl (fun (x : List ℕ × ℕ) i =>
    let hits := (((splitLocal picks numBlocks).take numBlocks).drop x.1.length).takeWhile (· = i)
    (x.1 ++ List.replicate hits.length (x.2 % 2 ^ 32), x.2 + picks.getD i 0)) ([], 0)
  x.1 ++ [x.2 % 2 ^ 32]

variable {picks numBlocks}

/-- What the pass keeps: the boundaries are rows, and the first one is the first row. -/
structure Ok (picks : List ℕ) (numBlocks : ℕ) (p : Prep) : Prop where
  boundary_le : p.boundary ≤ picks.length
  split_le : ∀ b ∈ p.split, b ≤ picks.length
  length_le : p.split.length ≤ numBlocks
  head : p.split.head? = some 0

lemma Ok.step {p : Prep} (h : Ok picks numBlocks p) (hgo : pending picks numBlocks p = true) :
    Ok picks numBlocks (step picks numBlocks p) := by
  rw [pending, decide_eq_true_eq] at hgo
  obtain ⟨hrow, hpart⟩ := hgo
  rw [Prep.step]
  by_cases hrun : p.run < picks.sum % 2 ^ 32 * p.split.length / numBlocks
  · rw [if_pos hrun]
    exact ⟨hrow, h.split_le, h.length_le, h.head⟩
  · rw [if_neg hrun]
    refine ⟨h.boundary_le, fun b hb => ?_, ?_, ?_⟩
    · rcases List.mem_append.1 hb with hb | hb
      · exact h.split_le b hb
      · rw [List.mem_singleton.1 hb]
        exact h.boundary_le
    · rw [List.length_append, List.length_singleton]
      exact hpart
    · rw [List.head?_append, h.head, Option.some_or]

/-- The boundaries that are resolved are rows, fewer than all boundaries. -/
lemma resolved_ok (picks : List ℕ) (hpos : 0 < numBlocks) : (∀ b ∈ resolved picks numBlocks, b ≤ picks.length) ∧
    (resolved picks numBlocks).length ≤ numBlocks ∧ (resolved picks numBlocks).head? = some 0 := by
  rw [resolved]
  split_ifs with hzero
  · refine ⟨fun b hb => ?_, ?_, ?_⟩
    · obtain ⟨part, hpart, rfl⟩ := List.mem_map.1 hb
      rw [List.mem_range] at hpart
      apply Nat.div_le_of_le_mul
      exact Nat.mul_le_mul_right _ hpart.le
    · rw [List.length_map, List.length_range]
    · rw [List.head?_map, List.head?_range, if_neg hpos.ne', Option.map_some, Nat.zero_mul,
        Nat.zero_div]
  · have hok : Ok picks numBlocks (reached (whileLoop (pending picks numBlocks)
        (step picks numBlocks) (picks.length + numBlocks + 1) ⟨0, 0, [0]⟩)) := by
      apply whileLoop_inv (I := Ok picks numBlocks)
      · refine ⟨Nat.zero_le _, fun b hb => ?_, hpos, rfl⟩
        rw [List.mem_singleton.1 hb]
        exact Nat.zero_le _
      · exact fun p hp hgo => hp.step hgo
    exact ⟨hok.split_le, hok.length_le, hok.head⟩

lemma foldl_max_le {bs : List ℕ} {b m : ℕ} (hb : b ≤ m) (hbs : ∀ c ∈ bs, c ≤ m) :
    bs.foldl max b ≤ m := by
  induction bs generalizing b with
  | nil => exact hb
  | cons c bs ih =>
      exact ih (max_le hb (hbs c List.mem_cons_self)) fun c' hc => hbs c' (List.mem_cons_of_mem c hc)

/-- The boundaries after the first one: rows, and at last the number of rows. -/
lemma splitLocal_eq (picks : List ℕ) (hpos : 0 < numBlocks) : ∃ bs : List ℕ, (∀ b ∈ bs, b ≤ picks.length) ∧
    bs.length + 1 = numBlocks ∧ splitLocal picks numBlocks = (bs ++ [picks.length]).scanl max 0 := by
  obtain ⟨hle, hlen, hhead⟩ := resolved_ok picks hpos
  obtain ⟨bs, hbs⟩ := List.head?_eq_some_iff.1 hhead
  rw [hbs, List.length_cons] at hlen
  obtain ⟨k, rfl⟩ := Nat.exists_eq_add_of_le hlen
  refine ⟨bs ++ List.replicate k picks.length, fun b hb => ?_, ?_, ?_⟩
  · rcases List.mem_append.1 hb with hb | hb
    · exact hle b (hbs ▸ List.mem_cons_of_mem 0 hb)
    · exact (List.eq_of_mem_replicate hb).le
  · rw [List.length_append, List.length_replicate]
    omega
  · have hmissing : bs.length + 1 + k + 1 - (bs.length + 1) = k + 1 := by omega
    rw [splitLocal, hbs, List.length_cons, hmissing, List.replicate_succ', List.append_assoc]
    rfl

/-- The rows that the preparation kernel shares out. -/
def rowSplit (picks : List ℕ) {numBlocks : ℕ} (hpos : 0 < numBlocks) :
    RowSplit picks.length numBlocks where
  bound b := (splitLocal picks numBlocks).getD b 0
  zero := by
    obtain ⟨bs, -, -, hsplit⟩ := splitLocal_eq picks hpos
    rw [hsplit, List.getD_eq_getElem?_getD, List.getElem?_scanl_zero, Option.getD_some]
  last := by
    obtain ⟨bs, hle, rfl, hsplit⟩ := splitLocal_eq picks hpos
    have hlen : (bs ++ [picks.length]).length = bs.length + 1 := List.length_append
    rw [hsplit, List.getD_eq_getElem?_getD, List.getElem?_scanl, if_pos hlen.ge, ← hlen,
      List.take_length, Option.getD_some, List.foldl_append]
    exact max_eq_right (foldl_max_le (Nat.zero_le _) hle)
  le := by
    intro block hblock
    obtain ⟨bs, hle, rfl, hsplit⟩ := splitLocal_eq picks hpos
    have hlen : (bs ++ [picks.length]).length = bs.length + 1 := List.length_append
    rw [hsplit, List.getD_eq_getElem?_getD, List.getElem?_scanl, if_pos (hblock.trans hlen.ge),
      Option.getD_some]
    apply foldl_max_le (Nat.zero_le _)
    intro b hb
    rcases List.mem_append.1 (List.mem_of_mem_take hb) with hb | hb
    · exact hle b hb
    · exact (List.mem_singleton.1 hb).le

end Prep

/-! ## Calls -/

/-- What the launchers ask the device for: the number of vector cores and the bytes of UB; and what is
in UB before a kernel. -/
structure Device where
  cores : ℕ
  ubAvailable : ℕ
  memory : ℕ → (ℕ → ℕ) × (ℕ → Pick)
  cores_pos : 0 < cores

namespace Device

variable (d : Device)

/-- The buffers of a core before its first row. -/
def fresh (block : ℕ) : Ub := ⟨0, (d.memory block).1, [], (d.memory block).2, [], []⟩

/-- `QueryVectorCoreCountFused`, which is at most `kMaxSamplingBlocksFused`. -/
def coresFused : ℕ := min d.cores 64

lemma coresFused_pos : 0 < d.coresFused := lt_min d.cores_pos (by decide)

end Device

/-- The arguments of the launchers: `seed` is the number that has been drawn for the launch, `outside`
is what is read outside of `indptr`, and `mappingBits` is the type of `seed_mapping`, 0 when it is not
defined. -/
structure UniformCall where
  csr : CSRMatrix
  rows : List ℤ
  numSamples : ℤ
  replace : Bool
  mapSeedNodes : Bool
  mappingBits : ℕ
  seed : BitVec 32
  outside : ℤ → ℤ

/-- The checks of the launchers. -/
inductive CheckFailure
  | mappingType (got want : ℕ)
  | fanout (fanout window : ℕ)
  | outputSize (size : ℕ)
  | seedRows (got : ℕ)
  | csrRows (got : ℕ)

namespace UniformCall

variable (c : UniformCall) (d : Device)

/-- `select_all` -/
def selectAll : Bool := c.numSamples = -1

/-- `replace`, once all edges are not asked for. -/
def replaces : Bool := c.replace && !c.selectAll

/-- `fanout` -/
def fanout : ℕ := if c.selectAll then 0 else (c.numSamples % 2 ^ 32).toNat

/-- The number of seed rows that the kernels see. -/
def numRows : ℕ := c.rows.length % 2 ^ 32

/-- `indptr[k]` -/
def indptrAt (k : ℤ) : ℤ :=
  if 0 ≤ k ∧ k < c.csr.indptr.length then c.csr.ptr k.toNat else c.outside k

/-- The degree of a row in `CSRGetRowNNZ`, cut to 32 bits. -/
def rowNNZ (row : ℤ) : ℕ :=
  if row % 2 ^ 32 < (c.csr.numRows % 2 ^ 32 : ℕ) then
    ((c.indptrAt (row + 1) - c.indptrAt row) % 2 ^ 32).toNat
  else 0

/-- `PickOf`, which is also what the plain launcher computes. -/
def pickOf (deg : ℕ) : ℕ :=
  if c.selectAll then deg
  else if c.replaces then (if deg = 0 then 0 else c.fanout)
  else if deg < c.fanout then deg else c.fanout

/-- `picks` -/
def picks : List ℕ := (c.rows.take c.numRows).map fun row => c.pickOf (c.rowNNZ row)

/-- The launch of a kernel with this window. -/
def launch (windowElems : ℕ) : UniformLaunch where
  sampler := ⟨c.replaces, c.selectAll, windowElems, c.csr⟩
  numSamples := c.fanout
  seed := c.seed
  rows := c.rows.take c.numRows
  mapSeedNodes := c.mapSeedNodes

/-- `window_elems_` of the plain kernel. -/
def window : ℕ := UniformLaunch.windowElemsPlain d.ubAvailable (c.csr.bits / 8)

/-- `window_elems_` of the fused kernel. -/
def windowFused : ℕ := UniformLaunch.windowElemsFused d.ubAvailable (c.csr.bits / 8)

/-- Nothing is sampled. -/
def nothing : Bool := c.rows.length = 0 ∨ c.csr.indptr.length ≤ 1 ∨ c.numSamples = 0

/-- `max_output`, a number of 32 bits. -/
def maxOutput : ℕ := c.picks.sum % 2 ^ 32

/-- `std::numeric_limits<IdType>::max()` -/
def maxId : ℕ := 2 ^ (c.csr.bits - 1) - 1

lemma length_picks : c.picks.length = c.numRows := by
  rw [picks, List.length_map, List.length_take]
  exact min_eq_left (Nat.mod_le _ _)

/-- `CSRRowWiseSamplingUniform`: what the cores have done. -/
def csrRowWiseSamplingUniform : Except CheckFailure (List (Ub × ℕ × List (ℕ × ℕ))) :=
  if c.nothing then .ok []
  else if c.maxId < c.maxOutput then .error (.outputSize c.maxOutput)
  else if c.maxOutput = 0 then .ok []
  else
    let rowSplit := (balancedSplit c.picks d.cores_pos).bound
    .ok ((List.range d.cores).map fun block =>
      (c.launch (c.window d)).processPlain (rowSplit block) (rowSplit (block + 1))
        ((c.picks.take (rowSplit block)).sum % 2 ^ 32) (d.fresh block))

/-- `CSRRowWiseSamplingUniformFused`: how far the cores have come. -/
def csrRowWiseSamplingUniformFused (fuel : ℕ) : Except CheckFailure (List (Except Block Block)) :=
  if c.mapSeedNodes ∧ c.mappingBits ≠ c.csr.bits then
    .error (.mappingType c.mappingBits c.csr.bits)
  else if c.nothing then .ok []
  else if c.replaces ∧ c.windowFused d < c.fanout then .error (.fanout c.fanout (c.windowFused d))
  else if c.maxId < c.maxOutput then .error (.outputSize c.maxOutput)
  else if 2 ^ 32 ≤ c.rows.length then .error (.seedRows c.rows.length)
  else if 2 ^ 32 ≤ c.csr.numRows then .error (.csrRows c.csr.numRows)
  else if c.maxOutput = 0 then .ok []
  else
    let rowSplit := (Prep.rowSplit c.picks d.coresFused_pos).bound
    .ok ((List.range d.coresFused).map fun block =>
      (c.launch (c.windowFused d)).processFused fuel (rowSplit block) (rowSplit (block + 1))
        ((Prep.startsLocal c.picks d.coresFused).getD block 0) (d.fresh block))

end UniformCall

end DglAscend.Ascend
