import DglAscend.Ascend.BiasedBuckets
import DglAscend.Ascend.Csr

/-!
# Biased sampling

`CSRRowWiseSamplingBiased`: a first kernel counts the picks of every seed, the host gives every seed
its part of the output by these counts, and a second kernel draws the edges.  The first one reads the
tag offsets as they are, the second one clamps them to the row.
-/

namespace DglAscend.Ascend.Biased

/-- A row, a column and an edge id. -/
abbrev Pick := ℤ × ℕ × ℕ

/-- A call that comes to the kernels.  `windowElems` is what `Init` gets from the unified buffer. -/
structure Call where
  csr : Csr
  data : Option (List ℕ)
  seeds : List ℤ
  numSamples : ℤ
  tagOffset : List ℤ
  biasGiven : List ℚ
  replaceGiven : Bool
  idMax : ℕ
  windowElems : ℕ
  data_length : ∀ d ∈ data, d.length = csr.indices.length
  tagOffset_length : tagOffset.length = csr.numRows * (biasGiven.length + 1)
  numTags_le : biasGiven.length ≤ 1024
  numSamples_ne : numSamples ≠ 0

/-- What a row of a run does not say: `RandFloat01`, the words of `Xorshift32`, and what is in the
windows behind what has been copied there. -/
structure Draws where
  unit : ℕ → ℚ
  word : ℕ → ℕ → BitVec 32
  staleIdx : ℕ → ℕ
  staleData : ℕ → ℕ
  unit_nonneg : ∀ d, 0 ≤ unit d
  unit_le : ∀ d, unit d ≤ 1

/-- `static_cast<uint32_t>` of an id. -/
def idU32 (v : ℤ) : ℕ := (v % 2 ^ 32).toNat

/-- `RandBelow` -/
def randBelow (word : BitVec 32) (n : ℕ) : ℕ := if n = 0 then 0 else word.toNat * n / 2 ^ 32

/-- `ClampTag` -/
def clampTag (v : ℤ) (deg : ℕ) : ℕ := if v < 0 then 0 else if (deg : ℤ) < v then deg else v.toNat

namespace Call

variable (c : Call)

/-! ## The host -/

def numTags : ℕ := c.biasGiven.length

def selectAll : Bool := c.numSamples = -1

def replace : Bool := c.replaceGiven && !c.selectAll

def fanout : ℕ := if c.selectAll then 0 else idU32 c.numSamples

/-- `BiasToHostClamped` -/
def bias (t : ℕ) : ℚ := if 0 ≤ c.biasGiven.getD t 0 then c.biasGiven.getD t 0 else 0

def numTotalRows : ℕ := u32 c.csr.numRows

/-- A seed that both kernels take. -/
def Valid (rid : ℤ) : Prop := 0 ≤ rid ∧ rid < c.numTotalRows

instance (rid : ℤ) : Decidable (c.Valid rid) := inferInstanceAs (Decidable (_ ∧ _))

/-! ## Counting picks -/

/-- `row_base` -/
def rowBase (rid : ℤ) : ℕ := u32 (idU32 rid * (c.numTags + 1))

/-- `tag_offset_gm_.GetValue(k)` -/
def tagAt (k : ℕ) : ℤ := c.tagOffset.getD k 0

/-- What bucket `t` adds to `nnz` in the first kernel, whose sums are in `uint32_t`. -/
def rawCount (rid : ℤ) (t : ℕ) : ℕ :=
  if 0 < c.bias t then
    let lo := idU32 (c.tagAt (u32 (c.rowBase rid + t)))
    let hi := idU32 (c.tagAt (u32 (c.rowBase rid + t + 1)))
    if hi < lo then 0 else hi - lo
  else 0

/-- `KernelCsrRowWiseSamplingBiasedNumPicks` -/
def numPicks (rid : ℤ) : ℕ :=
  if c.Valid rid then
    let nnz := u32 ((List.range c.numTags).map (c.rawCount rid)).sum
    if c.selectAll then nnz
    else if c.replace then (if nnz = 0 then 0 else c.fanout)
    else if nnz < c.fanout then nnz else c.fanout
  else 0

/-- `out_starts` -/
def outStarts (i : ℕ) : ℕ := u32 ((c.seeds.take i).map c.numPicks).sum

/-- The check of the size of the output fails. -/
def Refused : Prop := c.idMax < c.outStarts c.seeds.length

/-! ## Drawing edges -/

/-- The state of a row while edges are drawn, and what `DrawBucket` has been called with and has
returned. -/
structure Row where
  buckets : List Bucket
  winIdx : ℕ → ℕ
  out : List Pick
  calls : List (List Bucket × Option ℕ)

/-- `off` -/
def off (rid : ℤ) : ℕ := c.csr.ptr rid.toNat

/-- `deg` -/
def deg (rid : ℤ) : ℕ := u32 (c.csr.ptr (rid.toNat + 1) - c.off rid)

/-- `LoadTagBounds`, with the heads of the buckets. -/
def buckets (rid : ℤ) : List Bucket :=
  (List.range c.numTags).map fun t =>
    let lo := clampTag (c.tagAt (c.rowBase rid + t)) (c.deg rid)
    let hi := clampTag (c.tagAt (c.rowBase rid + (t + 1))) (c.deg rid)
    ⟨lo, if hi < lo then 0 else hi - lo, c.bias t⟩

/-- A window after a row has been copied there. -/
def window (xs : List ℕ) (stale : ℕ → ℕ) (rid : ℤ) (k : ℕ) : ℕ :=
  if k < c.deg rid then xs.getD (c.off rid + k) 0 else stale k

/-- `WritePickLocal` -/
def pickLocal (r : Draws) (rid : ℤ) (winIdx : ℕ → ℕ) (k : ℕ) : Pick :=
  (rid, winIdx k, match c.data with
    | some d => c.window d r.staleData rid k
    | none => c.off rid + k)

/-- `WritePickGm` -/
def pickGm (rid : ℤ) (picked : ℕ) : Pick :=
  (rid, c.csr.indices.getD (u32 picked) 0, match c.data with
    | some d => d.getD (u32 picked) 0
    | none => picked)

/-- `take_all` -/
def takeAll (rid : ℤ) (numPicks : ℕ) : Bool :=
  c.selectAll || (!c.replace && u32 ((c.buckets rid).map Bucket.rem).sum ≤ numPicks)

/-- The loops over all edges of the buckets that have a bias. -/
def allPicks (pick : ℕ → Pick) (bs : List Bucket) : List Pick :=
  (bs.filter fun b => 0 < b.bias).flatMap fun b => (List.range b.rem).map fun k => pick (b.head + k)

/-- The loop over the picks, from pick `d` on: `write` is what follows a call of `DrawBucket`. -/
def drawPicks (write : ℕ → ℕ → Row → Row) (r : Draws) : ℕ → ℕ → Row → Row
  | 0, _, s => s
  | left + 1, d, s =>
      let answer := drawBucket s.buckets (r.unit d)
      let s' := { s with calls := s.calls ++ [(s.buckets, answer)] }
      match answer with
      | none => s'
      | some t => drawPicks write r left (d + 1) (write t d s')

/-- What both paths do to the buckets. -/
def shrink (t : ℕ) (bs : List Bucket) : List Bucket :=
  if c.replace then bs else bs.modify t Bucket.less

/-- A pick from bucket `t` in UB: the drawn place is swapped with the last one of the bucket. -/
def writeLocal (r : Draws) (rid : ℤ) (t d : ℕ) (s : Row) : Row :=
  let b := s.buckets.getD t noBucket
  let j := randBelow (r.word d 0) b.rem
  let tail := u32 (b.head + b.rem + (2 ^ 32 - 1))
  { s with
    out := s.out ++ [c.pickLocal r rid s.winIdx (b.head + j)]
    buckets := c.shrink t s.buckets
    winIdx :=
      if c.replace ∨ j = u32 (b.rem + (2 ^ 32 - 1)) then s.winIdx
      else Function.update (Function.update s.winIdx (b.head + j) (s.winIdx tail)) tail
        (s.winIdx (b.head + j)) }

/-- The edge id of an earlier pick is the position. -/
def taken (out : List Pick) (pos : ℕ) : Bool := out.any fun e => e.2.2 = pos

/-- The loop `while (dup && tries < r)`: the place, and whether it is still a duplicate. -/
def redraw (out : List Pick) (start r : ℕ) (word : ℕ → BitVec 32) : ℕ → ℕ → ℕ → ℕ × Bool
  | 0, _, j => (j, true)
  | left + 1, tries, j =>
      if taken out (start + j) then
        redraw out start r word left (tries + 1) (randBelow (word (tries + 1)) r)
      else (j, false)

/-- The place in a bucket of `r` edges from position `start` on, without replacement. -/
def dedup (out : List Pick) (start r : ℕ) (word : ℕ → BitVec 32) : ℕ :=
  let x := redraw out start r word r 0 (randBelow (word 0) r)
  if x.2 then ((List.range r).find? fun k => !taken out (start + k)).getD x.1 else x.1

/-- A pick from bucket `t` in global memory. -/
def writeGm (r : Draws) (rid : ℤ) (t d : ℕ) (s : Row) : Row :=
  let b := s.buckets.getD t noBucket
  let j :=
    if c.replace then randBelow (r.word d 0) b.rem
    else dedup s.out (c.off rid + b.head) b.rem (r.word d)
  { s with
    out := s.out ++ [c.pickGm rid (c.off rid + (b.head + j))]
    buckets := c.shrink t s.buckets }

/-- What comes out of the sampling of a row: the triples that go to the output, by how much `offset`
moves on, and the calls of `DrawBucket`. -/
structure Sampled where
  out : List Pick
  written : ℕ
  calls : List (List Bucket × Option ℕ)

/-- `SampleRowThroughUb`: of the staged triples `num_picks` are copied out. -/
def sampleRowThroughUb (r : Draws) (rid : ℤ) (numPicks : ℕ) : Sampled :=
  let winIdx := c.window c.csr.indices r.staleIdx rid
  if c.takeAll rid numPicks then
    ⟨(allPicks (c.pickLocal r rid winIdx) (c.buckets rid)).take numPicks, numPicks, []⟩
  else
    let s := drawPicks (c.writeLocal r rid) r numPicks 0 ⟨c.buckets rid, winIdx, [], []⟩
    ⟨s.out.take numPicks, numPicks, s.calls⟩

/-- `SampleRowDirectGm` -/
def sampleRowDirectGm (r : Draws) (rid : ℤ) (numPicks : ℕ) : Sampled :=
  if c.takeAll rid numPicks then
    let out := allPicks (fun k => c.pickGm rid (c.off rid + k)) (c.buckets rid)
    ⟨out, out.length, []⟩
  else
    let s := drawPicks (c.writeGm r rid) r numPicks 0 ⟨c.buckets rid, r.staleIdx, [], []⟩
    ⟨s.out, numPicks, s.calls⟩

/-- The row is sampled in UB. -/
def ThroughUb (rid : ℤ) (numPicks : ℕ) : Prop := c.deg rid ≤ c.windowElems ∧ numPicks ≤ c.windowElems

instance (rid : ℤ) (numPicks : ℕ) : Decidable (c.ThroughUb rid numPicks) :=
  inferInstanceAs (Decidable (_ ∧ _))

/-- `SampleRow` -/
def sampleRow (r : Draws) (rid : ℤ) (numPicks : ℕ) : Sampled :=
  if c.ThroughUb rid numPicks then c.sampleRowThroughUb r rid numPicks
  else c.sampleRowDirectGm r rid numPicks

/-- What the second kernel does with seed `i`: `row_picks` is the difference of two entries of
`out_starts`.  It is not launched when the output is empty. -/
def sampled (r : Draws) (i : ℕ) : Sampled :=
  let rid := c.seeds.getD i (-1)
  let rowPicks := u32 (c.outStarts (i + 1) + (2 ^ 32 - c.outStarts i))
  if c.outStarts c.seeds.length = 0 ∨ ¬c.Valid rid ∨ rowPicks = 0 then ⟨[], 0, []⟩
  else c.sampleRow r rid rowPicks

end Call

end DglAscend.Ascend.Biased
