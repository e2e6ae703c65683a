import DglAscend.Ascend.UniformRow

/-!
# Blocks of the uniform samplers

`Process` of `csr_row_wise_sampling_uniform_fused_kernel.cpp` and of
`csr_row_wise_sampling_uniform_kernel.cpp`: a block samples the seed rows of its range.  The fused
kernel stages its prefix sums and seed pairs in UB and writes them out from time to time.
-/

namespace DglAscend.Ascend

open Aten

/-! ## Launches -/

/-- What a launch gives to the kernel. -/
structure UniformLaunch where
  sampler : Sampler
  numSamples : ℕ
  seed : BitVec 32
  rows : List ℤ
  mapSeedNodes : Bool

namespace UniformLaunch

variable (l : UniformLaunch)

/-- `kWindowInstancesFused` and `kUbInstances` -/
def windowInstances : ℕ := 2 * 2 + 2 * 2 + 2 * 2 + 1 + 3

/-- `kMetaRowsFused` -/
def metaRows : ℕ := 256

/-- `kMetaUbReserveFused` -/
def metaUbReserve : ℕ := ((metaRows + 1) + 2 * metaRows) * 8

/-- `window_elems_` of the plain kernel, for ids of `size` bytes. -/
def windowElemsPlain (ubAvailable size : ℕ) : ℕ := ubAvailable / windowInstances / size

/-- `window_elems_` of the fused kernel.  The difference is unsigned. -/
def windowElemsFused (ubAvailable size : ℕ) : ℕ :=
  (ubAvailable + (2 ^ 32 - metaUbReserve)) % 2 ^ 32 / windowInstances / size

/-- `num_total_rows_` -/
def numTotalRows : ℕ := l.sampler.csr.numRows % 2 ^ 32

/-- `rid_valid` -/
def ridValid (rid : ℤ) : Bool := 0 ≤ rid ∧ rid < l.numTotalRows

/-- `deg`, a difference of two pointers that is cut to 32 bits. -/
def degree (rid : ℤ) : ℕ :=
  (((l.sampler.csr.ptr (rid.toNat + 1) : ℤ) - l.sampler.csr.ptr rid.toNat) % 2 ^ 32).toNat

/-- `num_picks` of a seed row. -/
def rowPicks (rid : ℤ) : ℕ :=
  if l.ridValid rid then l.sampler.numPicks l.numSamples (l.degree rid) else 0

/-- The state of the random numbers of seed row `i`. -/
def rowState (i : ℕ) : BitVec 32 :=
  let state := l.seed ^^^ (BitVec.ofNat 32 i * 2654435761 + 0x9e3779b9)
  if state = 0 then 0x12345678 else state

/-- The arguments of `SampleRow` for seed row `i`; `row` is what goes into the row array. -/
def task (i row outPos : ℕ) : RowTask where
  outPos := outPos
  row := row
  off := l.sampler.csr.ptr (l.rows.getD i 0).toNat
  deg := l.degree (l.rows.getD i 0)
  numPicks := l.rowPicks (l.rows.getD i 0)

end UniformLaunch

/-! ## The fused kernel -/

/-- The buffers of a block with the staging of the prefix sums and of the seed pairs: the elements that
are staged, the places that have been written, what has been flushed and what has gone to the output
arrays. -/
structure Block where
  ub : Ub
  offset : ℕ
  outPtrStaged : ℕ
  outPtrLocal : ℕ → ℕ
  outPtrWrites : List ℕ
  outPtrFlushed : ℕ
  outPtr : List (ℕ × ℕ)
  pairsStaged : ℕ
  pairsLocal : ℕ → ℤ
  pairsWrites : List ℕ
  pairsFlushed : ℕ
  seedPairs : List (ℕ × ℤ)

namespace Block

variable (b : Block)

/-- `out_ptr_local.SetValue(out_ptr_staged, v); ++out_ptr_staged;` -/
def stagePtr (v : ℕ) : Block :=
  { b with
    outPtrLocal := Function.update b.outPtrLocal b.outPtrStaged v
    outPtrWrites := b.outPtrWrites ++ [b.outPtrStaged]
    outPtrStaged := b.outPtrStaged + 1 }

/-- The pair of a seed row is staged. -/
def stagePair (rid : ℤ) (i : ℕ) : Block :=
  { b with
    pairsLocal := Function.update (Function.update b.pairsLocal (2 * b.pairsStaged) rid)
      (2 * b.pairsStaged + 1) i
    pairsWrites := b.pairsWrites ++ [2 * b.pairsStaged, 2 * b.pairsStaged + 1]
    pairsStaged := b.pairsStaged + 1 }

/-- `FlushOutPtr` of what is staged. -/
def flushOutPtr (rowBegin : ℕ) : Block :=
  { b with
    outPtr := b.outPtr ++ (List.range b.outPtrStaged).map fun j =>
      (rowBegin + b.outPtrFlushed + j, b.outPtrLocal j)
    outPtrFlushed := b.outPtrFlushed + b.outPtrStaged
    outPtrStaged := 0 }

/-- `FlushSeedPairs` of what is staged. -/
def flushSeedPairs (rowBegin : ℕ) : Block :=
  { b with
    seedPairs := b.seedPairs ++ (List.range (2 * b.pairsStaged)).map fun j =>
      (2 * (rowBegin + b.pairsFlushed) + j, b.pairsLocal j)
    pairsFlushed := b.pairsFlushed + b.pairsStaged
    pairsStaged := 0 }

/-- A block before its first row. -/
def start (u : Ub) : Block where
  ub := u
  offset := 0
  outPtrStaged := 0
  outPtrLocal := fun _ => 0
  outPtrWrites := []
  outPtrFlushed := 0
  outPtr := []
  pairsStaged := 0
  pairsLocal := fun _ => 0
  pairsWrites := []
  pairsFlushed := 0
  seedPairs := []

end Block

namespace UniformLaunch

variable (l : UniformLaunch)

/-- The sampling of seed row `i` in `Process`. -/
def sampleSeed (fuel outStart i : ℕ) (b : Block) : Except Block Block :=
  let t := l.task i i ((outStart + b.offset) % 2 ^ 32)
  if 0 < t.numPicks then
    match l.sampler.sampleRow t fuel { b.ub with rng := l.rowState i } with
    | .error u => .error { b with ub := u }
    | .ok u => .ok { b with ub := u, offset := (b.offset + t.numPicks) % 2 ^ 32 }
  else .ok b

/-- The staging of seed row `i`. -/
def stageSeed (outStart i : ℕ) (b : Block) : Block :=
  let b := b.stagePtr ((outStart + b.offset) % 2 ^ 32)
  if l.mapSeedNodes then b.stagePair (l.rows.getD i 0) i else b

/-- What is staged is flushed when `meta_rows_` rows are. -/
def flushFull (rowBegin : ℕ) (b : Block) : Block :=
  let b := if metaRows ≤ b.outPtrStaged then b.flushOutPtr rowBegin else b
  if metaRows ≤ b.pairsStaged then b.flushSeedPairs rowBegin else b

/-- A turn of the loop of `Process`. -/
def processRow (fuel rowBegin outStart : ℕ) (b : Block) (i : ℕ) : Except Block Block := do
  let b ← l.sampleSeed fuel outStart i (l.stageSeed outStart i b)
  .ok (flushFull rowBegin b)

/-- `Process` of the fused kernel for the block with the rows from `rowBegin` to `rowEnd`. -/
def processFused (fuel rowBegin rowEnd outStart : ℕ) (u : Ub) : Except Block Block :=
  if rowEnd ≤ rowBegin then .ok (Block.start u)
  else do
    let b ← (List.range' rowBegin (rowEnd - rowBegin)).foldlM (l.processRow fuel rowBegin outStart)
      (Block.start u)
    let b := (b.stagePtr ((outStart + b.offset) % 2 ^ 32)).flushOutPtr rowBegin
    .ok (if 0 < b.pairsStaged then b.flushSeedPairs rowBegin else b)

/-! ## The plain kernel -/

/-- `WritePickGm`: places of the arrays are cut to 32 bits. -/
def gmEdge (t : RowTask) (p : ℕ) : Pick :=
  (t.row, l.sampler.csr.indices.getD ((t.off + p) % 2 ^ 32) 0,
    if l.sampler.csr.hasData then l.sampler.csr.data.getD ((t.off + p) % 2 ^ 32) 0 else t.off + p)

/-- The picks of `SampleRowDirectGm`, with the state of the random numbers. -/
def gmPicks (t : RowTask) (rng : BitVec 32) : BitVec 32 × (ℕ → ℕ) :=
  if l.sampler.takesAll t then (rng, id)
  else if l.sampler.replace then
    (List.range t.numPicks).foldl (fun x j =>
      let r := randBelow x.1 t.deg
      (r.2, Function.update x.2 j r.1)) (rng, id)
  else
    (List.range' t.numPicks (t.deg - t.numPicks)).foldl (fun x k =>
      let r := randBelow x.1 (k + 1)
      (r.2, if r.1 < t.numPicks then Function.update x.2 r.1 k else x.2)) (rng, id)

/-- `SampleRowDirectGm`: the row is read and written without UB. -/
def sampleRowDirectGm (t : RowTask) (u : Ub) : Ub :=
  let x := l.gmPicks t u.rng
  { u with
    rng := x.1
    out := u.out ++ (List.range t.numPicks).map fun j => (t.outPos + j, l.gmEdge t (x.2 j)) }

/-- `SampleRow` of the plain kernel. -/
def sampleRowPlain (t : RowTask) (u : Ub) : Ub :=
  if t.deg ≤ l.sampler.windowElems then l.sampler.sampleRowThroughUb t u
  else l.sampleRowDirectGm t u

/-- A turn of the loop of `Process`: the buffers, `offset` and the entries of `out_ptr`. -/
def processRowPlain (outStart : ℕ) (x : Ub × ℕ × List (ℕ × ℕ)) (i : ℕ) : Ub × ℕ × List (ℕ × ℕ) :=
  let outPtr := x.2.2 ++ [(i, (outStart + x.2.1) % 2 ^ 32)]
  let t := l.task i (l.rows.getD i 0).toNat ((outStart + x.2.1) % 2 ^ 32)
  if 0 < t.numPicks then
    (l.sampleRowPlain t { x.1 with rng := l.rowState i }, (x.2.1 + t.numPicks) % 2 ^ 32, outPtr)
  else (x.1, x.2.1, outPtr)

/-- `Process` of the plain kernel for the block with the rows from `rowBegin` to `rowEnd`. -/
def processPlain (rowBegin rowEnd outStart : ℕ) (u : Ub) : Ub × ℕ × List (ℕ × ℕ) :=
  if rowEnd ≤ rowBegin then (u, 0, [])
  else
    let x := (List.range' rowBegin (rowEnd - rowBegin)).foldl (l.processRowPlain outStart) (u, 0, [])
    if rowEnd = l.rows.length then
      (x.1, x.2.1, x.2.2 ++ [(l.rows.length, (outStart + x.2.1) % 2 ^ 32)])
    else x

end UniformLaunch

end DglAscend.Ascend
