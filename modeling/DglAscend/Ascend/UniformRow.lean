import DglAscend.Aten.SparseMatrix
import DglAscend.Lib.Loops

/-!
# Sampling a row

The part of `csr_row_wise_sampling_uniform_fused_kernel.cpp` that samples one row: the whole row in
UB when it fits the window, else window by window.  `csr_row_wise_sampling_uniform_kernel.cpp` has the
same code for rows in UB.  Numbers of type `uint32_t` are reduced where they can wrap around.
-/

namespace DglAscend.Ascend

open Aten

/-! ## Random numbers -/

/-- `Xorshift32Fused` -/
def xorshift32 (x : BitVec 32) : BitVec 32 :=
  let x := x ^^^ (x <<< 13)
  let x := x ^^^ (x >>> 17)
  x ^^^ (x <<< 5)

/-- `RandBelowFused`: the number and the next state. -/
def randBelow (state : BitVec 32) (n : ℕ) : ℕ × BitVec 32 :=
  if n = 0 then (0, state)
  else
    let r := xorshift32 state
    (r.toNat * n / 2 ^ 32, r)

lemma randBelow_lt {state : BitVec 32} {n : ℕ} (hn : 0 < n) : (randBelow state n).1 < n := by
  rw [randBelow, if_neg hn.ne']
  apply Nat.div_lt_of_lt_mul
  exact Nat.mul_lt_mul_of_pos_right (xorshift32 state).isLt hn

/-! ## Buffers -/

/-- What goes into a place of the three output arrays: row, column and edge id. -/
abbrev Pick := ℕ × ℕ × ℕ

/-- `pick_buf_` and the staging buffers `out_r_buf_`, `out_c_buf_` and `out_e_buf_`, with the places
that have been written, the state of the random numbers and what has gone to the output arrays. -/
structure Ub where
  rng : BitVec 32
  picks : ℕ → ℕ
  pickWrites : List ℕ
  staged : ℕ → Pick
  stageWrites : List ℕ
  out : List (ℕ × Pick)

namespace Ub

variable (u : Ub)

/-- `RandBelowFused(state, n)` -/
def rand (n : ℕ) : ℕ × Ub :=
  let r := randBelow u.rng n
  (r.1, { u with rng := r.2 })

/-- `picks.SetValue(j, v)` -/
def setPick (j v : ℕ) : Ub :=
  { u with picks := Function.update u.picks j v, pickWrites := u.pickWrites ++ [j] }

/-- `out_r.SetValue(j, …); out_c.SetValue(j, …); out_e.SetValue(j, …)` -/
def stage (j : ℕ) (e : Pick) : Ub :=
  { u with staged := Function.update u.staged j e, stageWrites := u.stageWrites ++ [j] }

/-- `CopyOutStaged` of the three buffers. -/
def copyOut (outPos count : ℕ) : Ub :=
  { u with out := u.out ++ (List.range count).map fun j => (outPos + j, u.staged j) }

/-- `picks[0 .. n)` -/
def picked (n : ℕ) : List ℕ := (List.range n).map u.picks

end Ub

/-! ## The sampler -/

/-- The fields of the kernel that the sampling of a row reads. -/
structure Sampler where
  replace : Bool
  selectAll : Bool
  windowElems : ℕ
  csr : CSRMatrix

/-- The arguments of `SampleRow`; `row` is what goes into the row array. -/
structure RowTask where
  outPos : ℕ
  row : ℕ
  off : ℕ
  deg : ℕ
  numPicks : ℕ

/-- `DataCopyPad` of `count` elements from `off` on. -/
def window (xs : List ℕ) (off count : ℕ) : List ℕ := (List.range count).map fun j => xs.getD (off + j) 0

namespace Sampler

variable (s : Sampler) (a : RowTask)

/-- Every edge of the row is picked. -/
def takesAll : Bool := s.selectAll || (!s.replace && a.numPicks = a.deg)

/-- `num_picks` of a row. -/
def numPicks (numSamples deg : ℕ) : ℕ :=
  if 0 < deg then
    if s.selectAll then deg else if s.replace then numSamples else min deg numSamples
  else 0

/-- `picks.SetValue(j, j)` for every pick. -/
def seedPicks (u : Ub) : Ub := (List.range a.numPicks).foldl (fun u j => u.setPick j j) u

/-- Every pick is drawn. -/
def drawPicks (u : Ub) : Ub :=
  (List.range a.numPicks).foldl (fun u j =>
    let r := u.rand a.deg
    r.2.setPick j r.1) u

/-- Element `k` is offered to the reservoir. -/
def offer (u : Ub) (k : ℕ) : Ub :=
  let r := u.rand (k + 1)
  if r.1 < a.numPicks then r.2.setPick r.1 k else r.2

/-- `SampleRowThroughUb`. -/
def sampleRowThroughUb (u : Ub) : Ub :=
  let winIdx := window s.csr.indices a.off a.deg
  let winData := window s.csr.data a.off a.deg
  let u :=
    if s.takesAll a then seedPicks a u
    else if s.replace then drawPicks a u
    else (List.range' a.numPicks (a.deg - a.numPicks)).foldl (offer a) (seedPicks a u)
  let u := (List.range a.numPicks).foldl (fun u j =>
    let l := u.picks j
    u.stage j (a.row, winIdx.getD l 0, if s.csr.hasData then winData.getD l 0 else a.off + l)) u
  u.copyOut a.outPos a.numPicks

/-- `EmitWindow`: all edges of the window, or those that are picked. -/
def emitWindow (outPos base chunk : ℕ) (all : Bool) (u : Ub) : ℕ × Ub :=
  let winIdx := window s.csr.indices (a.off + base) chunk
  let winData := window s.csr.data (a.off + base) chunk
  let staged :=
    if all then
      (chunk, (List.range chunk).foldl (fun u j => u.stage j
        (a.row, winIdx.getD j 0, if s.csr.hasData then winData.getD j 0 else a.off + base + j)) u)
    else
      (List.range a.numPicks).foldl (fun (eu : ℕ × Ub) p =>
        let idx := eu.2.picks p
        if base ≤ idx ∧ idx < base + chunk then
          (eu.1 + 1, eu.2.stage eu.1 (a.row, winIdx.getD (idx - base) 0,
            if s.csr.hasData then winData.getD (idx - base) 0 else a.off + idx))
        else eu) (0, u)
  (staged.1, if 0 < staged.1 then staged.2.copyOut outPos staged.1 else staged.2)

/-- The size of the window at `base`. -/
def chunkAt (base : ℕ) : ℕ := if a.deg - base < s.windowElems then a.deg - base else s.windowElems

/-- A step of the loop that emits all edges: `emitted` and `out_pos`. -/
def emitAllStep (x : ℕ × ℕ × Ub) : ℕ × ℕ × Ub :=
  let chunk := s.chunkAt a x.1
  let r := s.emitWindow a x.2.1 x.1 chunk true x.2.2
  (x.1 + r.1, (x.2.1 + chunk) % 2 ^ 32, r.2)

/-- A step of the loop that emits the picks: `base`, `emitted` and `out_pos`. -/
def emitStep (x : ℕ × ℕ × ℕ × Ub) : ℕ × ℕ × ℕ × Ub :=
  let r := s.emitWindow a x.2.2.1 x.1 (s.chunkAt a x.1) false x.2.2.2
  ((x.1 + s.windowElems) % 2 ^ 32, x.2.1 + r.1, (x.2.2.1 + r.1) % 2 ^ 32, r.2)

/-- The loop that emits the picks. -/
def emitPicks (fuel : ℕ) (u : Ub) : Except Ub Ub :=
  project (fun x : ℕ × ℕ × ℕ × Ub => x.2.2.2)
    (whileLoop (fun x => decide (x.1 < a.deg) && decide (x.2.1 < a.numPicks)) (s.emitStep a) fuel
      (0, 0, a.outPos, u))

/-- A step of the loop that offers the elements of the row to the reservoir: `base` and `consumed`. -/
def offerStep (x : ℕ × ℕ × Ub) : ℕ × ℕ × Ub :=
  let stop := x.1 + s.chunkAt a x.1
  if x.2.1 < stop then
    ((x.1 + s.windowElems) % 2 ^ 32, stop,
      (List.range' x.2.1 (stop - x.2.1)).foldl (offer a) x.2.2)
  else ((x.1 + s.windowElems) % 2 ^ 32, x.2)

/-- `SampleRowSegmented`. -/
def sampleRowSegmented (fuel : ℕ) (u : Ub) : Except Ub Ub :=
  if s.takesAll a then
    project (fun x : ℕ × ℕ × Ub => x.2.2)
      (whileLoop (fun x => decide (x.1 < a.deg)) (s.emitAllStep a) fuel (0, a.outPos, u))
  else if s.replace then s.emitPicks a fuel (drawPicks a u)
  else do
    let u ← project (fun x : ℕ × ℕ × Ub => x.2.2)
      (whileLoop (fun x => decide (x.1 < a.deg)) (s.offerStep a) fuel
        (0, a.numPicks, seedPicks a u))
    s.emitPicks a fuel u

/-- `SampleRow`. -/
def sampleRow (fuel : ℕ) (u : Ub) : Except Ub Ub :=
  if a.deg ≤ s.windowElems then .ok (s.sampleRowThroughUb a u) else s.sampleRowSegmented a fuel u

end Sampler

end DglAscend.Ascend
