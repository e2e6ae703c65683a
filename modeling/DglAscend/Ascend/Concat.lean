import DglAscend.Ascend.UnifiedBuffer
import DglAscend.Aten.Slices
import DglAscend.Lib.DisjointWrites
import DglAscend.Lib.Loops
import DglAscend.Lib.RowMajor

/-!
# Concatenation on vector cores

`ConcatNDAscend` numbers the chunks of all inputs in a row: input by input, within an input by its
segments, and within a segment by their places.  A core takes a range of the numbers, looks for the input
of the first one by bisection, and copies chunk by chunk.  All numbers and places have 32 bits.
-/

namespace DglAscend.Ascend

open Aten

/-- A dense array with its elements in row-major order. -/
structure NDArray (α : Type) where
  shape : List ℕ
  data : List α
  deriving DecidableEq, Repr

/-- The element at an index. -/
def NDArray.get {α : Type} (a : NDArray α) (idx : List ℕ) : Option α := a.data[flat a.shape idx]?

/-- The element types that have a kernel. -/
inductive ConcatType
  | f32
  | f16
  | i32
  | i64
  deriving DecidableEq, Repr

/-- `sizeof(DType)` -/
def ConcatType.size : ConcatType → ℕ
  | f32 => 4
  | f16 => 2
  | i32 => 4
  | i64 => 8

/-- `CONCAT_CHUNK_BYTES` -/
def concatChunkBytes : ℕ := (192 * 1024 - 2 * 1024) / 2 / 32 * 32

/-- `chunk_elems` -/
def ConcatType.chunkElems (t : ConcatType) : ℕ := u32 (concatChunkBytes / t.size)

/-- `ConcatInputDesc`; the address stands for the elements there. -/
structure ConcatInputDesc (α : Type) where
  src : List α
  segElems : ℕ
  dstBase : ℕ
  chunksPerSeg : ℕ
  chunkBase : ℕ
  deriving DecidableEq, Repr

/-- `ConcatTilingData` -/
structure ConcatTilingData where
  inputCount : ℕ
  segCount : ℕ
  dstStride : ℕ
  chunkElems : ℕ
  totalChunks : ℕ
  chunksPerCore : ℕ
  deriving DecidableEq, Repr

/-- A launch of the kernel with its control block. -/
structure ConcatLaunch (α : Type) where
  blockDim : ℕ
  tiling : ConcatTilingData
  inputs : List (ConcatInputDesc α)
  deriving DecidableEq, Repr

section Host

variable {α : Type}

/-- `GetVectorCoreNum`, for what the device reports. -/
def getVectorCoreNum (reported : ℤ) : ℕ := if reported ≤ 0 then 48 else reported.toNat

/-- `inputs`, `total_chunks` and `prefix`. -/
structure ConcatInputs (α : Type) where
  inputs : List (ConcatInputDesc α)
  totalChunks : ℕ
  before : ℕ

/-- The body of the loop over the arrays. -/
def describeInput (axis inner segCount chunkElems : ℕ) (s : ConcatInputs α) (array : NDArray α) :
    Except Fault (ConcatInputs α) :=
  let len := array.shape.getD axis 0
  let segElems := u32 (len * inner)
  if segElems = 0 then .ok { s with before := s.before + len }
  else
    let chunksPerSeg := u32 ((segElems + chunkElems - 1) / chunkElems)
    if ¬ s.totalChunks ≤ 2 ^ 32 - 1 then .error .raised
    else .ok ⟨s.inputs ++ [⟨array.data, segElems, u32 (s.before * inner), chunksPerSeg,
      u32 s.totalChunks⟩], s.totalChunks + segCount * chunksPerSeg, s.before + len⟩

/-- The product of the dimensions before the axis. -/
def outerSize (shape : List ℕ) (axis : ℕ) : ℕ := (shape.take axis).prod

/-- The product of the dimensions behind the axis. -/
def innerSize (shape : List ℕ) (axis : ℕ) : ℕ := (shape.drop (axis + 1)).prod

/-- `ConcatNDAscend` up to the launch, for the shape of `out`.  Nothing is launched for no elements. -/
def concatND (arrays : List (NDArray α)) (shape : List ℕ) (axis : ℕ) (t : ConcatType) (reported : ℤ) :
    Except Fault (Option (ConcatLaunch α)) :=
  let inner := innerSize shape axis
  if shape.prod = 0 then .ok none
  else if ¬ shape.prod < 2 ^ 32 then .error .raised
  else if ¬ arrays.length ≤ 2 ^ 32 - 1 then .error .raised
  else do
    let segCount := u32 (outerSize shape axis)
    let s ← arrays.foldlM (describeInput axis inner segCount t.chunkElems) ⟨[], 0, 0⟩
    if ¬ s.totalChunks ≤ 2 ^ 32 - 1 then .error .raised
    else if s.inputs = [] then .error .raised
    else
      let blockDim := u32 (max 1 (min s.totalChunks (getVectorCoreNum reported)))
      return some ⟨blockDim, ⟨u32 s.inputs.length, segCount, u32 (shape.getD axis 0 * inner), t.chunkElems,
        u32 s.totalChunks, u32 ((s.totalChunks + blockDim - 1) / blockDim)⟩, s.inputs⟩

end Host

/-! ## `RunConcat` -/

namespace ConcatLaunch

variable {α : Type} (l : ConcatLaunch α)

/-- `startChunk` -/
def startChunk (block : ℕ) : ℕ := u32 (block * l.tiling.chunksPerCore)

/-- `endChunk` -/
def endChunk (block : ℕ) : ℕ :=
  min (u32 (l.startChunk block + l.tiling.chunksPerCore)) l.tiling.totalChunks

/-- `inputEnd` -/
def inputEnd (d : ConcatInputDesc α) : ℕ := u32 (d.chunkBase + u32 (l.tiling.segCount * d.chunksPerSeg))

/-- `inputs[i]` -/
def input (i : ℕ) : ConcatInputDesc α := l.inputs.getD i ⟨[], 0, 0, 0, 0⟩

/-- The body of the search. -/
def bisect (start : ℕ) (s : ℕ × ℕ) : ℕ × ℕ :=
  let mid := u32 (s.1 + s.2) / 2
  if l.inputEnd (l.input mid) ≤ start then (mid + 1, s.2) else (s.1, mid)

/-- A chunk of an input goes to the output. -/
def copyChunk (d : ConcatInputDesc α) (chunk : ℕ) : List (ℕ × Option α) :=
  let localChunk := chunk - d.chunkBase
  let seg := localChunk / d.chunksPerSeg
  let k := localChunk - seg * d.chunksPerSeg
  let inChunk := u32 (k * l.tiling.chunkElems)
  let remain := u32 (d.segElems + 2 ^ 32 - inChunk)
  let len := if remain < l.tiling.chunkElems then remain else l.tiling.chunkElems
  let srcOff := u32 (seg * d.segElems + inChunk)
  let dstOff := u32 (seg * l.tiling.dstStride + d.dstBase + inChunk)
  (List.range len).map fun e => (dstOff + e, d.src[srcOff + e]?)

/-- The body of the loop over the inputs, on `chunk` and what has been written. -/
def copyInput (stop : ℕ) (s : ℕ × List (ℕ × Option α)) (d : ConcatInputDesc α) :
    ℕ × List (ℕ × Option α) :=
  if ¬ s.1 < stop then s
  else
    let chunk := if s.1 < d.chunkBase then d.chunkBase else s.1
    let last := min stop (l.inputEnd d)
    (max chunk last, s.2 ++ (List.range' chunk (last - chunk)).flatMap (l.copyChunk d))

/-- `RunConcat`: what a core writes, if the search ends within the fuel. -/
def run (fuel block : ℕ) : Except (ℕ × ℕ) (List (ℕ × Option α)) :=
  if l.endChunk block ≤ l.startChunk block then .ok []
  else do
    let s ← whileLoop (fun s => decide (s.1 < s.2)) (l.bisect (l.startChunk block)) fuel
      (0, l.tiling.inputCount)
    return ((l.inputs.drop s.1).foldl (l.copyInput (l.endChunk block)) (l.startChunk block, [])).2

/-- The cores all return, and these are their writes. -/
def Returns (ws : List (ℕ × Option α)) : Prop :=
  ∃ fuel parts, (List.range l.blockDim).mapM (l.run fuel) = .ok parts ∧ ws = parts.flatten

end ConcatLaunch

/-! ## What is asked for -/

section Specification

variable {α : Type}

/-- The length of an array on the axis. -/
def axisLength (axis : ℕ) (a : NDArray α) : ℕ := a.shape.getD axis 0

/-- What `aten::ConcatND` has checked and computed: the shapes agree but for the axis, where the output
is as long as the arrays together. -/
structure Concatenable (arrays : List (NDArray α)) (shape : List ℕ) (axis : ℕ) : Prop where
  axis_lt : axis < shape.length
  shapes : ∀ a ∈ arrays, a.shape = shape.set axis (axisLength axis a)
  sum : shape.getD axis 0 = (arrays.map (axisLength axis)).sum
  data : ∀ a ∈ arrays, a.data.length = a.shape.prod

/-- The concatenation along the axis: an array begins there where the arrays before it end. -/
structure IsConcatenation (arrays : List (NDArray α)) (axis : ℕ) (out : NDArray α) : Prop where
  length : out.data.length = out.shape.prod
  elements : ∀ i a, arrays[i]? = some a → ∀ idx, Within a.shape idx →
    out.get (idx.set axis (((arrays.take i).map (axisLength axis)).sum + idx.getD axis 0)) = a.get idx

/-- Every element of the output is written once, with what concatenation puts there. -/
def WritesConcatenation (arrays : List (NDArray α)) (shape : List ℕ) (axis : ℕ)
    (call : Option (ConcatLaunch α)) : Prop :=
  ∃ out : List α, IsConcatenation arrays axis ⟨shape, out⟩ ∧
    match call with
    | none => out = []
    | some l => ∃ ws, l.Returns ws ∧ Fills ws (out.map some)

end Specification

end DglAscend.Ascend
