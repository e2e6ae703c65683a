import DglAscend.Lib.BucketOrder
import DglAscend.Lib.Slots

/-!
# Partitions of arrays

`partition/ndarray_partition.cc` with the operations of `partition/ascend/partition_op.cc`, in a
build for Ascend.  Host code may read and write the data of an array only if the array lies in host
memory.
-/

namespace DglAscend.Partition

/-- `DGLContext`. -/
inductive Context
  | cpu
  | ascend (deviceId : ℕ)
  deriving DecidableEq, Repr

/-- How an operation fails: a `CHECK` or a `LOG(FATAL)`, or a device pointer that the host follows. -/
inductive Failure
  | fatal
  | deviceAccess
  deriving DecidableEq, Repr

/-- `IdArray`. -/
structure IdArray where
  ctx : Context
  elems : List ℤ
  deriving DecidableEq, Repr

/-- `CopyTo`. -/
def IdArray.copyTo (a : IdArray) (ctx : Context) : IdArray := ⟨ctx, a.elems⟩

/-- Writing through the data pointer. -/
def IdArray.store (a : IdArray) (elems : List ℤ) : Except Failure IdArray :=
  if a.ctx = .cpu then .ok ⟨.cpu, elems⟩ else .error .deviceAccess

lemma IdArray.store_cpu {a : IdArray} (h : a.ctx = .cpu) (elems : List ℤ) :
    a.store elems = .ok ⟨.cpu, elems⟩ := if_pos h

lemma IdArray.store_device {a : IdArray} (h : a.ctx ≠ .cpu) (elems : List ℤ) :
    a.store elems = .error .deviceAccess := if_neg h

/-- `aten::Range`. -/
def range (low high : ℕ) (ctx : Context) : IdArray :=
  ⟨ctx, (List.range' low (high - low)).map fun (i : ℕ) => (i : ℤ)⟩

/-- `aten::Full`. -/
def full (val : ℤ) (length : ℕ) (ctx : Context) : IdArray := ⟨ctx, List.replicate length val⟩

/-! ## The loops on the host -/

/-- `MapProcByRemainderCpu`. -/
def mapProcByRemainderCpu (numParts : ℕ) (id : ℤ) : ℤ := id.tmod numParts

/-- `MapLocalIndexByRemainderCpu`. -/
def mapLocalIndexByRemainderCpu (numParts : ℕ) (id : ℤ) : ℤ := id.tdiv numParts

/-- `MapGlobalIndexByRemainderCpu`. -/
def mapGlobalIndexByRemainderCpu (numParts partId : ℕ) (id : ℤ) : ℤ := id * numParts + partId

/-- The loop of `SearchRangeCpu`. -/
def searchRangeFrom (range : ℕ → ℤ) (target : ℤ) (start stop : ℕ) : ℕ :=
  let cur := (stop + start) / 2
  if start + 1 < stop then
    if target < range cur then searchRangeFrom range target start cur
    else searchRangeFrom range target cur stop
  else cur
termination_by stop - start

/-- `SearchRangeCpu`. -/
def searchRangeCpu (range : ℕ → ℤ) (numParts : ℕ) (target : ℤ) : ℕ :=
  searchRangeFrom range target 0 numParts

/-- `MapProcByRangeCpu`. -/
def mapProcByRangeCpu (range : ℕ → ℤ) (numParts : ℕ) (id : ℤ) : ℤ := searchRangeCpu range numParts id

/-- The data pointer of an array of bounds. -/
def IdArray.at (a : IdArray) (i : ℕ) : ℤ := a.elems.getD i 0

/-! ## The operations -/

/-- The positions, stably sorted by their parts. -/
def sortedPairs (procIds : List ℤ) : List (ℤ × ℕ) :=
  (procIds.zip (List.range procIds.length)).mergeSort fun a b => decide (a.1 ≤ b.1)

/-- The loop that counts the ids of each part. -/
def countProcs (procIds : List ℤ) : ℤ → ℤ :=
  procIds.foldl (fun counts p => Function.update counts p (counts p + 1)) fun _ => 0

/-- `GeneratePermutationFromRemainder` and `GeneratePermutationFromRange`, given the part of an id.
The counts are written through the data pointer of an array on the device of the ids. -/
def generatePermutation (mapProc : ℤ → ℤ) (numParts : ℕ) (inIdx : IdArray) :
    Except Failure (IdArray × IdArray) :=
  let numIn := inIdx.elems.length
  if numParts < 1 then .error .fatal
  else if numParts = 1 then .ok (range 0 numIn inIdx.ctx, full numIn numParts inIdx.ctx)
  else
    let counts := full 0 numParts inIdx.ctx
    if numIn = 0 then .ok (⟨inIdx.ctx, []⟩, counts)
    else do
      let procIds := inIdx.elems.map mapProc
      let pairs := sortedPairs procIds
      let outCounts := countProcs (pairs.map Prod.fst)
      let counts ← counts.store ((List.range numParts).map fun (p : ℕ) => outCounts p)
      let perm : IdArray := ⟨.cpu, pairs.map fun x => (x.2 : ℤ)⟩
      .ok (perm.copyTo inIdx.ctx, counts.copyTo inIdx.ctx)

/-- `GeneratePermutationFromRemainder`. -/
def generatePermutationFromRemainder (numParts : ℕ) (inIdx : IdArray) :
    Except Failure (IdArray × IdArray) :=
  generatePermutation (mapProcByRemainderCpu numParts) numParts inIdx

/-- `MapToLocalFromRemainder`. -/
def mapToLocalFromRemainder (numParts : ℕ) (globalIdx : IdArray) : IdArray :=
  if 1 < numParts then ⟨globalIdx.ctx, globalIdx.elems.map (mapLocalIndexByRemainderCpu numParts)⟩
  else globalIdx

/-- `MapToGlobalFromRemainder`. -/
def mapToGlobalFromRemainder (numParts : ℕ) (localIdx : IdArray) (partId : ℕ) :
    Except Failure IdArray :=
  if ¬partId < numParts then .error .fatal
  else if 1 < numParts then
    .ok ⟨localIdx.ctx, localIdx.elems.map (mapGlobalIndexByRemainderCpu numParts partId)⟩
  else .ok localIdx

/-- `GeneratePermutationFromRange`. -/
def generatePermutationFromRange (numParts : ℕ) (bounds inIdx : IdArray) :
    Except Failure (IdArray × IdArray) :=
  generatePermutation (mapProcByRangeCpu bounds.at numParts) numParts inIdx

/-! ## The classes -/

/-- `RemainderPartition` and `RangePartition`. -/
inductive Mode
  | remainder
  | range (bounds : IdArray)

/-- `NDArrayPartition`. -/
structure NDArrayPartition where
  arraySize : ℕ
  numParts : ℕ
  mode : Mode

/-- `CreatePartitionRemainderBased`. -/
def createPartitionRemainderBased (arraySize numParts : ℕ) : NDArrayPartition :=
  ⟨arraySize, numParts, .remainder⟩

/-- `CreatePartitionRangeBased`. -/
def createPartitionRangeBased (arraySize numParts : ℕ) (bounds : IdArray) :
    Except Failure NDArrayPartition :=
  if bounds.ctx = .cpu then .error .fatal else .ok ⟨arraySize, numParts, .range bounds⟩

namespace NDArrayPartition

variable (part : NDArrayPartition)

/-- `GeneratePermutation`. -/
def generatePermutation (inIdx : IdArray) : Except Failure (IdArray × IdArray) :=
  match part.mode, inIdx.ctx with
  | .remainder, .ascend _ => generatePermutationFromRemainder part.numParts inIdx
  | .range bounds, .ascend _ =>
    if inIdx.ctx ≠ bounds.ctx then .error .fatal
    else generatePermutationFromRange part.numParts bounds inIdx
  | _, .cpu => .error .fatal

/-- `MapToLocal`.  Ranges have a branch for CUDA only. -/
def mapToLocal (inIdx : IdArray) : Except Failure IdArray :=
  match part.mode, inIdx.ctx with
  | .remainder, .ascend _ => .ok (mapToLocalFromRemainder part.numParts inIdx)
  | .range _, .ascend _ => .error .fatal
  | _, .cpu => .error .fatal

/-- `MapToGlobal`.  Ranges have a branch for CUDA only. -/
def mapToGlobal (inIdx : IdArray) (partId : ℕ) : Except Failure IdArray :=
  match part.mode, inIdx.ctx with
  | .remainder, .ascend _ => mapToGlobalFromRemainder part.numParts inIdx partId
  | .range _, .ascend _ => .error .fatal
  | _, .cpu => .error .fatal

/-- `PartSize`. -/
def partSize (partId : ℕ) : Except Failure ℤ :=
  if ¬partId < part.numParts then .error .fatal
  else
    match part.mode with
    | .remainder => .ok (part.arraySize / part.numParts +
        if partId < part.arraySize % part.numParts then 1 else 0)
    | .range bounds => .ok (bounds.at (partId + 1) - bounds.at partId)

/-- The part of an id. -/
def owner (id : ℤ) : ℤ :=
  match part.mode with
  | .remainder => mapProcByRemainderCpu part.numParts id
  | .range bounds => mapProcByRangeCpu bounds.at part.numParts id

end NDArrayPartition

end DglAscend.Partition
