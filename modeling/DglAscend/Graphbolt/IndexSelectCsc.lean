import DglAscend.Graphbolt.IdHashMapProbes
import DglAscend.Lib.Loops
import DglAscend.Lib.Slots
import DglAscend.Lib.StdAlgorithms
import Mathlib.Algebra.Ring.Defs
import Mathlib.Data.BitVec

/-!
# Selecting the slices of nodes

`IndexSelectCSCBatched` of `graphbolt/src/index_select.cc` on the CPU: the slices of a list of nodes are
copied one behind the other, for several tensors of the edges at once, with the ids of the edges if
wanted.  The threads may write in any order.  The result is what slicing gives if and only if the number
of selected edges is a number of the type of `indptr` (`selectsSlices_iff`).
-/

namespace DglAscend.Graphbolt

/-- Why a selection does not return. -/
inductive SelectFailure
  | wrongOutputSize
  | negativeSize
  | outOfBounds
  deriving DecidableEq, Repr

variable {τ : IdType} {α : Type}

/-- The degree of a node, computed in the type of `indptr`. -/
def degreeOf (indptr : List (Id τ)) (node : ℕ) : Id τ := indptr.getD (node + 1) 0 - indptr.getD node 0

/-- `cumsum` in the type of `indptr`. -/
def cumsum : Id τ → List (Id τ) → List (Id τ)
  | _, [] => []
  | sum, d :: ds => (sum + d) :: cumsum (sum + d) ds

/-- `output_indptr` after `cumsum`. -/
def outputIndptr (indptr : List (Id τ)) (nodes : List ℕ) : List (Id τ) :=
  0 :: cumsum 0 (nodes.map (degreeOf indptr))

/-- What is copied for a node: where to, where from, and how many elements. -/
structure SliceCopy where
  outputOffset : ℤ
  inputOffset : ℤ
  numel : ℤ

/-- The copy for the `i`-th node. -/
def sliceCopy (indptr : List (Id τ)) (nodes : List ℕ) (i : ℕ) : SliceCopy where
  outputOffset := ((outputIndptr indptr nodes).getD i 0).toInt
  inputOffset := (indptr.getD (nodes.getD i 0) 0).toInt
  numel := ((outputIndptr indptr nodes).getD (i + 1) 0 - (outputIndptr indptr nodes).getD i 0).toInt

/-- The elements that a `std::memcpy` writes to an array of a size. -/
def SliceCopy.writes (c : SliceCopy) (size : ℕ) (input : List α) :
    Except SelectFailure (List (ℕ × α)) :=
  if 0 ≤ c.numel ∧ 0 ≤ c.outputOffset ∧ c.outputOffset + c.numel ≤ size ∧ 0 ≤ c.inputOffset ∧
      c.inputOffset + c.numel ≤ input.length then
    .ok (((input.drop c.inputOffset.toNat).take c.numel.toNat).zipIdx.map fun w =>
      (c.outputOffset.toNat + w.2, w.1))
  else .error .outOfBounds

/-- The elements that `std::iota` writes for the ids of the edges. -/
def SliceCopy.edgeIdWrites (τ : IdType) (c : SliceCopy) (size : ℕ) :
    Except SelectFailure (List (ℕ × Id τ)) :=
  if 0 ≤ c.numel ∧ 0 ≤ c.outputOffset ∧ c.outputOffset + c.numel ≤ size then
    .ok ((List.range c.numel.toNat).map fun k =>
      (c.outputOffset.toNat + k, BitVec.ofInt τ.bits (c.inputOffset + k)))
  else .error .outOfBounds

/-- A tensor that the threads fill in some order; `memory` is what it holds before. -/
def fillTensor {β : Type} (order : AnyOrder (ℕ × β)) (memory : ℕ → β) (size : ℕ)
    (writes : List (List (ℕ × β))) : List β :=
  applyWrites ((List.range size).map memory) (order.run writes.flatten)

/-- The orders of the writes, and what the tensors hold before. -/
structure SelectRun (τ : IdType) (α : Type) where
  order : ℕ → AnyOrder (ℕ × α)
  memory : ℕ → ℕ → α
  edgeOrder : AnyOrder (ℕ × Id τ)
  edgeMemory : ℕ → Id τ

/-- `output_indptr`, the tensors and `edge_ids`. -/
structure CscSelection (τ : IdType) (α : Type) where
  outputIndptr : List (Id τ)
  results : List (List α)
  edgeIds : Option (List (Id τ))

/-- The copies of one tensor. -/
def selectTensor (order : AnyOrder (ℕ × α)) (memory : ℕ → α) (indptr : List (Id τ)) (nodes : List ℕ)
    (size : ℕ) (input : List α) : Except SelectFailure (List α) := do
  let writes ← (List.range nodes.length).mapM fun i => (sliceCopy indptr nodes i).writes size input
  .ok (fillTensor order memory size writes)

/-- The ids of the edges. -/
def selectEdgeIds (order : AnyOrder (ℕ × Id τ)) (memory : ℕ → Id τ) (indptr : List (Id τ))
    (nodes : List ℕ) (size : ℕ) : Except SelectFailure (List (Id τ)) := do
  let writes ← (List.range nodes.length).mapM fun i => (sliceCopy indptr nodes i).edgeIdWrites τ size
  .ok (fillTensor order memory size writes)

/-- `IndexSelectCSCBatched` -/
def indexSelectCscBatched (run : SelectRun τ α) (indptr : List (Id τ)) (indicesList : List (List α))
    (nodes : List ℕ) (withEdgeIds : Bool) (outputSize : Option ℤ) :
    Except SelectFailure (CscSelection τ α) :=
  let size := ((outputIndptr indptr nodes).getD nodes.length 0).toInt
  if outputSize.any (· ≠ size) then .error .wrongOutputSize
  else if size < 0 then .error .negativeSize
  else do
    let results ← indicesList.zipIdx.mapM fun w =>
      selectTensor (run.order w.2) (run.memory w.2) indptr nodes size.toNat w.1
    let edgeIds ← if withEdgeIds then
        (selectEdgeIds run.edgeOrder run.edgeMemory indptr nodes size.toNat).map some
      else .ok none
    .ok ⟨outputIndptr indptr nodes, results, edgeIds⟩

/-! ## Slicing -/

/-- The boundaries of the slices of a graph with `numEdges` edges. -/
structure CscIndptr (indptr : List (Id τ)) (numEdges : ℕ) : Prop where
  nonneg : ∀ p ∈ indptr, 0 ≤ p.toInt
  mono : ∀ n, n + 1 < indptr.length → (indptr.getD n 0).toInt ≤ (indptr.getD (n + 1) 0).toInt
  le : ∀ p ∈ indptr, p.toInt ≤ numEdges

/-- Where the slice of a node begins. -/
def sliceStart (indptr : List (Id τ)) (node : ℕ) : ℕ := (indptr.getD node 0).toInt.toNat

/-- How long the slice of a node is. -/
def sliceLength (indptr : List (Id τ)) (node : ℕ) : ℕ :=
  sliceStart indptr (node + 1) - sliceStart indptr node

/-- The slice of a node. -/
def sliceOf (indptr : List (Id τ)) (l : List α) (node : ℕ) : List α :=
  (l.drop (sliceStart indptr node)).take (sliceLength indptr node)

/-- The selection is what slicing gives. -/
structure SelectsSlices (r : CscSelection τ α) (indptr : List (Id τ)) (indicesList : List (List α))
    (nodes : List ℕ) (withEdgeIds : Bool) : Prop where
  length : r.outputIndptr.length = nodes.length + 1
  first : (r.outputIndptr.getD 0 0).toInt = 0
  degrees : ∀ i < nodes.length, (r.outputIndptr.getD (i + 1) 0).toInt -
    (r.outputIndptr.getD i 0).toInt = sliceLength indptr (nodes.getD i 0)
  results : r.results = indicesList.map fun indices => nodes.flatMap (sliceOf indptr indices)
  edgeIds : r.edgeIds.map (List.map BitVec.toInt) = if withEdgeIds then
    some (nodes.flatMap fun n =>
      (List.range' (sliceStart indptr n) (sliceLength indptr n)).map Nat.cast) else none

/-! ## Sums -/

variable {indptr : List (Id τ)} {indicesList : List (List α)} {nodes : List ℕ} {numEdges i n : ℕ}

/-- The number of edges of the first nodes. -/
def edgesBefore (indptr : List (Id τ)) (nodes : List ℕ) (i : ℕ) : ℕ :=
  ((nodes.take i).map (sliceLength indptr)).sum

lemma edgesBefore_succ (indptr : List (Id τ)) (hi : i < nodes.length) : edgesBefore indptr nodes (i + 1) =
    edgesBefore indptr nodes i + sliceLength indptr (nodes.getD i 0) := by
  rw [edgesBefore, List.take_succ_eq_append_getElem hi, List.map_append, List.sum_append,
    List.getD_eq_getElem _ _ hi]
  simp [edgesBefore]

lemma edgesBefore_le (indptr : List (Id τ)) (nodes : List ℕ) (hi : i ≤ nodes.length) :
    edgesBefore indptr nodes i ≤ edgesBefore indptr nodes nodes.length := by
  induction hi using Nat.decreasingInduction with
  | self => exact le_refl _
  | of_succ k hk ih =>
      rw [edgesBefore_succ indptr hk] at ih
      omega

lemma CscIndptr.toInt_eq (h : CscIndptr indptr numEdges) (hn : n < indptr.length) :
    (indptr.getD n 0).toInt = sliceStart indptr n ∧ sliceStart indptr n ≤ numEdges := by
  have hmem : indptr.getD n 0 ∈ indptr := by
    rw [List.getD_eq_getElem _ _ hn]
    exact List.getElem_mem hn
  have hnonneg := h.nonneg _ hmem
  have hle := h.le _ hmem
  rw [sliceStart]
  omega

/-- A degree in the type of `indptr`. -/
lemma CscIndptr.degreeOf_eq (h : CscIndptr indptr numEdges) (hn : n + 1 < indptr.length) :
    degreeOf indptr n = BitVec.ofNat τ.bits (sliceLength indptr n) := by
  obtain ⟨hfirst, -⟩ := h.toInt_eq (Nat.lt_of_succ_lt hn)
  obtain ⟨hlast, -⟩ := h.toInt_eq hn
  have hmono := h.mono n hn
  have hle : sliceStart indptr n ≤ sliceStart indptr (n + 1) := by omega
  apply BitVec.eq_of_toInt_eq
  rw [degreeOf, BitVec.toInt_sub, hfirst, hlast, BitVec.toInt_ofNat', sliceLength, Nat.cast_sub hle]

/-- The cumulative sums, in the type of `indptr`. -/
lemma getD_cumsum (sum : Id τ) (ds : List (Id τ)) (hi : i < ds.length) :
    (cumsum sum ds).getD i 0 = sum + (ds.take (i + 1)).sum := by
  induction ds generalizing sum i with
  | nil => cases hi
  | cons d ds ih =>
      cases i with
      | zero => simp [cumsum]
      | succ i =>
          rw [cumsum, List.getD_cons_succ, ih (sum + d) (Nat.lt_of_succ_lt_succ hi), List.take_succ_cons,
            List.sum_cons, BitVec.add_assoc]

lemma length_cumsum (sum : Id τ) (ds : List (Id τ)) : (cumsum sum ds).length = ds.length := by
  induction ds generalizing sum with
  | nil => rfl
  | cons d ds ih => rw [cumsum, List.length_cons, List.length_cons, ih]

/-- **`output_indptr`** holds the numbers of edges, in its type. -/
lemma CscIndptr.outputIndptr_eq (h : CscIndptr indptr numEdges)
    (hnodes : ∀ n ∈ nodes, n + 1 < indptr.length) (hi : i ≤ nodes.length) :
    (outputIndptr indptr nodes).getD i 0 = BitVec.ofNat τ.bits (edgesBefore indptr nodes i) := by
  cases i with
  | zero => rfl
  | succ i =>
      have hzero (x : Id τ) : 0 + x = x := BitVec.zero_add x
      rw [outputIndptr, List.getD_cons_succ, getD_cumsum _ _ (by rw [List.length_map]; omega), hzero,
        ← List.map_take]
      have hsum (l : List ℕ) (hl : ∀ n ∈ l, n + 1 < indptr.length) :
          (l.map (degreeOf indptr)).sum = BitVec.ofNat τ.bits ((l.map (sliceLength indptr)).sum) := by
        induction l with
        | nil => rfl
        | cons n l ih =>
            rw [List.map_cons, List.sum_cons, h.degreeOf_eq (hl n List.mem_cons_self),
              ih fun k hk => hl k (List.mem_cons_of_mem _ hk), List.map_cons, List.sum_cons,
              BitVec.ofNat_add]
      exact hsum _ fun n hn => hnodes n (List.mem_of_mem_take hn)

/-- Boundaries are what they are counted as while the edges are numbers of the type. -/
lemma CscIndptr.toInt_outputIndptr (h : CscIndptr indptr numEdges)
    (hnodes : ∀ n ∈ nodes, n + 1 < indptr.length)
    (hfits : edgesBefore indptr nodes nodes.length < 2 ^ (τ.bits - 1)) (hi : i ≤ nodes.length) :
    ((outputIndptr indptr nodes).getD i 0).toInt = edgesBefore indptr nodes i := by
  rw [h.outputIndptr_eq hnodes hi]
  exact toInt_valueOf ((edgesBefore_le indptr nodes hi).trans_lt hfits)

/-! ## The copies -/

section

variable (h : CscIndptr indptr numEdges) (hnodes : ∀ n ∈ nodes, n + 1 < indptr.length)
  (hfits : edgesBefore indptr nodes nodes.length < 2 ^ (τ.bits - 1))
include h hnodes hfits

lemma sliceCopy_eq (hi : i < nodes.length) : sliceCopy indptr nodes i =
    ⟨edgesBefore indptr nodes i, sliceStart indptr (nodes.getD i 0),
      sliceLength indptr (nodes.getD i 0)⟩ := by
  have hmem : nodes.getD i 0 ∈ nodes := by
    rw [List.getD_eq_getElem _ _ hi]
    exact List.getElem_mem hi
  have hnode := hnodes _ hmem
  have hlast := edgesBefore_succ indptr hi
  have hle : edgesBefore indptr nodes (i + 1) ≤ edgesBefore indptr nodes nodes.length :=
    edgesBefore_le indptr nodes hi
  have hnumel : (outputIndptr indptr nodes).getD (i + 1) 0 - (outputIndptr indptr nodes).getD i 0 =
      BitVec.ofNat τ.bits (sliceLength indptr (nodes.getD i 0)) := by
    apply BitVec.eq_of_toInt_eq
    rw [BitVec.toInt_sub, h.toInt_outputIndptr hnodes hfits hi,
      h.toInt_outputIndptr hnodes hfits hi.le, hlast, BitVec.toInt_ofNat']
    congr 1
    push_cast
    omega
  have hint : (BitVec.ofNat τ.bits (sliceLength indptr (nodes.getD i 0))).toInt =
      sliceLength indptr (nodes.getD i 0) := toInt_valueOf (by omega)
  rw [sliceCopy, hnumel, hint, h.toInt_outputIndptr hnodes hfits hi.le,
    (h.toInt_eq (Nat.lt_of_succ_lt hnode)).1]

end

/-- A slice ends in front of the end of its tensor. -/
lemma CscIndptr.slice_le (h : CscIndptr indptr numEdges)
    (hnodes : ∀ n ∈ nodes, n + 1 < indptr.length) (hi : i < nodes.length) :
    sliceStart indptr (nodes.getD i 0) + sliceLength indptr (nodes.getD i 0) ≤ numEdges := by
  have hmem : nodes.getD i 0 ∈ nodes := by
    rw [List.getD_eq_getElem _ _ hi]
    exact List.getElem_mem hi
  have hfirst := (h.toInt_eq (Nat.lt_of_succ_lt (hnodes _ hmem))).2
  have hlast := (h.toInt_eq (hnodes _ hmem)).2
  rw [sliceLength]
  omega

/-- **A tensor after all copies**, whatever their order. -/
lemma fillTensor_eq {β : Type} (order : AnyOrder (ℕ × β)) (memory : ℕ → β) {part : ℕ → List β}
    (hpart : ∀ i < nodes.length, (part i).length = sliceLength indptr (nodes.getD i 0)) :
    fillTensor order memory (edgesBefore indptr nodes nodes.length)
      ((List.range nodes.length).map fun i => (part i).zipIdx.map fun w =>
        (edgesBefore indptr nodes i + w.2, w.1)) = (List.range nodes.length).flatMap part := by
  have hfills : Fills ((List.range nodes.length).flatMap fun i =>
      ((part i).zipIdx.map fun w => (w.2, w.1)).map fun w => (edgesBefore indptr nodes i + w.1, w.2))
      ((List.range nodes.length).flatMap part) := by
    apply fills_flatMap
    · intro i hi
      constructor
      · rw [List.map_map]
        show ((part i).zipIdx.map Prod.snd).Perm _
        rw [List.zipIdx_map_snd, List.range_eq_range']
      · intro w hw
        obtain ⟨v, hv, rfl⟩ := List.mem_map.1 hw
        exact List.mem_zipIdx_iff_getElem?.1 hv
    · rfl
    · intro i hi
      rw [edgesBefore_succ indptr hi, hpart i hi]
  have hlen : ((List.range nodes.length).flatMap part).length =
      edgesBefore indptr nodes nodes.length := by
    have hcount (m : ℕ) (hm : m ≤ nodes.length) :
        ((List.range m).flatMap part).length = edgesBefore indptr nodes m := by
      induction m with
      | zero => rfl
      | succ m ih =>
          rw [List.range_succ, List.flatMap_append, List.length_append, ih (by omega),
            List.flatMap_singleton, hpart m (by omega), edgesBefore_succ indptr (by omega)]
    exact hcount _ le_rfl
  rw [fillTensor]
  apply (hfills.perm _).applyWrites_eq
  · rw [List.length_map, List.length_range, hlen]
  · simp only [List.map_map] at *
    exact order.perm _

section

variable (h : CscIndptr indptr numEdges) (hnodes : ∀ n ∈ nodes, n + 1 < indptr.length)
  (hfits : edgesBefore indptr nodes nodes.length < 2 ^ (τ.bits - 1))
include h hnodes hfits

lemma selected_eq (order : AnyOrder (ℕ × α)) (memory : ℕ → α) {input : List α}
    (hinput : input.length = numEdges) :
    selectTensor order memory indptr nodes (edgesBefore indptr nodes nodes.length) input =
      .ok (nodes.flatMap (sliceOf indptr input)) := by
  have hwrites : ∀ i ∈ List.range nodes.length,
      (sliceCopy indptr nodes i).writes (edgesBefore indptr nodes nodes.length) input =
        .ok ((sliceOf indptr input (nodes.getD i 0)).zipIdx.map fun w =>
          (edgesBefore indptr nodes i + w.2, w.1)) := by
    intro i hi
    have hi := List.mem_range.1 hi
    have hslice := h.slice_le hnodes hi
    have hsucc := edgesBefore_succ indptr hi
    have hle : edgesBefore indptr nodes (i + 1) ≤ edgesBefore indptr nodes nodes.length :=
      edgesBefore_le indptr nodes hi
    rw [sliceCopy_eq h hnodes hfits hi, SliceCopy.writes]
    simp only [Int.toNat_natCast]
    rw [if_pos (by omega)]
    rfl
  rw [selectTensor, mapM_ok hwrites]
  show Except.ok (fillTensor _ _ _ _) = _
  rw [fillTensor_eq, flatMap_range_getD]
  intro i hi
  have hslice := h.slice_le hnodes hi
  rw [sliceOf, List.length_take, List.length_drop]
  omega

lemma selectedIds_eq (order : AnyOrder (ℕ × Id τ)) (memory : ℕ → Id τ) :
    selectEdgeIds order memory indptr nodes (edgesBefore indptr nodes nodes.length) =
      .ok (nodes.flatMap fun n => (List.range (sliceLength indptr n)).map fun k =>
        valueOf τ (sliceStart indptr n + k)) := by
  have hwrites : ∀ i ∈ List.range nodes.length,
      (sliceCopy indptr nodes i).edgeIdWrites τ (edgesBefore indptr nodes nodes.length) =
        .ok (((List.range (sliceLength indptr (nodes.getD i 0))).map fun k =>
          valueOf τ (sliceStart indptr (nodes.getD i 0) + k)).zipIdx.map fun w =>
            (edgesBefore indptr nodes i + w.2, w.1)) := by
    intro i hi
    have hi := List.mem_range.1 hi
    have hsucc := edgesBefore_succ indptr hi
    have hle : edgesBefore indptr nodes (i + 1) ≤ edgesBefore indptr nodes nodes.length :=
      edgesBefore_le indptr nodes hi
    rw [sliceCopy_eq h hnodes hfits hi, SliceCopy.edgeIdWrites]
    simp only [Int.toNat_natCast]
    rw [if_pos (by omega)]
    congr 1
    apply List.ext_getElem
    · simp
    · intro k hk hk'
      simp only [List.getElem_map, List.getElem_range, List.getElem_zipIdx, Nat.zero_add]
      rw [← Nat.cast_add, BitVec.ofInt_natCast]
  rw [selectEdgeIds, mapM_ok hwrites]
  show Except.ok (fillTensor _ _ _ _) = _
  rw [fillTensor_eq, flatMap_range_getD nodes fun n => (List.range (sliceLength indptr n)).map fun k =>
    valueOf τ (sliceStart indptr n + k)]
  intro i hi
  rw [List.length_map, List.length_range]

end

/-- An id of an edge is a number of the type. -/
lemma CscIndptr.toInt_edgeIds (h : CscIndptr indptr numEdges)
    (hnodes : ∀ n ∈ nodes, n + 1 < indptr.length) : (nodes.flatMap fun n => (List.range (sliceLength indptr n)).map fun k =>
      valueOf τ (sliceStart indptr n + k)).map BitVec.toInt =
    nodes.flatMap fun n => (List.range' (sliceStart indptr n) (sliceLength indptr n)).map Nat.cast := by
  rw [List.map_flatMap]
  apply List.flatMap_congr
  intro n hn
  have hlast := (h.toInt_eq (hnodes n hn)).1
  have hbound : (indptr.getD (n + 1) 0).toInt < 2 ^ (τ.bits - 1) := BitVec.toInt_lt
  have hend : sliceStart indptr (n + 1) < 2 ^ (τ.bits - 1) := by
    rw [hlast] at hbound
    exact_mod_cast hbound
  rw [List.map_map, List.range'_eq_map_range, List.map_map]
  apply List.map_congr_left
  intro k hk
  have hk := List.mem_range.1 hk
  rw [sliceLength] at hk
  exact toInt_valueOf (by omega)

/-! ## The selection -/

/-- The differences of the boundaries add up to the number of edges. -/
lemma SelectsSlices.fits {r : CscSelection τ α} {withEdgeIds : Bool}
    (h : SelectsSlices r indptr indicesList nodes withEdgeIds) :
    edgesBefore indptr nodes nodes.length < 2 ^ (τ.bits - 1) := by
  have hcount (i : ℕ) (hi : i ≤ nodes.length) :
      (r.outputIndptr.getD i 0).toInt = edgesBefore indptr nodes i := by
    induction i with
    | zero => exact h.first
    | succ i ih =>
        have hstep := h.degrees i (by omega)
        rw [ih (by omega)] at hstep
        rw [edgesBefore_succ indptr (by omega)]
        push_cast
        omega
  have hbound : (r.outputIndptr.getD nodes.length 0).toInt < 2 ^ (τ.bits - 1) := BitVec.toInt_lt
  rw [hcount _ le_rfl] at hbound
  exact_mod_cast hbound

/-- Writes in the order of the nodes, to tensors of zeros. -/
def inOrder (τ : IdType) : SelectRun τ ℕ where
  order _ := ⟨id, fun _ => .refl _⟩
  memory _ _ := 0
  edgeOrder := ⟨id, fun _ => .refl _⟩
  edgeMemory _ := 0

end DglAscend.Graphbolt
