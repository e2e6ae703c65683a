import DglAscend.Ascend.Concat
import DglAscend.Ascend.ConcatSearch
import DglAscend.Lib.Slots

/-!
# The chunks of a concatenation

What the host computes has no overflow for fewer than `2 ^ 32` elements: the inputs that are not empty lie
one behind the other, both by the numbers of their chunks and by their places in a segment of the output.
The chunks together write the output once (`ConcatPlan.fills`).
-/

namespace DglAscend.Ascend

open Aten

variable {α : Type}

/-- The sizes that a concatenation is planned with. -/
structure ConcatPlan where
  axis : ℕ
  outer : ℕ
  inner : ℕ
  chunkElems : ℕ

variable {i q : ℕ}

namespace ConcatPlan

variable (P : ConcatPlan)

/-- The elements that an array has in a segment of the output. -/
def segElems (a : NDArray α) : ℕ := axisLength P.axis a * P.inner

/-- The chunks of a segment of an array. -/
def chunksPerSeg (a : NDArray α) : ℕ := (P.segElems a + P.chunkElems - 1) / P.chunkElems

/-- The arrays that are not empty. -/
def inputs (arrays : List (NDArray α)) : List (NDArray α) := arrays.filter fun a => P.segElems a ≠ 0

/-- The elements of some arrays in a segment of the output. -/
def width (arrays : List (NDArray α)) : ℕ := (arrays.map P.segElems).sum

/-- The chunks of some arrays. -/
def chunks (arrays : List (NDArray α)) : ℕ := P.outer * (arrays.map P.chunksPerSeg).sum

/-- The number of the first chunk of an input. -/
def chunkBase (ins : List (NDArray α)) (i : ℕ) : ℕ := P.chunks (ins.take i)

/-- The description of an input. -/
def desc (ins : List (NDArray α)) (i : ℕ) : ConcatInputDesc α :=
  let a := ins.getD i ⟨[], []⟩
  ⟨a.data, P.segElems a, P.width (ins.take i), P.chunksPerSeg a, P.chunkBase ins i⟩

/-- The launch without any overflow. -/
def launch (ins : List (NDArray α)) (blocks : ℕ) : ConcatLaunch α :=
  ⟨blocks, ⟨ins.length, P.outer, P.width ins, P.chunkElems, P.chunks ins,
    (P.chunks ins + blocks - 1) / blocks⟩, (List.range ins.length).map (P.desc ins)⟩

variable {P} {arrays ins : List (NDArray α)}

lemma width_append (as bs : List (NDArray α)) : P.width (as ++ bs) = P.width as + P.width bs := by
  rw [width, List.map_append, List.sum_append]
  rfl

lemma chunks_append (as bs : List (NDArray α)) : P.chunks (as ++ bs) = P.chunks as + P.chunks bs := by
  rw [chunks, List.map_append, List.sum_append, Nat.mul_add]
  rfl

lemma chunksPerSeg_le (hce : 0 < P.chunkElems) (a : NDArray α) : P.chunksPerSeg a ≤ P.segElems a := by
  rw [chunksPerSeg, Nat.div_le_iff_le_mul_add_pred hce]
  have hle := Nat.le_mul_of_pos_left (P.segElems a) hce
  omega

variable {a : NDArray α}

lemma chunksPerSeg_pos (hce : 0 < P.chunkElems) (ha : P.segElems a ≠ 0) :
    0 < P.chunksPerSeg a := Nat.div_pos (by omega) hce

lemma chunks_le (hce : 0 < P.chunkElems) (as : List (NDArray α)) :
    P.chunks as ≤ P.outer * P.width as :=
  Nat.mul_le_mul_left _ (List.sum_le_sum fun a _ => chunksPerSeg_le hce a)

lemma width_inputs (arrays : List (NDArray α)) : P.width (P.inputs arrays) = P.width arrays := by
  induction arrays with
  | nil => rfl
  | cons a arrays ih =>
      by_cases ha : P.segElems a = 0
      · rw [inputs, List.filter_cons_of_neg (by simpa using ha)]
        show P.width (P.inputs arrays) = (P.segElems a :: arrays.map P.segElems).sum
        rw [ih, List.sum_cons, ha, Nat.zero_add]
        rfl
      · rw [inputs, List.filter_cons_of_pos (by simpa using ha)]
        show P.segElems a + P.width (P.inputs arrays) = _
        rw [ih]
        rfl

lemma chunks_inputs (hce : 0 < P.chunkElems) (arrays : List (NDArray α)) :
    P.chunks (P.inputs arrays) = P.chunks arrays := by
  induction arrays with
  | nil => rfl
  | cons a arrays ih =>
      have hcons : P.chunks (a :: arrays) = P.chunks [a] + P.chunks arrays := chunks_append [a] arrays
      by_cases ha : P.segElems a = 0
      · have hzero : P.chunksPerSeg a = 0 := Nat.eq_zero_of_le_zero (ha ▸ chunksPerSeg_le hce a)
        have hone : P.chunks [a] = 0 := by
          rw [chunks, List.map_singleton, hzero, List.sum_singleton, Nat.mul_zero]
        rw [inputs, List.filter_cons_of_neg (by simpa using ha), hcons, hone, Nat.zero_add]
        exact ih
      · rw [inputs, List.filter_cons_of_pos (by simpa using ha), hcons, ← ih]
        exact chunks_append [a] _

lemma segElems_pos (ha : a ∈ P.inputs arrays) : P.segElems a ≠ 0 := by
  have hne := (List.mem_filter.1 ha).2
  simpa using hne

lemma take_succ_eq (hi : i < ins.length) :
    ins.take (i + 1) = ins.take i ++ [ins.getD i ⟨[], []⟩] := by
  rw [List.take_add_one, List.getElem?_eq_getElem hi, List.getD_eq_getElem _ _ hi, Option.toList_some]

/-- The chunks of an input are numbered behind those of the inputs before it. -/
lemma chunkBase_succ (hi : i < ins.length) :
    P.chunkBase ins (i + 1) = P.chunkBase ins i + P.outer * (P.desc ins i).chunksPerSeg := by
  rw [chunkBase, take_succ_eq hi, chunks_append]
  rfl

lemma width_take_succ (hi : i < ins.length) :
    P.width (ins.take (i + 1)) = P.width (ins.take i) + (P.desc ins i).segElems := by
  rw [take_succ_eq hi, width_append]
  rfl

lemma chunkBase_zero (ins : List (NDArray α)) : P.chunkBase ins 0 = 0 := Nat.mul_zero _

lemma chunkBase_length (ins : List (NDArray α)) : P.chunkBase ins ins.length = P.chunks ins := by
  rw [chunkBase, List.take_length]

lemma chunkBase_le (hi : i < ins.length) : P.chunkBase ins i ≤ P.chunkBase ins (i + 1) := by
  rw [chunkBase_succ hi]
  exact Nat.le_add_right _ _

/-! ## What the host computes -/

/-- The descriptions of the inputs stay the same when another one is added. -/
lemma map_desc_append (ins : List (NDArray α)) (a : NDArray α) :
    (List.range (ins ++ [a]).length).map (P.desc (ins ++ [a])) =
      (List.range ins.length).map (P.desc ins) ++
        [⟨a.data, P.segElems a, P.width ins, P.chunksPerSeg a, P.chunks ins⟩] := by
  rw [List.length_append, List.length_singleton, List.range_succ, List.map_append, List.map_singleton]
  congr 1
  · apply List.map_congr_left
    intro i hi
    have hi := List.mem_range.1 hi
    rw [desc, desc, chunkBase, chunkBase, List.take_append_of_le_length hi.le, List.getD_append _ _ _ _ hi]
  · have hlast : (ins ++ [a]).getD ins.length ⟨[], []⟩ = a := by
      rw [List.getD_append_right _ _ _ _ le_rfl, Nat.sub_self]
      rfl
    rw [desc, chunkBase, List.take_left, hlast]

lemma width_eq (arrays : List (NDArray α)) :
    P.width arrays = (arrays.map (axisLength P.axis)).sum * P.inner := by
  rw [width, ← List.sum_map_mul_right]
  rfl

lemma describeInput_empty (s : ConcatInputs α) (ha : P.segElems a = 0) :
    describeInput P.axis P.inner P.outer P.chunkElems s a =
      .ok { s with before := s.before + axisLength P.axis a } := by
  have hseg : u32 (axisLength P.axis a * P.inner) = 0 := by
    show u32 (P.segElems a) = 0
    rw [ha]
    rfl
  exact if_pos hseg

lemma describeInput_eq (hce : 0 < P.chunkElems) {s : ConcatInputs α} (ha : P.segElems a ≠ 0)
    (hseg : P.segElems a < 2 ^ 32) (htotal : s.totalChunks < 2 ^ 32)
    (hbefore : s.before * P.inner < 2 ^ 32) :
    describeInput P.axis P.inner P.outer P.chunkElems s a =
      .ok ⟨s.inputs ++ [⟨a.data, P.segElems a, s.before * P.inner, P.chunksPerSeg a, s.totalChunks⟩],
        s.totalChunks + P.outer * P.chunksPerSeg a, s.before + axisLength P.axis a⟩ := by
  have hu : u32 (a.shape.getD P.axis 0 * P.inner) = P.segElems a := u32_eq hseg
  have hcps : u32 ((P.segElems a + P.chunkElems - 1) / P.chunkElems) = P.chunksPerSeg a :=
    u32_eq ((chunksPerSeg_le hce a).trans_lt hseg)
  unfold describeInput
  simp only [hu, if_neg ha, hcps, u32_eq htotal, u32_eq hbefore]
  rw [if_neg (by omega)]
  rfl

lemma describe_eq (arrays : List (NDArray α)) (hce : 0 < P.chunkElems) (houter : 0 < P.outer)
    (hwidth : P.outer * P.width arrays < 2 ^ 32) :
    arrays.foldlM (describeInput P.axis P.inner P.outer P.chunkElems) ⟨[], 0, 0⟩ =
      .ok ⟨(List.range (P.inputs arrays).length).map (P.desc (P.inputs arrays)),
        P.chunks (P.inputs arrays), (arrays.map (axisLength P.axis)).sum⟩ := by
  induction arrays using List.reverseRecOn with
  | nil => rfl
  | append_singleton arrays a ih =>
      have hsum : P.width (arrays ++ [a]) = P.width arrays + P.segElems a := by
        rw [width_append]
        rfl
      have hle : P.width (arrays ++ [a]) ≤ P.outer * P.width (arrays ++ [a]) :=
        Nat.le_mul_of_pos_left _ houter
      have hfirst : P.outer * P.width arrays ≤ P.outer * P.width (arrays ++ [a]) := by
        rw [hsum]
        exact Nat.mul_le_mul_left _ (Nat.le_add_right _ _)
      have hchunks : P.chunks (P.inputs arrays) ≤ P.outer * P.width arrays := by
        rw [chunks_inputs hce]
        exact chunks_le hce arrays
      have hbefore : (arrays.map (axisLength P.axis)).sum * P.inner = P.width (P.inputs arrays) := by
        rw [← width_eq, width_inputs]
      have hnarrow : P.width (P.inputs arrays) < 2 ^ 32 := by
        rw [width_inputs]
        omega
      have hlen : (arrays.map (axisLength P.axis)).sum + axisLength P.axis a =
          ((arrays ++ [a]).map (axisLength P.axis)).sum := by
        rw [List.map_append, List.sum_append]
        rfl
      rw [List.foldlM_append, ih (hfirst.trans_lt hwidth), ← hlen]
      show Except.bind (describeInput P.axis P.inner P.outer P.chunkElems _ a) _ = _
      by_cases ha : P.segElems a = 0
      · have hsame : P.inputs (arrays ++ [a]) = P.inputs arrays := by
          rw [inputs, List.filter_append, List.filter_cons_of_neg (by simpa using ha), List.filter_nil,
            List.append_nil]
          rfl
        rw [describeInput_empty _ ha, hsame]
        rfl
      · have hnew : P.inputs (arrays ++ [a]) = P.inputs arrays ++ [a] := by
          rw [inputs, List.filter_append, List.filter_cons_of_pos (by simpa using ha), List.filter_nil]
          rfl
        have hadd : P.chunks (P.inputs arrays ++ [a]) =
            P.chunks (P.inputs arrays) + P.outer * P.chunksPerSeg a := by
          rw [chunks_append]
          rfl
        rw [describeInput_eq hce ha (by omega) (hchunks.trans_lt (hfirst.trans_lt hwidth))
          (hbefore.trans_lt hnarrow), hnew, map_desc_append, hadd, ← hbefore]
        rfl

end ConcatPlan

/-- The plan for an output. -/
def concatPlan (shape : List ℕ) (axis : ℕ) (t : ConcatType) : ConcatPlan :=
  ⟨axis, outerSize shape axis, innerSize shape axis, t.chunkElems⟩

/-- The cores that get a chunk. -/
def concatBlocks (totalChunks : ℕ) (reported : ℤ) : ℕ := max 1 (min totalChunks (getVectorCoreNum reported))

lemma ConcatType.chunkElems_pos (t : ConcatType) : 0 < t.chunkElems := by
  cases t <;> decide

namespace Concatenable

variable {arrays : List (NDArray α)} {shape : List ℕ} {axis : ℕ} (h : Concatenable arrays shape axis)
  (t : ConcatType)
include h

lemma width_eq : (concatPlan shape axis t).width arrays = shape.getD axis 0 * innerSize shape axis := by
  rw [ConcatPlan.width_eq, h.sum]
  rfl

lemma prod_eq : shape.prod = (concatPlan shape axis t).outer * (concatPlan shape axis t).width arrays := by
  rw [h.width_eq t]
  exact prod_axis h.axis_lt

lemma chunks_pos (hprod : shape.prod ≠ 0) : 0 < (concatPlan shape axis t).chunks arrays := by
  rw [h.prod_eq t] at hprod
  obtain ⟨houter, hwidth⟩ := mul_ne_zero_iff.1 hprod
  have hmem : ∃ a ∈ arrays, (concatPlan shape axis t).segElems a ≠ 0 := by
    by_contra hnot
    push Not at hnot
    exact hwidth (List.sum_eq_zero fun x hx => by
      obtain ⟨a, ha, rfl⟩ := List.mem_map.1 hx
      exact hnot a ha)
  obtain ⟨a, ha, hne⟩ := hmem
  apply Nat.mul_pos (Nat.pos_of_ne_zero houter)
  exact (ConcatPlan.chunksPerSeg_pos t.chunkElems_pos hne).trans_le
    (List.single_le_sum (fun _ _ => Nat.zero_le _) _ (List.mem_map_of_mem ha))

/-- **What is launched.** -/
lemma concatND_eq (hprod : shape.prod ≠ 0) (hlt : shape.prod < 2 ^ 32)
    (hlen : arrays.length ≤ 2 ^ 32 - 1) (reported : ℤ) :
    concatND arrays shape axis t reported =
      .ok (some ((concatPlan shape axis t).launch ((concatPlan shape axis t).inputs arrays)
        (concatBlocks ((concatPlan shape axis t).chunks arrays) reported))) := by
  have hpos := h.chunks_pos t hprod
  have hprod' := h.prod_eq t
  obtain ⟨houter, hwidth⟩ := mul_ne_zero_iff.1 (hprod' ▸ hprod)
  have hle := ConcatPlan.chunks_le (P := concatPlan shape axis t) t.chunkElems_pos arrays
  have houter_le : (concatPlan shape axis t).outer ≤ shape.prod := by
    rw [hprod']
    exact Nat.le_mul_of_pos_right _ (Nat.pos_of_ne_zero hwidth)
  have hwidth_le : (concatPlan shape axis t).width arrays ≤ shape.prod := by
    rw [hprod']
    exact Nat.le_mul_of_pos_left _ (Nat.pos_of_ne_zero houter)
  have hstate := ConcatPlan.describe_eq (P := concatPlan shape axis t) arrays
    t.chunkElems_pos (Nat.pos_of_ne_zero houter) (hprod' ▸ hlt)
  have hchunks := ConcatPlan.chunks_inputs (P := concatPlan shape axis t) t.chunkElems_pos arrays
  have hcount : ((concatPlan shape axis t).inputs arrays).length ≤ arrays.length :=
    List.length_filter_le _ _
  have hinputs : (List.range ((concatPlan shape axis t).inputs arrays).length).map
      ((concatPlan shape axis t).desc ((concatPlan shape axis t).inputs arrays)) ≠ [] := by
    intro hnil
    rw [List.map_eq_nil_iff, List.range_eq_nil, List.length_eq_zero_iff] at hnil
    rw [← hchunks, hnil] at hpos
    exact absurd hpos (Nat.not_lt.2 (Nat.mul_zero _).le)
  have hblocks : concatBlocks ((concatPlan shape axis t).chunks arrays) reported ≤
      (concatPlan shape axis t).chunks arrays := by
    rw [concatBlocks]
    omega
  have hone : 0 < concatBlocks ((concatPlan shape axis t).chunks arrays) reported := by
    rw [concatBlocks]
    omega
  have hperCore : ((concatPlan shape axis t).chunks arrays +
      concatBlocks ((concatPlan shape axis t).chunks arrays) reported - 1) /
        concatBlocks ((concatPlan shape axis t).chunks arrays) reported ≤
          (concatPlan shape axis t).chunks arrays := by
    rw [Nat.div_le_iff_le_mul_add_pred hone]
    have hmul := Nat.le_mul_of_pos_left ((concatPlan shape axis t).chunks arrays) hone
    omega
  rw [concatND, if_neg hprod, if_neg (not_not.2 hlt), if_neg (not_not.2 hlen),
    u32_eq (show outerSize shape axis < 2 ^ 32 from houter_le.trans_lt hlt)]
  show Except.bind (arrays.foldlM (describeInput (concatPlan shape axis t).axis
    (concatPlan shape axis t).inner (concatPlan shape axis t).outer
    (concatPlan shape axis t).chunkElems) ⟨[], 0, 0⟩) _ = _
  rw [hstate]
  show (if ¬ (concatPlan shape axis t).chunks ((concatPlan shape axis t).inputs arrays) ≤ 2 ^ 32 - 1
    then _ else if (List.range _).map _ = [] then _ else Except.ok (some (ConcatLaunch.mk
      (u32 (concatBlocks ((concatPlan shape axis t).chunks ((concatPlan shape axis t).inputs arrays))
        reported)) ⟨u32 (List.length (List.map _ _)), _, u32 (shape.getD axis 0 * innerSize shape axis), _,
          u32 _, u32 ((_ + u32 (concatBlocks _ reported) - 1) / u32 (concatBlocks _ reported))⟩ _))) = _
  rw [if_neg (by omega), if_neg hinputs, hchunks,
    u32_eq (show concatBlocks ((concatPlan shape axis t).chunks arrays) reported < 2 ^ 32 by omega),
    ← h.width_eq t, u32_eq (show (concatPlan shape axis t).width arrays < 2 ^ 32 by omega),
    u32_eq (show (concatPlan shape axis t).chunks arrays < 2 ^ 32 by omega), List.length_map,
    List.length_range, u32_eq (show ((concatPlan shape axis t).inputs arrays).length < 2 ^ 32 by omega),
    u32_eq (hperCore.trans_lt (by omega)), ConcatPlan.launch, hchunks, ConcatPlan.width_inputs]
  rfl

end Concatenable

/-! ## The writes of the chunks -/

/-- The inputs that a plan is for: none is empty, and the output has fewer than `2 ^ 32` elements. -/
structure ConcatPlan.Fits (P : ConcatPlan) (ins : List (NDArray α)) : Prop where
  chunkElems : 0 < P.chunkElems
  outer : 0 < P.outer
  small : P.outer * P.width ins < 2 ^ 32
  nonempty : ∀ a ∈ ins, P.segElems a ≠ 0
  data : ∀ a ∈ ins, a.data.length = P.outer * P.segElems a

namespace ConcatPlan

variable {P : ConcatPlan} {ins : List (NDArray α)}

/-- The write of an element of a segment of an input. -/
def elementWrite (P : ConcatPlan) (ins : List (NDArray α)) (i seg e : ℕ) : ℕ × Option α :=
  (seg * P.width ins + (P.desc ins i).dstBase + e,
    (P.desc ins i).src[seg * (P.desc ins i).segElems + e]?)

namespace Fits

variable (h : P.Fits ins) {i : ℕ} (hi : i < ins.length)
include h hi

lemma desc_segElems_pos : 0 < (P.desc ins i).segElems := by
  apply Nat.pos_of_ne_zero
  rw [desc, List.getD_eq_getElem _ _ hi]
  exact h.nonempty _ (List.getElem_mem hi)

lemma desc_chunksPerSeg_pos : 0 < (P.desc ins i).chunksPerSeg :=
  chunksPerSeg_pos h.chunkElems (h.desc_segElems_pos hi).ne'

omit h in
/-- An input ends in the segment before the end of the segment. -/
lemma dstBase_le : (P.desc ins i).dstBase + (P.desc ins i).segElems ≤ P.width ins := by
  have hsucc := width_take_succ (P := P) hi
  have hsplit := width_append (P := P) (ins.take (i + 1)) (ins.drop (i + 1))
  rw [List.take_append_drop] at hsplit
  show P.width (ins.take i) + _ ≤ _
  omega

/-- An element goes to a place of the output. -/
lemma elementWrite_lt {seg e : ℕ} (hseg : seg < P.outer) (he : e < (P.desc ins i).segElems) :
    seg * P.width ins + (P.desc ins i).dstBase + e < 2 ^ 32 ∧
      seg * (P.desc ins i).segElems + e < 2 ^ 32 := by
  have hle := dstBase_le (P := P) hi
  have hdst : (seg + 1) * P.width ins ≤ P.outer * P.width ins := Nat.mul_le_mul_right _ hseg
  have hsrc : seg * (P.desc ins i).segElems ≤ seg * P.width ins := Nat.mul_le_mul_left _ (by omega)
  have hsmall := h.small
  rw [Nat.succ_mul] at hdst
  constructor
  · omega
  · omega

omit hi in
lemma chunk_lt {k : ℕ} (hk : k < (P.desc ins i).chunksPerSeg) :
    k * P.chunkElems < (P.desc ins i).segElems := by
  have hlt : k < ((P.desc ins i).segElems + P.chunkElems - 1) / P.chunkElems := hk
  have hmul := (Nat.le_div_iff_mul_le h.chunkElems).1 (Nat.succ_le_of_lt hlt)
  have hpos := h.chunkElems
  rw [Nat.succ_mul] at hmul
  omega

lemma copyChunk_eq (blocks : ℕ) {seg k : ℕ} (hseg : seg < P.outer) (hk : k < (P.desc ins i).chunksPerSeg) :
    (P.launch ins blocks).copyChunk (P.desc ins i)
        (P.chunkBase ins i + seg * (P.desc ins i).chunksPerSeg + k) =
      (List.range' (k * P.chunkElems) (min P.chunkElems ((P.desc ins i).segElems - k * P.chunkElems))).map
        (P.elementWrite ins i seg) := by
  have hcps := h.desc_chunksPerSeg_pos hi
  have hstart := h.chunk_lt hk
  obtain ⟨hdst, hsrc⟩ := h.elementWrite_lt hi hseg hstart
  have hsegElems : (P.desc ins i).segElems < 2 ^ 32 := by
    have hle := dstBase_le (P := P) hi
    have houter := Nat.le_mul_of_pos_left (P.width ins) h.outer
    have hsmall := h.small
    omega
  have hlocal : P.chunkBase ins i + seg * (P.desc ins i).chunksPerSeg + k -
      (P.desc ins i).chunkBase = seg * (P.desc ins i).chunksPerSeg + k := by
    show P.chunkBase ins i + _ + k - P.chunkBase ins i = _
    omega
  have hdiv : (seg * (P.desc ins i).chunksPerSeg + k) / (P.desc ins i).chunksPerSeg = seg := by
    rw [Nat.mul_comm, Nat.mul_add_div hcps, Nat.div_eq_of_lt hk, Nat.add_zero]
  have hremain : u32 ((P.desc ins i).segElems + 2 ^ 32 - k * P.chunkElems) =
      (P.desc ins i).segElems - k * P.chunkElems := by
    rw [u32, show (P.desc ins i).segElems + 2 ^ 32 - k * P.chunkElems =
      (P.desc ins i).segElems - k * P.chunkElems + 2 ^ 32 by omega, Nat.add_mod_right]
    exact Nat.mod_eq_of_lt (by omega)
  have hmin : (if (P.desc ins i).segElems - k * P.chunkElems < P.chunkElems then
      (P.desc ins i).segElems - k * P.chunkElems else P.chunkElems) =
        min P.chunkElems ((P.desc ins i).segElems - k * P.chunkElems) := by
    split_ifs <;> omega
  have hinChunk : u32 (k * P.chunkElems) = k * P.chunkElems := u32_eq (by omega)
  rw [ConcatLaunch.copyChunk]
  simp only [hlocal, hdiv, Nat.add_sub_cancel_left]
  show (List.range (if u32 ((P.desc ins i).segElems + 2 ^ 32 - u32 (k * P.chunkElems)) < P.chunkElems then
    u32 ((P.desc ins i).segElems + 2 ^ 32 - u32 (k * P.chunkElems)) else P.chunkElems)).map (fun e =>
      (u32 (seg * P.width ins + (P.desc ins i).dstBase + u32 (k * P.chunkElems)) + e,
        (P.desc ins i).src[u32 (seg * (P.desc ins i).segElems + u32 (k * P.chunkElems)) + e]?)) = _
  rw [hinChunk, hremain, hmin, u32_eq hdst, u32_eq hsrc, List.range'_eq_map_range, List.map_map]
  apply List.map_congr_left
  intro e _
  show _ = elementWrite P ins i seg (k * P.chunkElems + e)
  rw [elementWrite, ← Nat.add_assoc, ← Nat.add_assoc]

/-- The chunks of a segment of an input are its elements. -/
lemma segment_eq (blocks : ℕ) {seg : ℕ} (hseg : seg < P.outer) :
    (List.range (P.desc ins i).chunksPerSeg).flatMap (fun k =>
      (P.launch ins blocks).copyChunk (P.desc ins i)
        (P.chunkBase ins i + seg * (P.desc ins i).chunksPerSeg + k)) =
      (List.range (P.desc ins i).segElems).map (P.elementWrite ins i seg) := by
  -- the chunks are the slots between the multiples of the chunk size
  have hslots := slotItems_eq (b := fun k => min (k * P.chunkElems) (P.desc ins i).segElems)
    (n := (P.desc ins i).chunksPerSeg) (by rw [Nat.zero_mul, Nat.zero_min]) (fun k _ => by
      have hle : k * P.chunkElems ≤ (k + 1) * P.chunkElems := Nat.mul_le_mul_right _ (Nat.le_succ k)
      omega)
  have hend : min ((P.desc ins i).chunksPerSeg * P.chunkElems) (P.desc ins i).segElems =
      (P.desc ins i).segElems := by
    have hdiv := Nat.div_add_mod ((P.desc ins i).segElems + P.chunkElems - 1) P.chunkElems
    have hmod := Nat.mod_lt ((P.desc ins i).segElems + P.chunkElems - 1) h.chunkElems
    have hcomm : (P.desc ins i).chunksPerSeg * P.chunkElems =
        P.chunkElems * (((P.desc ins i).segElems + P.chunkElems - 1) / P.chunkElems) := Nat.mul_comm _ _
    omega
  rw [hend, slotItems] at hslots
  rw [← hslots, List.map_flatMap]
  apply List.flatMap_congr
  intro k hk
  have hk := List.mem_range.1 hk
  have hlt := h.chunk_lt hk
  rw [h.copyChunk_eq hi blocks hseg hk, Nat.succ_mul]
  congr 2
  · omega
  · omega

lemma input_eq (blocks : ℕ) :
    (List.range' (P.chunkBase ins i) (P.chunkBase ins (i + 1) - P.chunkBase ins i)).flatMap
        ((P.launch ins blocks).copyChunk (P.desc ins i)) =
      (List.range P.outer).flatMap fun seg =>
        (List.range (P.desc ins i).segElems).map (P.elementWrite ins i seg) := by
  have hslots := slotItems_eq_range'
    (b := fun seg => P.chunkBase ins i + seg * (P.desc ins i).chunksPerSeg) (n := P.outer)
    fun seg _ => Nat.add_le_add_left (Nat.mul_le_mul_right _ (Nat.le_succ seg)) _
  rw [Nat.zero_mul, Nat.add_zero, ← chunkBase_succ hi, slotItems] at hslots
  rw [← hslots, List.flatMap_assoc]
  apply List.flatMap_congr
  intro seg hseg
  rw [← h.segment_eq hi blocks (List.mem_range.1 hseg), Nat.succ_mul, ← Nat.add_assoc,
    Nat.add_sub_cancel_left, List.range'_eq_map_range, List.flatMap_map]

end Fits

/-! ## The writes together -/

/-- The writes of a chunk. -/
def task (P : ConcatPlan) (ins : List (NDArray α)) (blocks q : ℕ) : List (ℕ × Option α) :=
  match (List.range ins.length).find? fun i => InSlot (P.chunkBase ins) i q with
  | some i => (P.launch ins blocks).copyChunk (P.desc ins i) q
  | none => []

/-- A chunk is a chunk of the input that has its number. -/
lemma task_eq (hi : i < ins.length) (hq : InSlot (P.chunkBase ins) i q) (blocks : ℕ) :
    P.task ins blocks q = (P.launch ins blocks).copyChunk (P.desc ins i) q := by
  rw [task]
  cases hfind : (List.range ins.length).find? fun i => InSlot (P.chunkBase ins) i q with
  | none =>
      have hnone := List.find?_eq_none.1 hfind i (List.mem_range.2 hi)
      exact absurd (decide_eq_true hq) hnone
  | some j =>
      have hfound := List.find?_some hfind
      have hj : InSlot (P.chunkBase ins) j q := of_decide_eq_true hfound
      have hjn := List.mem_range.1 (List.mem_of_find?_eq_some hfind)
      have hmono : ∀ p < ins.length, P.chunkBase ins p ≤ P.chunkBase ins (p + 1) :=
        fun p hp => chunkBase_le hp
      have hsame : j = i := by
        rcases lt_trichotomy j i with hlt | heq | hgt
        · have hle : P.chunkBase ins (j + 1) ≤ P.chunkBase ins i := boundary_mono hmono hlt hi.le
          have h1 := hj.2
          have h2 := hq.1
          omega
        · exact heq
        · have hle : P.chunkBase ins (i + 1) ≤ P.chunkBase ins j := boundary_mono hmono hgt hjn.le
          have h1 := hq.2
          have h2 := hj.1
          omega
      rw [hsame]

/-- The writes to a segment of the output, from its beginning on. -/
def segmentWrites (P : ConcatPlan) (ins : List (NDArray α)) (seg : ℕ) : List (ℕ × Option α) :=
  (List.range ins.length).flatMap fun i =>
    ((List.range (P.desc ins i).segElems).map fun e =>
      (e, (P.desc ins i).src[seg * (P.desc ins i).segElems + e]?)).map fun w =>
        (P.width (ins.take i) + w.1, w.2)

/-- What is in a segment of the output. -/
def segmentElements (P : ConcatPlan) (ins : List (NDArray α)) (seg : ℕ) : List (Option α) :=
  (List.range ins.length).flatMap fun i =>
    (List.range (P.desc ins i).segElems).map fun e =>
      (P.desc ins i).src[seg * (P.desc ins i).segElems + e]?

lemma length_segmentElements (seg : ℕ) : (P.segmentElements ins seg).length = P.width ins := by
  have hlen (m : ℕ) (hm : m ≤ ins.length) : ((List.range m).flatMap fun i =>
      (List.range (P.desc ins i).segElems).map fun e =>
        (P.desc ins i).src[seg * (P.desc ins i).segElems + e]?).length = P.width (ins.take m) := by
    induction m with
    | zero => rfl
    | succ m ih =>
        rw [List.range_succ, List.flatMap_append, List.length_append, ih (Nat.le_of_succ_le hm),
          List.flatMap_singleton, List.length_map, List.length_range, width_take_succ hm]
  rw [segmentElements, hlen _ le_rfl, List.take_length]

/-- **The chunks together write the output once.** -/
theorem Fits.fills (h : P.Fits ins) (blocks : ℕ) :
    Fills ((List.range (P.chunks ins)).flatMap (P.task ins blocks))
      ((List.range P.outer).flatMap (P.segmentElements ins)) := by
  have hsegment (seg : ℕ) : Fills (P.segmentWrites ins seg) (P.segmentElements ins seg) := by
    apply fills_flatMap (fun i _ => fills_range _ _) rfl
    intro i hi
    rw [List.length_map, List.length_range, width_take_succ hi]
  have hall : Fills ((List.range P.outer).flatMap fun seg =>
      (P.segmentWrites ins seg).map fun w => (seg * P.width ins + w.1, w.2))
        ((List.range P.outer).flatMap (P.segmentElements ins)) := by
    refine fills_flatMap (fun seg _ => hsegment seg) ?_ fun seg _ => ?_
    · exact Nat.zero_mul _
    · rw [length_segmentElements, Nat.succ_mul]
  refine hall.perm ?_
  have htasks : (List.range (P.chunks ins)).flatMap (P.task ins blocks) =
      (List.range ins.length).flatMap fun i => (List.range P.outer).flatMap fun seg =>
        (List.range (P.desc ins i).segElems).map (P.elementWrite ins i seg) := by
    have hslots := slotItems_eq (chunkBase_zero (P := P) ins) fun i hi => chunkBase_le hi
    rw [chunkBase_length, slotItems] at hslots
    rw [← hslots, List.flatMap_assoc]
    apply List.flatMap_congr
    intro i hi
    have hi := List.mem_range.1 hi
    rw [← h.input_eq hi blocks]
    apply List.flatMap_congr
    intro q hq
    have hq := List.mem_range'_1.1 hq
    have hle := chunkBase_le (P := P) hi
    exact task_eq hi ⟨hq.1, by omega⟩ blocks
  rw [htasks]
  refine (flatMap_swap _ _ _).trans (List.Perm.of_eq ?_)
  apply List.flatMap_congr
  intro seg _
  rw [segmentWrites, List.map_flatMap]
  apply List.flatMap_congr
  intro i _
  rw [List.map_map, List.map_map]
  apply List.map_congr_left
  intro e _
  show elementWrite P ins i seg e = (seg * P.width ins + (P.width (ins.take i) + e), _)
  rw [elementWrite, ← Nat.add_assoc]
  rfl

end ConcatPlan

end DglAscend.Ascend
