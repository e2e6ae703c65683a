import DglAscend.Ascend.ConcatChunks

/-!
# The cores of a concatenation

A core takes the chunks from its number times its share on.  The shares cover every chunk once exactly if
no share that is taken ends at `2 ^ 32` or behind it and no core begins there; and a core writes its share
exactly if its search ends.
-/

namespace DglAscend.Ascend

open Aten

variable {α : Type}

/-! ## The output -/

variable {a : NDArray α}

namespace ConcatPlan

variable {P : ConcatPlan} {arrays ins : List (NDArray α)}

/-- The elements of an array in a segment of the output. -/
def slice (P : ConcatPlan) (seg : ℕ) (a : NDArray α) : List α :=
  (a.data.drop (seg * P.segElems a)).take (P.segElems a)

/-- The elements of the arrays, segment by segment. -/
def concatenated (P : ConcatPlan) (arrays : List (NDArray α)) : List α :=
  (List.range P.outer).flatMap fun seg => arrays.flatMap (P.slice seg)

variable {seg e : ℕ}

lemma slice_fits (ha : a.data.length = P.outer * P.segElems a) (hseg : seg < P.outer) :
    seg * P.segElems a + P.segElems a ≤ a.data.length := by
  rw [ha, ← Nat.succ_mul]
  exact Nat.mul_le_mul_right _ hseg

lemma length_slice (ha : a.data.length = P.outer * P.segElems a) (hseg : seg < P.outer) :
    (P.slice seg a).length = P.segElems a := by
  have hfits := slice_fits ha hseg
  rw [slice, List.length_take, List.length_drop]
  omega

lemma slice_getElem? (he : e < P.segElems a) :
    (P.slice seg a)[e]? = a.data[seg * P.segElems a + e]? := by
  rw [slice, List.getElem?_take_of_lt he, List.getElem?_drop]

lemma map_slice (ha : a.data.length = P.outer * P.segElems a) (hseg : seg < P.outer) :
    ((List.range (P.segElems a)).map fun e => a.data[seg * P.segElems a + e]?) =
      (P.slice seg a).map some := by
  have hlen := length_slice ha hseg
  apply List.ext_getElem
  · rw [List.length_map, List.length_map, List.length_range, hlen]
  · intro e he he'
    rw [List.length_map, List.length_range] at he
    rw [List.getElem_map, List.getElem_map, List.getElem_range, ← slice_getElem? he,
      List.getElem?_eq_getElem]

section

variable (hdata : ∀ a ∈ arrays, a.data.length = P.outer * P.segElems a)
include hdata

lemma length_slices (hseg : seg < P.outer) :
    (arrays.flatMap (P.slice seg)).length = P.width arrays := by
  rw [List.length_flatMap, width]
  congr 1
  exact List.map_congr_left fun a ha => length_slice (hdata a ha) hseg

/-- The segments of the output are those of the concatenation. -/
lemma segmentElements_eq : (List.range P.outer).flatMap (P.segmentElements (P.inputs arrays)) =
      (P.concatenated arrays).map some := by
  rw [concatenated, List.map_flatMap]
  apply List.flatMap_congr
  intro seg hseg
  have hseg := List.mem_range.1 hseg
  have hins : P.segmentElements (P.inputs arrays) seg = (P.inputs arrays).flatMap fun a =>
      (List.range (P.segElems a)).map fun e => a.data[seg * P.segElems a + e]? :=
    flatMap_range_getD (P.inputs arrays) fun a =>
      (List.range (P.segElems a)).map fun e => a.data[seg * P.segElems a + e]?
  rw [hins, List.map_flatMap]
  clear hins
  induction arrays with
  | nil => rfl
  | cons a arrays ih =>
      have hmap := map_slice (hdata a List.mem_cons_self) hseg
      have hrest := ih fun b hb => hdata b (List.mem_cons_of_mem _ hb)
      rw [List.flatMap_cons, ← hmap, ← hrest]
      by_cases ha : P.segElems a = 0
      · rw [inputs, List.filter_cons_of_neg (by simpa using ha), ha]
        rfl
      · rw [inputs, List.filter_cons_of_pos (by simpa using ha), List.flatMap_cons]
        rfl

lemma length_slicesOf {n : ℕ} (hn : n ≤ P.outer) :
    ((List.range n).flatMap fun seg => arrays.flatMap (P.slice seg)).length = n * P.width arrays := by
  rw [List.length_flatMap, List.map_congr_left fun seg hseg =>
    length_slices hdata ((List.mem_range.1 hseg).trans_le hn), List.map_const', List.sum_replicate,
    List.length_range, smul_eq_mul]

/-- An element of an array in the concatenation. -/
lemma concatenated_getElem? {i : ℕ} (ha : arrays[i]? = some a) (hseg : seg < P.outer)
    (he : e < P.segElems a) :
    (P.concatenated arrays)[seg * P.width arrays + (P.width (arrays.take i) + e)]? =
      a.data[seg * P.segElems a + e]? := by
  have hmem := List.mem_of_getElem? ha
  have hslice : e < (P.slice seg a).length := by rwa [length_slice (hdata a hmem) hseg]
  have hinner := getElem?_flatMap arrays (P.slice seg) ha hslice
  rw [length_slices (fun b hb => hdata b (List.mem_of_mem_take hb)) hseg, slice_getElem? he] at hinner
  have hlt : P.width (arrays.take i) + e < (arrays.flatMap (P.slice seg)).length := by
    by_contra hge
    rw [List.getElem?_eq_none (Nat.not_lt.1 hge), eq_comm, List.getElem?_eq_none_iff] at hinner
    have hfits := slice_fits (hdata a hmem) hseg
    omega
  have houter := getElem?_flatMap (List.range P.outer) (fun seg => arrays.flatMap (P.slice seg))
    (List.getElem?_range hseg) hlt
  rw [List.take_range, Nat.min_eq_left hseg.le, length_slicesOf hdata hseg.le, hinner] at houter
  exact houter

end

end ConcatPlan

namespace Concatenable

variable {arrays : List (NDArray α)} {shape : List ℕ} {axis : ℕ} (h : Concatenable arrays shape axis)
  (t : ConcatType)
include h

lemma data_length (ha : a ∈ arrays) :
    a.data.length = (concatPlan shape axis t).outer * (concatPlan shape axis t).segElems a := by
  have haxis : axis < a.shape.length := by
    rw [h.shapes a ha, List.length_set]
    exact h.axis_lt
  rw [h.data a ha, prod_axis haxis]
  show _ = (shape.take axis).prod * (a.shape.getD axis 0 * (shape.drop (axis + 1)).prod)
  rw [h.shapes a ha, List.take_set_of_le le_rfl, List.drop_set_of_lt (Nat.lt_succ_self axis)]

/-- The concatenation has the elements of the arrays where they belong. -/
lemma isConcatenation :
    IsConcatenation arrays axis ⟨shape, (concatPlan shape axis t).concatenated arrays⟩ where
  length := by
    show ((concatPlan shape axis t).concatenated arrays).length = shape.prod
    rw [ConcatPlan.concatenated, ConcatPlan.length_slicesOf (fun a ha => h.data_length t ha) le_rfl,
      h.prod_eq t]
  elements := by
    intro i a ha idx hidx
    have hmem := List.mem_of_getElem? ha
    have hshape := h.shapes a hmem
    have haxis : axis < a.shape.length := by
      rw [hshape, List.length_set]
      exact h.axis_lt
    have hlen : idx.length = shape.length := by
      rw [hidx.length_eq, hshape, List.length_set]
    have htake : a.shape.take axis = shape.take axis := by rw [hshape, List.take_set_of_le le_rfl]
    have hdrop : a.shape.drop (axis + 1) = shape.drop (axis + 1) := by
      rw [hshape, List.drop_set_of_lt (Nat.lt_succ_self axis)]
    have hseg : flat (shape.take axis) (idx.take axis) < (shape.take axis).prod := by
      rw [← htake]
      exact flat_lt (hidx.take axis)
    have hin : flat (shape.drop (axis + 1)) (idx.drop (axis + 1)) < (shape.drop (axis + 1)).prod := by
      rw [← hdrop]
      exact flat_lt (hidx.drop (axis + 1))
    have hx : idx.getD axis 0 < axisLength axis a := hidx.getD_lt haxis
    have he : idx.getD axis 0 * innerSize shape axis +
        flat (shape.drop (axis + 1)) (idx.drop (axis + 1)) <
          (concatPlan shape axis t).segElems a := by
      calc idx.getD axis 0 * innerSize shape axis + flat (shape.drop (axis + 1)) (idx.drop (axis + 1))
          < idx.getD axis 0 * innerSize shape axis + innerSize shape axis := Nat.add_lt_add_left hin _
        _ = (idx.getD axis 0 + 1) * innerSize shape axis := (Nat.succ_mul _ _).symm
        _ ≤ axisLength axis a * innerSize shape axis := Nat.mul_le_mul_right _ hx
    have hget := ConcatPlan.concatenated_getElem? (P := concatPlan shape axis t)
      (fun b hb => h.data_length t hb) ha hseg he
    rw [h.width_eq t, ConcatPlan.width_eq] at hget
    have hset : axis < idx.length := hlen ▸ h.axis_lt
    have hflat := flat_axis (show (idx.set axis (((arrays.take i).map (axisLength axis)).sum +
      idx.getD axis 0)).length = shape.length by rw [List.length_set, hlen]) h.axis_lt
    rw [List.take_set_of_le le_rfl, List.drop_set_of_lt (Nat.lt_succ_self axis),
      List.getD_eq_getElem _ _ (hset.trans_eq List.length_set.symm), List.getElem_set_self, Nat.add_mul,
      Nat.add_assoc] at hflat
    rw [NDArray.get, NDArray.get, flat_axis hidx.length_eq haxis, htake, hdrop]
    show ((concatPlan shape axis t).concatenated arrays)[flat shape _]? = _
    rw [hflat]
    exact hget

end Concatenable

/-! ## The shares of the cores -/

/-- The chunks that a core takes of `total`. -/
def share (total perCore b : ℕ) : List ℕ :=
  List.range' (u32 (b * perCore)) (min (u32 (u32 (b * perCore) + perCore)) total - u32 (b * perCore))

/-- The last share that is taken ends below `2 ^ 32`, and every core begins there. -/
def SharesFit (total blocks perCore : ℕ) : Prop :=
  ((total - 1) / perCore + 1) * perCore < 2 ^ 32 ∧ (blocks - 1) * perCore < 2 ^ 32

section Shares

variable {total blocks perCore b x : ℕ}

lemma mem_share : x ∈ share total perCore b ↔
    u32 (b * perCore) ≤ x ∧ x < min (u32 (u32 (b * perCore) + perCore)) total := by
  rw [share, List.mem_range'_1]
  omega

/-- A share that is taken is not cut off by the overflow. -/
lemma SharesFit.taken (h : SharesFit total blocks perCore) (hperCore : 0 < perCore)
    (hb : b * perCore < total) : (b + 1) * perCore < 2 ^ 32 := by
  have hle : b ≤ (total - 1) / perCore := (Nat.le_div_iff_mul_le hperCore).2 (by omega)
  exact (Nat.mul_le_mul_right _ (Nat.succ_le_succ hle)).trans_lt h.1

/-- Shares without an overflow cover the chunks. -/
lemma SharesFit.covers (h : SharesFit total blocks perCore) (hperCore : 0 < perCore)
    (hcover : total ≤ blocks * perCore) :
    (List.range blocks).flatMap (share total perCore) = List.range total := by
  have hslots := slotItems_eq (b := fun b => min (b * perCore) total) (n := blocks)
    (by rw [Nat.zero_mul, Nat.zero_min]) fun b _ => by
      have hle : b * perCore ≤ (b + 1) * perCore := Nat.mul_le_mul_right _ (Nat.le_succ b)
      omega
  rw [Nat.min_eq_right hcover, slotItems] at hslots
  rw [← hslots]
  apply List.flatMap_congr
  intro b hb
  have hb := List.mem_range.1 hb
  rw [share]
  by_cases htaken : b * perCore < total
  · have hend := h.taken hperCore htaken
    rw [Nat.succ_mul] at hend ⊢
    rw [u32_eq (by omega), u32_eq hend]
    congr 1
    · omega
    · omega
  · have hle : b * perCore ≤ (blocks - 1) * perCore := Nat.mul_le_mul_right _ (by omega)
    have hlast := h.2
    rw [u32_eq (by omega), Nat.succ_mul]
    have hzero : min (u32 (b * perCore + perCore)) total - b * perCore = 0 := by omega
    have hzero' : min (b * perCore + perCore) total - min (b * perCore) total = 0 := by omega
    rw [hzero, hzero']
    rfl

/-- The last chunks are not taken if their share ends behind `2 ^ 32`. -/
lemma last_not_taken (htotal : 0 < total) (hlt : total < 2 ^ 32) (hperCore : 0 < perCore)
    (hle : perCore ≤ total) (htight : blocks * perCore < total + blocks)
    (hsum : blocks + perCore ≤ total + 1)
    (hlast : 2 ^ 32 ≤ ((total - 1) / perCore + 1) * perCore) (hb : b < blocks) :
    (total - 1) / perCore * perCore ∉ share total perCore b := by
  have hx := Nat.div_mul_le_self (total - 1) perCore
  have hrest := Nat.lt_div_mul_add hperCore (a := total - 1)
  rw [Nat.succ_mul] at hlast
  rw [mem_share]
  rintro ⟨hfrom, hto⟩
  have hto := lt_of_lt_of_le hto (Nat.min_le_left _ _)
  rcases lt_trichotomy b ((total - 1) / perCore) with hbelow | rfl | habove
  · have hmul : (b + 1) * perCore ≤ (total - 1) / perCore * perCore := Nat.mul_le_mul_right _ hbelow
    rw [Nat.succ_mul] at hmul
    rw [u32_eq (show b * perCore < 2 ^ 32 by omega),
      u32_eq (show b * perCore + perCore < 2 ^ 32 by omega)] at hto
    omega
  · rw [u32_eq (show (total - 1) / perCore * perCore < 2 ^ 32 by omega), u32] at hto
    omega
  · have hmul : ((total - 1) / perCore + 1) * perCore ≤ b * perCore := Nat.mul_le_mul_right _ habove
    have hend : (b + 1) * perCore ≤ blocks * perCore := Nat.mul_le_mul_right _ hb
    rw [Nat.succ_mul] at hmul hend
    have hwrap : u32 (b * perCore) = b * perCore - 2 ^ 32 := by
      rw [u32]
      omega
    have hle' := u32_le (u32 (b * perCore) + perCore)
    rw [hwrap] at hle' hto
    omega

/-- A core that begins at `2 ^ 32` or behind it takes chunks again. -/
lemma taken_twice (hlt : total < 2 ^ 32) (hperCore : 0 < perCore) (hle : perCore ≤ total)
    (htight : blocks * perCore < total + blocks)
    (hlast : ((total - 1) / perCore + 1) * perCore < 2 ^ 32)
    (hbegin : 2 ^ 32 ≤ (blocks - 1) * perCore) :
    ∃ b < blocks, b ≠ 0 ∧ ∃ x, x ∈ share total perCore b ∧ x ∈ share total perCore 0 := by
  have hfirst : perCore ≤ ((total - 1) / perCore + 1) * perCore := Nat.le_mul_of_pos_left _ (Nat.succ_pos _)
  obtain ⟨m, hm, hm'⟩ : ∃ m, m * perCore < 2 ^ 32 ∧ 2 ^ 32 ≤ m * perCore + perCore :=
    ⟨(2 ^ 32 - 1) / perCore,
      (Nat.div_mul_le_self _ _).trans_lt (by norm_num),
      Nat.succ_le_of_lt (Nat.lt_div_mul_add hperCore (a := 2 ^ 32 - 1))⟩
  have hone : 1 ≤ m := by
    rcases Nat.eq_zero_or_pos m with rfl | hpos
    · omega
    · exact hpos
  have hblocks : m + 1 < blocks := by
    by_contra hge
    have hmul : (blocks - 1) * perCore ≤ m * perCore := Nat.mul_le_mul_right _ (by omega)
    omega
  have hthree : 3 * (perCore - 1) ≤ blocks * (perCore - 1) := Nat.mul_le_mul_right _ (by omega)
  rw [Nat.mul_sub, Nat.mul_sub, Nat.mul_one, Nat.mul_one] at hthree
  obtain ⟨x, hx⟩ : ∃ x, m * perCore + perCore = 2 ^ 32 + x := ⟨_, (Nat.add_sub_cancel' hm').symm⟩
  have hwrap : u32 ((m + 1) * perCore) = x := by
    rw [Nat.succ_mul, hx, u32, Nat.add_mod_left]
    exact Nat.mod_eq_of_lt (by omega)
  have hnext : u32 (x + perCore) = x + perCore := u32_eq (by omega)
  have hshare : u32 perCore = perCore := u32_eq (by omega)
  refine ⟨m + 1, hblocks, Nat.succ_ne_zero _, x, ?_, ?_⟩
  · rw [mem_share, hwrap, hnext]
    omega
  · have hzero : u32 0 = 0 := rfl
    rw [mem_share, Nat.zero_mul, hzero, Nat.zero_add, hshare]
    omega

/-- **When the shares cover the chunks**: each is taken once exactly if nothing overflows. -/
theorem shares_perm_iff (htotal : 0 < total) (hlt : total < 2 ^ 32) (hblocks : 0 < blocks)
    (hle : blocks ≤ total) :
    ((List.range blocks).flatMap (share total ((total + blocks - 1) / blocks))).Perm (List.range total) ↔
      SharesFit total blocks ((total + blocks - 1) / blocks) := by
  obtain ⟨c, hc⟩ : ∃ c, (total + blocks - 1) / blocks = c := ⟨_, rfl⟩
  have hdiv := Nat.div_mul_le_self (total + blocks - 1) blocks
  have hrest := Nat.lt_div_mul_add hblocks (a := total + blocks - 1)
  rw [hc, Nat.mul_comm] at hdiv hrest
  rw [hc]
  have hpos : 0 < c := hc ▸ Nat.div_pos (by omega) hblocks
  have hcle : c ≤ total := by
    rw [← hc, Nat.div_le_iff_le_mul_add_pred hblocks]
    have hmul := Nat.le_mul_of_pos_left total hblocks
    omega
  have hsum : blocks + c ≤ total + 1 := by
    have hprod : (blocks - 1) + (c - 1) ≤ blocks * c - blocks ∨ c = 1 := by
      rcases Nat.lt_or_ge 1 c with hgt | hge
      · refine Or.inl ?_
        obtain ⟨b', rfl⟩ : ∃ b', blocks = b' + 1 := ⟨blocks - 1, by omega⟩
        obtain ⟨c', rfl⟩ : ∃ c', c = c' + 2 := ⟨c - 2, by omega⟩
        have hexpand : (b' + 1) * (c' + 2) = b' * c' + 2 * b' + c' + 2 := by ring
        rw [hexpand]
        have hnn := Nat.zero_le (b' * c')
        omega
      · exact Or.inr (by omega)
    omega
  constructor
  · intro hperm
    by_contra hnot
    by_cases hlast : ((total - 1) / c + 1) * c < 2 ^ 32
    · have hbegin : 2 ^ 32 ≤ (blocks - 1) * c := by
        by_contra hge
        exact hnot ⟨hlast, Nat.not_le.1 hge⟩
      obtain ⟨b, hb, hne, x, hx, hx'⟩ := taken_twice hlt hpos hcle (by omega) hlast hbegin
      have hnodup := hperm.nodup_iff.2 List.nodup_range
      have hsymm : Std.Symm (Function.onFun List.Disjoint (share total c)) := ⟨fun _ _ h => h.symm⟩
      exact List.disjoint_left.1 ((List.nodup_flatMap.1 hnodup).2.forall (List.mem_range.2 hb)
        (List.mem_range.2 hblocks) hne) hx hx'
    · have hx := Nat.div_mul_le_self (total - 1) c
      have hmem := hperm.symm.subset (List.mem_range.2 (show (total - 1) / c * c < total by omega))
      obtain ⟨b, hb, hmem⟩ := List.mem_flatMap.1 hmem
      exact last_not_taken htotal hlt hpos hcle (by omega) hsum (Nat.not_lt.1 hlast)
        (List.mem_range.1 hb) hmem
  · intro hfit
    rw [hfit.covers hpos (by omega)]

end Shares

end DglAscend.Ascend
