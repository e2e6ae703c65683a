import DglAscend.Lib.Slots
import Mathlib.Data.List.Nodup

/-!
# Blocks numbered one behind the other

The members of some blocks get consecutive numbers in the order of the blocks.
-/

namespace DglAscend

variable {α : Type*} [DecidableEq α]

/-- The members of the blocks in the order of their numbers. -/
def blockTable (blocks : List α) (size : α → ℕ) : List (α × ℕ) :=
  blocks.flatMap fun a => (List.range (size a)).map (Prod.mk a)

/-- The number of the first member of a block. -/
def blockOffset (blocks : List α) (size : α → ℕ) (a : α) : ℕ :=
  ((blocks.take (blocks.idxOf a)).map size).sum

variable {blocks : List α} {size : α → ℕ} {a : α} {j : ℕ}

omit [DecidableEq α] in
lemma length_blockTable : (blockTable blocks size).length = (blocks.map size).sum := by
  rw [blockTable, List.length_flatMap]
  congr 1
  apply List.map_congr_left
  intro b _
  rw [List.length_map, List.length_range]

omit [DecidableEq α] in
lemma mem_blockTable : (a, j) ∈ blockTable blocks size ↔ a ∈ blocks ∧ j < size a := by
  rw [blockTable, List.mem_flatMap]
  constructor
  · rintro ⟨b, hb, hmem⟩
    obtain ⟨i, hi, heq⟩ := List.mem_map.1 hmem
    obtain ⟨rfl, rfl⟩ := Prod.mk.inj heq
    exact ⟨hb, List.mem_range.1 hi⟩
  · rintro ⟨ha, hj⟩
    exact ⟨a, ha, List.mem_map_of_mem (List.mem_range.2 hj)⟩

omit [DecidableEq α] in
lemma nodup_blockTable (h : blocks.Nodup) : (blockTable blocks size).Nodup := by
  rw [blockTable, List.nodup_flatMap]
  constructor
  · intro b _
    exact List.nodup_range.map fun i i' hi => (Prod.mk.inj hi).2
  · apply h.imp
    intro b b' hne p hp hp'
    obtain ⟨i, -, rfl⟩ := List.mem_map.1 hp
    obtain ⟨i', -, heq⟩ := List.mem_map.1 hp'
    exact hne (Prod.mk.inj heq).1.symm

lemma blockTable_get (ha : a ∈ blocks) (hj : j < size a) :
    (blockTable blocks size)[blockOffset blocks size a + j]? = some (a, j) := by
  have hidx : blocks[blocks.idxOf a]? = some a := by
    rw [List.getElem?_eq_getElem (List.idxOf_lt_length_of_mem ha), List.getElem_idxOf]
  have hget := getElem?_flatMap blocks (fun b => (List.range (size b)).map (Prod.mk b)) hidx
    (k := j) (by rwa [List.length_map, List.length_range])
  rw [show ((blocks.take (blocks.idxOf a)).flatMap fun b => (List.range (size b)).map (Prod.mk b)) =
    blockTable (blocks.take (blocks.idxOf a)) size from rfl, length_blockTable] at hget
  rw [blockOffset, blockTable, hget, List.getElem?_map, List.getElem?_range hj]
  rfl

/-- **The numbering is one to one.** -/
theorem blockTable_get_iff (h : blocks.Nodup) (ha : a ∈ blocks) (hj : j < size a) {k : ℕ} :
    (blockTable blocks size)[k]? = some (a, j) ↔ k = blockOffset blocks size a + j := by
  constructor
  · intro hk
    have hlt := (List.getElem?_eq_some_iff.1 hk).1
    exact (List.getElem?_inj hlt (nodup_blockTable h)).1 (hk.trans (blockTable_get ha hj).symm)
  · rintro rfl
    exact blockTable_get ha hj

end DglAscend
