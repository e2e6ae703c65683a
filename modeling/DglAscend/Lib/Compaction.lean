import Mathlib.Data.List.Basic
import Mathlib.Data.List.GetD
import Mathlib.Data.List.TakeDrop

/-!
# Filtering an array in place

The entries that are kept move to the front, one after the other; the rest of the array stays as it was.
Arrays that belong together move in step, so the places that are kept are what the array is described by.
-/

namespace DglAscend

variable {α : Type*} [Inhabited α]

/-- `xs[out] = xs[i]` -/
def moveTo (xs : List α) (out i : ℕ) : List α := xs.set out (xs.getD i default)

/-- The array after the entries at some places have moved to the front. -/
def compacted (xs : List α) (kept : List ℕ) : List α :=
  kept.map (xs.getD · default) ++ xs.drop kept.length

/-- The places below `n` that are kept. -/
def keptBelow (keep : ℕ → Bool) (n : ℕ) : List ℕ := (List.range n).filter keep

variable {xs : List α} {kept : List ℕ} {keep : ℕ → Bool} {i n : ℕ}

lemma compacted_nil (xs : List α) : compacted xs [] = xs := rfl

lemma length_compacted (h : kept.length ≤ xs.length) : (compacted xs kept).length = xs.length := by
  rw [compacted, List.length_append, List.length_map, List.length_drop]
  omega

/-- The places that have not been reached are as they were. -/
lemma compacted_getD (h : kept.length ≤ i) : (compacted xs kept).getD i default = xs.getD i default := by
  rw [compacted, List.getD_append_right _ _ _ _ (by rwa [List.length_map]), List.length_map,
    List.getD_eq_getElem?_getD, List.getElem?_drop, Nat.add_sub_cancel' h, List.getD_eq_getElem?_getD]

/-- **One more entry moves.** -/
lemma moveTo_compacted (h : kept.length ≤ i) (hi : i < xs.length) :
    moveTo (compacted xs kept) kept.length i = compacted xs (kept ++ [i]) := by
  rw [moveTo, compacted_getD h, compacted, compacted, List.set_append_right _ _ (Nat.le_of_eq (List.length_map _)),
    List.length_map, Nat.sub_self, List.map_append, List.map_singleton, List.append_assoc,
    List.length_append, List.length_singleton]
  congr 1
  rw [List.drop_eq_getElem_cons (Nat.lt_of_le_of_lt h hi), List.set_cons_zero, List.singleton_append]

lemma take_compacted : (compacted xs kept).take kept.length = kept.map (xs.getD · default) := by
  rw [compacted, List.take_left' (List.length_map _)]

lemma map_getD_range (xs : List α) : (List.range xs.length).map (xs.getD · default) = xs := by
  apply List.ext_getElem
  · rw [List.length_map, List.length_range]
  · intro p hp hp'
    rw [List.getElem_map, List.getElem_range, List.getD_eq_getElem _ _ hp']

variable (keep : ℕ → Bool)

omit [Inhabited α] in
lemma length_keptBelow_le (n : ℕ) : (keptBelow keep n).length ≤ n := by
  have hle := List.length_filter_le keep (List.range n)
  rwa [List.length_range] at hle

omit [Inhabited α] in
lemma keptBelow_add (m n : ℕ) :
    keptBelow keep (m + n) = keptBelow keep m ++ (List.range' m n).filter keep := by
  have hrange := List.range'_append_1 (s := 0) (m := m) (n := n)
  rw [Nat.zero_add] at hrange
  rw [keptBelow, keptBelow, ← List.filter_append, List.range_eq_range', List.range_eq_range', hrange]

omit [Inhabited α] in
lemma keptBelow_succ (n : ℕ) :
    keptBelow keep (n + 1) = if keep n then keptBelow keep n ++ [n] else keptBelow keep n := by
  rw [keptBelow_add, List.range'_one]
  cases hn : keep n with
  | true => rw [List.filter_cons_of_pos hn, List.filter_nil, if_pos rfl]
  | false => rw [List.filter_cons_of_neg (by rw [hn]; exact nofun), List.filter_nil,
      List.append_nil, if_neg nofun]

omit [Inhabited α] in
/-- The places that are kept of a range of places, found by their numbers. -/
lemma map_keptBelow (m n N : ℕ) : (List.range' (keptBelow keep m).length
      ((keptBelow keep (m + n)).length - (keptBelow keep m).length)).map
        ((keptBelow keep (m + n + N)).getD · 0) = (List.range' m n).filter keep := by
  rw [keptBelow_add keep (m + n), keptBelow_add keep m, List.length_append, Nat.add_sub_cancel_left]
  apply List.ext_getElem
  · rw [List.length_map, List.length_range']
  · intro k hk hk'
    rw [List.getElem_map, List.getElem_range', Nat.one_mul, List.append_assoc,
      List.getD_append_right _ _ _ _ (Nat.le_add_right _ _), Nat.add_sub_cancel_left,
      List.getD_append _ _ _ _ hk', List.getD_eq_getElem _ _ hk']

end DglAscend
