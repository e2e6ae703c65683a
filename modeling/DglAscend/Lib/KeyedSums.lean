import Mathlib.Algebra.BigOperators.Group.List.Basic
import Mathlib.Algebra.BigOperators.Ring.Finset
import Mathlib.Data.List.Nodup
import Mathlib.Data.List.Perm.Lattice

/-!
# Sets and sums by key

A hash set that collects keys, and a hash map that adds up the values of each key, as lists in the
order in which the keys came.  The map denotes the function `sumAt`.
-/

namespace DglAscend

variable {κ M : Type*} [DecidableEq κ] [AddCommMonoid M]

/-- `set.insert(k)` -/
def insertKey (keys : List κ) (k : κ) : List κ := if k ∈ keys then keys else keys ++ [k]

/-- The set of some keys. -/
def keySet (ks : List κ) : List κ := ks.foldl insertKey []

/-- `map[k] += v`: a new key starts with zero. -/
def addTo (map : List (κ × M)) (t : κ × M) : List (κ × M) :=
  if t.1 ∈ map.map Prod.fst then map.map fun x => if x.1 = t.1 then (x.1, x.2 + t.2) else x
  else map ++ [(t.1, 0 + t.2)]

/-- The map of some keys and values. -/
def keyedSums (ts : List (κ × M)) : List (κ × M) := ts.foldl addTo []

/-- The sum of the values of a key. -/
def sumAt (ts : List (κ × M)) (k : κ) : M := (ts.map fun t => if t.1 = k then t.2 else 0).sum

/-! ## Keys -/

variable {ks keys : List κ}

lemma nodup_insertKey (h : keys.Nodup) (k : κ) : (insertKey keys k).Nodup := by
  unfold insertKey
  by_cases hk : k ∈ keys
  · rw [if_pos hk]
    exact h
  · rw [if_neg hk]
    have hconcat := h.concat hk
    rwa [List.concat_eq_append] at hconcat

lemma mem_insertKey {k k' : κ} : k' ∈ insertKey keys k ↔ k' ∈ keys ∨ k' = k := by
  unfold insertKey
  by_cases hk : k ∈ keys
  · rw [if_pos hk]
    exact ⟨.inl, fun h => h.elim id fun h => h ▸ hk⟩
  · rw [if_neg hk, List.mem_append, List.mem_singleton]

lemma foldl_insertKey_spec (h : keys.Nodup) (ks : List κ) :
    (ks.foldl insertKey keys).Nodup ∧ ∀ k, k ∈ ks.foldl insertKey keys ↔ k ∈ keys ∨ k ∈ ks := by
  induction ks generalizing keys with
  | nil => exact ⟨h, fun k => by simp⟩
  | cons a ks ih =>
      obtain ⟨hnodup, hmem⟩ := ih (nodup_insertKey h a)
      refine ⟨hnodup, fun k => ?_⟩
      rw [List.foldl_cons, hmem, mem_insertKey, List.mem_cons, or_assoc]

lemma nodup_keySet (ks : List κ) : (keySet ks).Nodup := (foldl_insertKey_spec List.nodup_nil ks).1

lemma mem_keySet {k : κ} : k ∈ keySet ks ↔ k ∈ ks := by
  have hmem := (foldl_insertKey_spec List.nodup_nil ks).2 k
  simpa [keySet] using hmem

/-- Every list of the same keys without repetition is as long. -/
lemma length_eq_keySet (hnodup : keys.Nodup) (hmem : ∀ k, k ∈ keys ↔ k ∈ ks) :
    keys.length = (keySet ks).length :=
  ((List.perm_ext_iff_of_nodup hnodup (nodup_keySet ks)).2 fun k =>
    (hmem k).trans mem_keySet.symm).length_eq

/-! ## Sums -/

lemma map_fst_addTo (map : List (κ × M)) (t : κ × M) :
    (addTo map t).map Prod.fst = insertKey (map.map Prod.fst) t.1 := by
  unfold addTo insertKey
  by_cases ht : t.1 ∈ map.map Prod.fst
  · rw [if_pos ht, if_pos ht, List.map_map]
    apply List.map_congr_left
    intro x _
    show (if x.1 = t.1 then (x.1, x.2 + t.2) else x).1 = x.1
    split <;> rfl
  · rw [if_neg ht, if_neg ht, List.map_append]
    rfl

variable (ts : List (κ × M))

lemma map_fst_keyedSums : (keyedSums ts).map Prod.fst = keySet (ts.map Prod.fst) := by
  have hfold : ∀ map : List (κ × M), (ts.foldl addTo map).map Prod.fst =
      (ts.map Prod.fst).foldl insertKey (map.map Prod.fst) := by
    induction ts with
    | nil => exact fun _ => rfl
    | cons t ts ih =>
        intro map
        rw [List.foldl_cons, ih, map_fst_addTo, List.map_cons, List.foldl_cons]
  exact hfold []

lemma sumAt_append (ts ts' : List (κ × M)) (k : κ) :
    sumAt (ts ++ ts') k = sumAt ts k + sumAt ts' k := by
  rw [sumAt, List.map_append, List.sum_append]
  rfl

lemma sumAt_cons (t : κ × M) (ts : List (κ × M)) (k : κ) :
    sumAt (t :: ts) k = (if t.1 = k then t.2 else 0) + sumAt ts k := by
  rw [sumAt, List.map_cons, List.sum_cons]
  rfl

lemma sumAt_flatMap {α : Type*} (l : List α) (f : α → List (κ × M)) (k : κ) :
    sumAt (l.flatMap f) k = (l.map fun a => sumAt (f a) k).sum := by
  induction l with
  | nil => rfl
  | cons a l ih => rw [List.flatMap_cons, sumAt_append, ih, List.map_cons, List.sum_cons]

lemma sumAt_eq_filter (k : κ) : sumAt ts k = ((ts.filter fun t => t.1 = k).map Prod.snd).sum := by
  induction ts with
  | nil => rfl
  | cons t ts ih =>
      rw [sumAt_cons, ih, List.filter_cons]
      by_cases hk : t.1 = k
      · rw [if_pos hk, if_pos (decide_eq_true hk), List.map_cons, List.sum_cons]
      · rw [if_neg hk, if_neg (by simpa using hk), zero_add]

lemma sumAt_of_notMem {ts : List (κ × M)} {k : κ} (h : k ∉ ts.map Prod.fst) : sumAt ts k = 0 := by
  induction ts with
  | nil => rfl
  | cons t ts ih =>
      rw [List.map_cons, List.mem_cons, not_or] at h
      rw [sumAt_cons, if_neg (Ne.symm h.1), ih h.2, zero_add]

lemma sumAt_of_mem {map : List (κ × M)} (hnodup : (map.map Prod.fst).Nodup) {x : κ × M}
    (hx : x ∈ map) : sumAt map x.1 = x.2 := by
  induction map with
  | nil => cases hx
  | cons t map ih =>
      rw [List.map_cons, List.nodup_cons] at hnodup
      rcases List.mem_cons.1 hx with rfl | hx
      · rw [sumAt_cons, if_pos rfl, sumAt_of_notMem hnodup.1, add_zero]
      · have hne : t.1 ≠ x.1 := fun heq => hnodup.1 (heq ▸ List.mem_map_of_mem hx)
        rw [sumAt_cons, if_neg hne, zero_add, ih hnodup.2 hx]

lemma sumAt_addTo {map : List (κ × M)} (hnodup : (map.map Prod.fst).Nodup) (t : κ × M) (k : κ) :
    sumAt (addTo map t) k = sumAt map k + if t.1 = k then t.2 else 0 := by
  unfold addTo
  by_cases ht : t.1 ∈ map.map Prod.fst
  · rw [if_pos ht]
    induction map with
    | nil => cases ht
    | cons x map ih =>
        rw [List.map_cons, List.nodup_cons] at hnodup
        rw [List.map_cons, sumAt_cons, sumAt_cons]
        by_cases hx : x.1 = t.1
        · -- the key is not in the rest of the map
          have hrest : map.map (fun y => if y.1 = t.1 then (y.1, y.2 + t.2) else y) = map := by
            refine (List.map_congr_left fun y hy => ?_).trans (List.map_id map)
            refine if_neg fun heq => hnodup.1 ?_
            rw [hx, ← heq]
            exact List.mem_map_of_mem hy
          rw [hrest, if_pos hx, hx]
          by_cases hk : t.1 = k
          · rw [if_pos hk, if_pos hk, if_pos hk, add_right_comm]
          · rw [if_neg hk, if_neg hk, if_neg hk, add_zero]
        · rw [if_neg hx]
          rw [List.map_cons, List.mem_cons] at ht
          rw [ih hnodup.2 (ht.resolve_left (Ne.symm hx)), add_assoc]
  · rw [if_neg ht, sumAt_append, sumAt_cons, zero_add]
    show _ + (_ + 0) = _
    rw [add_zero]

/-- **The map** holds the sum of each key. -/
theorem sumAt_keyedSums (k : κ) : sumAt (keyedSums ts) k = sumAt ts k := by
  have hfold : ∀ map : List (κ × M), (map.map Prod.fst).Nodup →
      sumAt (ts.foldl addTo map) k = sumAt map k + sumAt ts k := by
    induction ts with
    | nil => exact fun map _ => (add_zero _).symm
    | cons t ts ih =>
        intro map hmap
        have hnodup : ((addTo map t).map Prod.fst).Nodup := by
          rw [map_fst_addTo]
          exact nodup_insertKey hmap t.1
        rw [List.foldl_cons, ih _ hnodup, sumAt_addTo hmap, sumAt_cons, add_assoc]
  exact (hfold [] List.nodup_nil).trans (zero_add _)

lemma nodup_keyedSums : ((keyedSums ts).map Prod.fst).Nodup := by
  rw [map_fst_keyedSums]
  exact nodup_keySet _

/-- The value of a key in the map. -/
theorem value_of_mem_keyedSums {ts : List (κ × M)} {x : κ × M} (hx : x ∈ keyedSums ts) :
    x.2 = sumAt ts x.1 := by
  rw [← sumAt_keyedSums, sumAt_of_mem (nodup_keyedSums ts) hx]

/-- Values weighted by a function of their keys, key by key. -/
lemma sum_map_mul {R : Type*} [NonUnitalNonAssocSemiring R] (ts : List (ℕ × R)) (f : ℕ → R) {n : ℕ}
    (h : ∀ t ∈ ts, t.1 < n) :
    (ts.map fun t => t.2 * f t.1).sum = ∑ k ∈ Finset.range n, sumAt ts k * f k := by
  induction ts with
  | nil =>
      refine (Finset.sum_eq_zero fun k _ => ?_).symm
      exact zero_mul _
  | cons t ts ih =>
      have hfirst : ∑ k ∈ Finset.range n, (if t.1 = k then t.2 else 0) * f k = t.2 * f t.1 := by
        have hmem : t.1 ∈ Finset.range n := Finset.mem_range.2 (h t List.mem_cons_self)
        rw [Finset.sum_eq_single_of_mem t.1 hmem fun k _ hk => by rw [if_neg (Ne.symm hk), zero_mul],
          if_pos rfl]
      rw [List.map_cons, List.sum_cons, ih fun t' ht' => h t' (List.mem_cons_of_mem _ ht'), ← hfirst,
        ← Finset.sum_add_distrib]
      refine Finset.sum_congr rfl fun k _ => ?_
      rw [sumAt_cons, add_mul]

end DglAscend
