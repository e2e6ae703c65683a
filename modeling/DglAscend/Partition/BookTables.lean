import DglAscend.Partition.Book
import DglAscend.Lib.Slots

/-!
# The tables of a book

In a book whose ranges tile the ids, partition by partition, every table lists the ends of the
partitions: those of all ids, and those of the ids of one type.
-/

namespace DglAscend.Partition

variable {κ : Type} [DecidableEq κ] {numParts p : ℕ} {r : Ranges} {rs : List Ranges}

/-! ## Totals -/

lemma getElem?_scanl_add {l : List ℤ} (a : ℤ) {p : ℕ} (hp : p ≤ l.length) :
    (l.scanl (· + ·) a)[p]? = some (a + (l.take p).sum) := by
  induction l generalizing a p with
  | nil =>
      obtain rfl := Nat.le_zero.1 hp
      simp
  | cons x l ih =>
      cases p with
      | zero => simp
      | succ p =>
          rw [List.scanl_cons, List.getElem?_cons_succ, ih _ (Nat.le_of_succ_le_succ hp),
            List.take_succ_cons, List.sum_cons, add_assoc]

/-- How many ids of a type are in the first partitions. -/
def Ranges.before (r : Ranges) (p : ℕ) : ℤ := (r.counts.take p).sum

lemma Ranges.before_zero : r.before 0 = 0 := rfl

lemma cumsum_counts (r : Ranges) : cumsum r.counts = endsOf r.before r.length := by
  have hlen : r.counts.length = r.length := List.length_map _
  apply List.ext_getElem?
  intro p
  by_cases hp : p < r.length
  · rw [getElem?_endsOf hp, cumsum, List.getElem?_tail, getElem?_scanl_add 0 (by omega), zero_add,
      Ranges.before]
  · rw [List.getElem?_eq_none (by rw [cumsum, List.length_tail, List.length_scanl, hlen]; omega),
      List.getElem?_eq_none (by rw [endsOf, List.length_map, List.length_range]; omega)]

lemma Ranges.before_succ (hp : p < r.length) :
    r.before (p + 1) = r.before p + ((r.get p).2 - (r.get p).1) := by
  have hget : r.counts[p]? = some ((r.get p).2 - (r.get p).1) := by
    rw [Ranges.counts, List.getElem?_map, Ranges.get, List.getD_eq_getElem?_getD,
      List.getElem?_eq_getElem hp]
    rfl
  rw [Ranges.before, Ranges.before, List.take_add_one, List.sum_append, hget]
  simp

/-! ## Rows -/

/-- The ranges of all types in a partition. -/
def row (rs : List Ranges) (p : ℕ) : List (ℤ × ℤ) := rs.map fun r => r.get p

lemma interleave_succ (n : ℕ) (rs : List Ranges) :
    IdMap.interleave (n + 1) rs = IdMap.interleave n rs ++ row rs n := by
  rw [IdMap.interleave, List.range_succ, List.flatMap_append, List.flatMap_singleton]
  rfl

lemma exists_interleave_append {n : ℕ} (hp : p ≤ n) (rs : List Ranges) :
    ∃ rest, IdMap.interleave n rs = IdMap.interleave p rs ++ rest := by
  induction n, hp using Nat.le_induction with
  | base => exact ⟨[], (List.append_nil _).symm⟩
  | succ n _ ih =>
      obtain ⟨rest, hrest⟩ := ih
      exact ⟨rest ++ row rs n, by rw [interleave_succ, hrest, List.append_assoc]⟩

/-- The cell of a type in the row of a partition. -/
lemma getElem?_interleave {i : ℕ} (hp : p < numParts) (hi : i < rs.length) :
    (IdMap.interleave numParts rs)[p * rs.length + i]? = some (rs[i].get p) := by
  have hlen : ((List.range p).flatMap fun p => rs.map fun r => r.get p).length = p * rs.length := by
    simp [List.length_flatMap]
  have hcell := getElem?_flatMap (List.range numParts) (fun p => rs.map fun r => r.get p)
    (List.getElem?_range hp) (k := i) (by simpa using hi)
  rw [List.take_range, min_eq_left hp.le, hlen, List.getElem?_map, List.getElem?_eq_getElem hi] at hcell
  exact hcell

/-- The ranges of the types tile the ids, partition by partition. -/
structure Layout (numParts : ℕ) (rs : List Ranges) : Prop where
  ne_nil : rs ≠ []
  length_eq : ∀ r ∈ rs, r.length = numParts
  consecutive : Consecutive 0 (IdMap.interleave numParts rs)

/-- Where a partition starts. -/
def homoEnd (rs : List Ranges) (p : ℕ) : ℤ := endOf 0 (IdMap.interleave p rs)

lemma homoEnd_succ (rs : List Ranges) (p : ℕ) :
    homoEnd rs (p + 1) = endOf (homoEnd rs p) (row rs p) := by
  rw [homoEnd, interleave_succ, endOf_append]
  rfl

namespace Layout

variable (h : Layout numParts rs)
include h

lemma row_consecutive (hp : p < numParts) : Consecutive (homoEnd rs p) (row rs p) := by
  obtain ⟨rest, hrest⟩ := exists_interleave_append (Nat.succ_le_of_lt hp) rs
  have hall := h.consecutive
  rw [hrest, consecutive_append, interleave_succ, consecutive_append] at hall
  exact hall.1.2

/-- The range of a type lies in the partition. -/
lemma range_bounds (hr : r ∈ rs) (hp : p < numParts) : homoEnd rs p ≤ (r.get p).1 ∧
    (r.get p).1 ≤ (r.get p).2 ∧ (r.get p).2 ≤ homoEnd rs (p + 1) := by
  rw [homoEnd_succ]
  exact (h.row_consecutive hp).bounds (List.mem_map_of_mem hr)

lemma homoEnd_mono : ∀ p < numParts, homoEnd rs p ≤ homoEnd rs (p + 1) := by
  intro p hp
  rw [homoEnd_succ]
  exact (h.row_consecutive hp).le_endOf

lemma before_mono (hr : r ∈ rs) : ∀ p < numParts, r.before p ≤ r.before (p + 1) := by
  intro p hp
  obtain ⟨-, hle, -⟩ := h.range_bounds hr hp
  rw [Ranges.before_succ (by rwa [h.length_eq r hr])]
  omega

lemma exists_end (p : ℕ) : ∃ r ∈ rs, (r.get p).2 = homoEnd rs (p + 1) := by
  have hrow : row rs p ≠ [] := fun hnil => h.ne_nil (List.map_eq_nil_iff.1 hnil)
  obtain ⟨x, hx, hend⟩ := exists_mem_endOf (homoEnd rs p) hrow
  obtain ⟨r, hr, rfl⟩ := List.mem_map.1 hx
  exact ⟨r, hr, by rw [hend, homoEnd_succ]⟩

lemma exists_range {id : ℤ} (h0 : 0 ≤ id) (hlt : id < homoEnd rs numParts) :
    ∃ p < numParts, ∃ i, ∃ hi : i < rs.length, (rs[i].get p).1 ≤ id ∧ id < (rs[i].get p).2 := by
  obtain ⟨p, hp, h1, h2⟩ := exists_between (f := homoEnd rs) h0 hlt
  rw [homoEnd_succ] at h2
  obtain ⟨hj, h3, h4⟩ := (h.row_consecutive hp).findIdx_spec h1 h2
  have hlen : (row rs p).length = rs.length := List.length_map _
  refine ⟨p, hp, (row rs p).findIdx (fun r => id < r.2), by omega, ?_, ?_⟩
  · simpa [row] using h3
  · simpa [row] using h4

end Layout

/-! ## `IdMap` -/

lemma getElem?_typedMap {i : ℕ} (hlen : ∀ r ∈ rs, r.length = numParts) (hi : i < rs.length)
    (hp : p < numParts) :
    (rs.flatMap fun r => cumsum r.counts)[numParts * i + p]? = some (rs[i].before (p + 1)) := by
  have hlens : ((rs.take i).flatMap fun r => cumsum r.counts).length = numParts * i := by
    have hsum : ∀ r ∈ rs.take i, (cumsum r.counts).length = numParts := by
      intro r hr
      rw [cumsum_counts, endsOf, List.length_map, List.length_range,
        hlen r (List.mem_of_mem_take hr)]
    rw [List.length_flatMap, List.map_congr_left hsum, List.map_const', List.sum_replicate,
      List.length_take, min_eq_left hi.le, smul_eq_mul, Nat.mul_comm]
  have hr := hlen rs[i] (List.getElem_mem hi)
  have hcell := getElem?_flatMap rs (fun r => cumsum r.counts) (List.getElem?_eq_getElem hi)
    (k := p) (by rw [cumsum_counts, endsOf, List.length_map, List.length_range, hr]; exact hp)
  rwa [hlens, cumsum_counts, hr, getElem?_endsOf hp] at hcell

/-- **A lookup** finds the type and the number of the id among those of the type. -/
theorem Layout.call_eq (h : Layout numParts rs) {m : IdMap} (hparts : m.numParts = numParts)
    (htypes : m.numTypes = rs.length)
    (hstart : m.rangeStart = (IdMap.interleave numParts rs).map Prod.fst)
    (hend : m.rangeEnd = (IdMap.interleave numParts rs).map fun x => x.2 - 1)
    (hmap : m.typedMap = rs.flatMap fun r => cumsum r.counts) {i : ℕ} {id : ℤ} (hp : p < numParts)
    (hi : i < rs.length) (h1 : (rs[i].get p).1 ≤ id) (h2 : id < (rs[i].get p).2) :
    m.call id = some (i, id - (rs[i].get p).1 + rs[i].before p) := by
  have hcell := getElem?_interleave hp hi
  obtain ⟨hj, hget⟩ := List.getElem?_eq_some_iff.1 hcell
  have hidx : lowerBound m.rangeEnd id = p * rs.length + i := by
    have hfind := h.consecutive.findIdx_eq hj (x := id) (by rwa [hget]) (by rwa [hget])
    rw [lowerBound, hend, List.findIdx_map, ← hfind]
    congr 1
    funext x
    simp only [Function.comp_apply, Int.le_sub_one_iff]
  have hmod : (p * rs.length + i) % rs.length = i := by
    rw [Nat.add_comm, Nat.add_mul_mod_self_right, Nat.mod_eq_of_lt hi]
  have hdiv : (p * rs.length + i) / rs.length = p := by
    rw [Nat.add_comm, Nat.add_mul_div_right _ _ (by omega), Nat.div_eq_of_lt hi, Nat.zero_add]
  have hlast : ¬p * rs.length + i = m.rangeEnd.length := by
    rw [hend, List.length_map]
    exact hj.ne
  have hs : m.rangeStart.getD (p * rs.length + i) 0 = (rs[i].get p).1 := by
    rw [hstart, List.getD_eq_getElem?_getD, List.getElem?_map, hcell]
    rfl
  simp only [IdMap.call, hidx, htypes, hmod, hdiv, hparts, hs]
  rw [if_neg hlast, if_neg (not_not.2 hp)]
  by_cases hzero : p = 0
  · rw [if_pos hzero, hzero, Ranges.before_zero, add_zero]
  · obtain ⟨q, rfl⟩ := Nat.exists_eq_succ_of_ne_zero hzero
    rw [if_neg hzero, hmap, List.getD_eq_getElem?_getD, Nat.succ_eq_add_one,
      show numParts * i + (q + 1) - 1 = numParts * i + q by omega,
      getElem?_typedMap h.length_eq hi (by omega)]
    rfl

end DglAscend.Partition
