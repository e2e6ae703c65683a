import Mathlib.Algebra.BigOperators.Group.Finset.Piecewise
import Mathlib.Algebra.BigOperators.Intervals
import Mathlib.Algebra.Order.BigOperators.Group.Finset
import Mathlib.Algebra.Order.BigOperators.Group.List
import Mathlib.Tactic

/-!
# Alias tables

Every item has a cell of the same size.  A cell belongs to its item up to a bound, and the rest of it to
one other item, its alias.  The table is built from two queues, of the items that need less than a cell
and of those that need more: an item of the first gives the rest of its cell to one of the second
(`AliasTable.step`).  At the end every item has as much of all cells together as it needs
(`AliasTable.Inv.sum_part_eq`).
-/

namespace DglAscend

/-- The bounds in the cells, the aliases, and the items that have not got all they need, with what they
still need of the cells. -/
structure AliasTable (K : Type*) where
  bound : ℕ → K
  other : ℕ → ℕ
  less : List (ℕ × K)
  more : List (ℕ × K)

namespace AliasTable

variable {K : Type*} [Field K] [LinearOrder K]

/-- Cells of a size `avg` that all belong to their items. -/
def init (avg : K) (n : ℕ) (need : ℕ → K) : AliasTable K where
  bound _ := avg
  other i := i
  less := ((List.range n).filter fun i => ¬avg < need i).map fun i => (i, need i)
  more := ((List.range n).filter fun i => avg < need i).map fun i => (i, need i)

/-- The first item of `less` keeps what it needs, and the first of `more` gets the rest. -/
def step (avg : K) (t : AliasTable K) : Option (AliasTable K) :=
  match t.less, t.more with
  | u :: us, o :: os =>
    some {
      bound := Function.update t.bound u.1 u.2
      other := Function.update t.other u.1 o.1
      less := if o.2 + u.2 < 2 * avg then us ++ [(o.1, o.2 + u.2 - avg)] else us
      more := if 2 * avg < o.2 + u.2 then os ++ [(o.1, o.2 + u.2 - avg)] else os }
  | _, _ => none

/-- The loop, while there are items in both queues. -/
def run (avg : K) : ℕ → AliasTable K → AliasTable K
  | 0, t => t
  | fuel + 1, t => match t.step avg with
    | some t' => run avg fuel t'
    | none => t

/-- The part of cell `i` that an item has. -/
def part (avg : K) (t : AliasTable K) (j i : ℕ) : K :=
  (if i = j then t.bound i else 0) + if t.other i = j then avg - t.bound i else 0

/-- What the items in a queue need more than a cell. -/
def excess (avg : K) (l : List (ℕ × K)) (j : ℕ) : K :=
  (l.map fun x => if x.1 = j then x.2 - avg else 0).sum

/-- The items in the queues are different and have their cells, the others have a part of theirs. -/
structure Inv (avg : K) (n : ℕ) (need : ℕ → K) (t : AliasTable K) : Prop where
  nodup : ((t.less ++ t.more).map Prod.fst).Nodup
  lt : ∀ x ∈ t.less ++ t.more, x.1 < n
  own : ∀ x ∈ t.less ++ t.more, t.bound x.1 = avg ∧ t.other x.1 = x.1
  less_le : ∀ x ∈ t.less, 0 ≤ x.2 ∧ x.2 ≤ avg
  more_gt : ∀ x ∈ t.more, avg < x.2
  bound_mem : ∀ i < n, 0 ≤ t.bound i ∧ t.bound i ≤ avg
  other_lt : ∀ i < n, t.other i < n
  share : ∀ j < n, ∑ i ∈ Finset.range n, t.part avg j i + excess avg (t.less ++ t.more) j = need j

variable {avg : K} {n : ℕ} {need : ℕ → K} {t t' : AliasTable K}

omit [LinearOrder K] in
lemma excess_perm {l l' : List (ℕ × K)} (h : l.Perm l') (j : ℕ) : excess avg l j = excess avg l' j :=
  (h.map _).sum_eq

omit [LinearOrder K] in
lemma excess_cons (x : ℕ × K) (l : List (ℕ × K)) (j : ℕ) :
    excess avg (x :: l) j = (if x.1 = j then x.2 - avg else 0) + excess avg l j := by
  rw [excess, excess, List.map_cons, List.sum_cons]

/-- The queues after a step: the item that gave is gone, the one that got is behind the others if it
does not have exactly a cell left to need. -/
lemma step_cases (h : t.step avg = some t') : ∃ u o : ℕ × K, ∃ us os : List (ℕ × K),
    t.less = u :: us ∧ t.more = o :: os ∧
      t'.bound = Function.update t.bound u.1 u.2 ∧ t'.other = Function.update t.other u.1 o.1 ∧
      ((o.2 + u.2 < 2 * avg ∧ t'.less = us ++ [(o.1, o.2 + u.2 - avg)] ∧ t'.more = os) ∨
        (2 * avg < o.2 + u.2 ∧ t'.less = us ∧ t'.more = os ++ [(o.1, o.2 + u.2 - avg)]) ∨
        o.2 + u.2 = 2 * avg ∧ t'.less = us ∧ t'.more = os) := by
  rw [step] at h
  split at h
  · rename_i u us o os hless hmore
    obtain rfl := Option.some.inj h
    refine ⟨u, o, us, os, hless, hmore, rfl, rfl, ?_⟩
    rcases lt_trichotomy (o.2 + u.2) (2 * avg) with hlt | heq | hgt
    · exact Or.inl ⟨hlt, if_pos hlt, if_neg hlt.le.not_gt⟩
    · exact Or.inr (Or.inr ⟨heq, if_neg heq.not_lt, if_neg heq.not_gt⟩)
    · exact Or.inr (Or.inl ⟨hgt, if_neg hgt.le.not_gt, if_pos hgt⟩)
  · cases h

lemma step_none (h : t.step avg = none) : t.less = [] ∨ t.more = [] := by
  rw [step] at h
  split at h
  · cases h
  · rename_i hnone
    cases hless : t.less with
    | nil => exact Or.inl rfl
    | cons u us =>
        cases hmore : t.more with
        | nil => exact Or.inr rfl
        | cons o os => exact absurd hmore (hnone u us o os hless)

omit [LinearOrder K] in
/-- The part of the cell that is given away goes to the alias. -/
lemma sum_part_update {u o : ℕ} {x : K} (hu : u < n) (hbound : t.bound u = avg) (hother : t.other u = u)
    (hbound' : t'.bound = Function.update t.bound u x) (hother' : t'.other = Function.update t.other u o)
    (j : ℕ) : ∑ i ∈ Finset.range n, t'.part avg j i =
      ∑ i ∈ Finset.range n, t.part avg j i + (if u = j then x - avg else 0) +
        if o = j then avg - x else 0 := by
  have hmem : u ∈ Finset.range n := Finset.mem_range.2 hu
  have hrest : ∑ i ∈ (Finset.range n).erase u, t'.part avg j i =
      ∑ i ∈ (Finset.range n).erase u, t.part avg j i := by
    refine Finset.sum_congr rfl fun i hi => ?_
    have hne := Finset.ne_of_mem_erase hi
    rw [part, part, hbound', hother', Function.update_of_ne hne, Function.update_of_ne hne]
  rw [← Finset.add_sum_erase _ _ hmem, ← Finset.add_sum_erase _ _ hmem, hrest, part, part, hbound',
    hother', Function.update_self, Function.update_self, hbound, hother]
  split_ifs <;> ring

section Step

variable [IsStrictOrderedRing K]

/-- **Step lemma**: an item gives the rest of its cell away. -/
lemma Inv.step (h : t.Inv avg n need) (hstep : t.step avg = some t') : t'.Inv avg n need := by
  obtain ⟨u, o, us, os, hless, hmore, hbound, hother, hcases⟩ := step_cases hstep
  set r : ℕ × K := (o.1, o.2 + u.2 - avg) with hr
  have hperm : (t.less ++ t.more).Perm (u :: o :: (us ++ os)) := by
    rw [hless, hmore]
    exact List.perm_middle.cons u
  have hu := h.less_le u (hless ▸ List.mem_cons_self)
  have ho := h.more_gt o (hmore ▸ List.mem_cons_self)
  have hlt := fun x hx => h.lt x (hperm.mem_iff.2 hx)
  have hown := fun x hx => h.own x (hperm.mem_iff.2 hx)
  have hnodup := (hperm.map Prod.fst).nodup_iff.1 h.nodup
  simp only [List.map_cons, List.nodup_cons, List.mem_cons, not_or] at hnodup
  obtain ⟨⟨huo, hu_rest⟩, ho_rest, hrest⟩ := hnodup
  have hult := hlt u List.mem_cons_self
  -- The items behind keep their cells.
  have hkeep {x : ℕ × K} (hx : x.1 ≠ u.1) (hold : t.bound x.1 = avg ∧ t.other x.1 = x.1) :
      t'.bound x.1 = avg ∧ t'.other x.1 = x.1 := by
    rw [hbound, hother, Function.update_of_ne hx, Function.update_of_ne hx]
    exact hold
  have hbehind : ∀ x ∈ us ++ os, x.1 < n ∧ t'.bound x.1 = avg ∧ t'.other x.1 = x.1 := by
    intro x hx
    have hmem : x ∈ u :: o :: (us ++ os) := List.mem_cons_of_mem _ (List.mem_cons_of_mem _ hx)
    exact ⟨hlt x hmem, hkeep (fun heq => hu_rest (heq ▸ List.mem_map_of_mem hx)) (hown x hmem)⟩
  have hgot : r.1 < n ∧ t'.bound r.1 = avg ∧ t'.other r.1 = r.1 := by
    have hmem : o ∈ u :: o :: (us ++ os) := List.mem_cons_of_mem _ List.mem_cons_self
    exact ⟨hlt o hmem, hkeep (x := r) (Ne.symm huo) (hown o hmem)⟩
  have hshare (j : ℕ) (hj : j < n) : ∑ i ∈ Finset.range n, t'.part avg j i +
      ((if r.1 = j then r.2 - avg else 0) + excess avg (us ++ os) j) = need j := by
    obtain ⟨hb, ho'⟩ := hown u List.mem_cons_self
    rw [← h.share j hj, excess_perm hperm, excess_cons, excess_cons,
      sum_part_update hult hb ho' hbound hother]
    simp only [hr]
    split_ifs <;> ring
  obtain ⟨hle, hgt, l, hl, hqueues⟩ : (∀ x ∈ t'.less, 0 ≤ x.2 ∧ x.2 ≤ avg) ∧ (∀ x ∈ t'.more, avg < x.2) ∧
      ∃ l, (t'.less ++ t'.more).Perm l ∧ (l = r :: (us ++ os) ∨ l = us ++ os ∧ r.2 = avg) := by
    have hus : ∀ x ∈ us, 0 ≤ x.2 ∧ x.2 ≤ avg := fun x hx =>
      h.less_le x (hless ▸ List.mem_cons_of_mem _ hx)
    have hos : ∀ x ∈ os, avg < x.2 := fun x hx => h.more_gt x (hmore ▸ List.mem_cons_of_mem _ hx)
    rcases hcases with ⟨hsum, hless', hmore'⟩ | ⟨hsum, hless', hmore'⟩ | ⟨hsum, hless', hmore'⟩
    · rw [hless', hmore']
      refine ⟨fun x hx => ?_, hos, r :: (us ++ os), ?_, Or.inl rfl⟩
      · rcases List.mem_append.1 hx with hx | hx
        · exact hus x hx
        · obtain rfl := List.mem_singleton.1 hx
          exact ⟨by simp only [hr]; linarith, by simp only [hr]; linarith⟩
      · rw [List.append_assoc]
        exact List.perm_middle
    · rw [hless', hmore']
      refine ⟨hus, fun x hx => ?_, r :: (us ++ os), ?_, Or.inl rfl⟩
      · rcases List.mem_append.1 hx with hx | hx
        · exact hos x hx
        · obtain rfl := List.mem_singleton.1 hx
          simp only [hr]
          linarith
      · rw [← List.append_assoc]
        exact List.perm_append_singleton _ _
    · rw [hless', hmore']
      exact ⟨hus, hos, us ++ os, .refl _, Or.inr ⟨rfl, by simp only [hr]; linarith⟩⟩
  have hall : ∀ x ∈ t'.less ++ t'.more, x.1 < n ∧ t'.bound x.1 = avg ∧ t'.other x.1 = x.1 := by
    intro x hx
    rcases hqueues with rfl | ⟨rfl, -⟩
    · rcases List.mem_cons.1 (hl.mem_iff.1 hx) with rfl | hx
      · exact hgot
      · exact hbehind x hx
    · exact hbehind x (hl.mem_iff.1 hx)
  refine ⟨?_, fun x hx => (hall x hx).1, fun x hx => (hall x hx).2, hle, hgt, fun i hi => ?_,
    fun i hi => ?_, fun j hj => ?_⟩
  · rw [(hl.map Prod.fst).nodup_iff]
    rcases hqueues with rfl | ⟨rfl, -⟩
    · exact List.nodup_cons.2 ⟨ho_rest, hrest⟩
    · exact hrest
  · rw [hbound]
    rcases eq_or_ne i u.1 with rfl | hne
    · rw [Function.update_self]
      exact hu
    · rw [Function.update_of_ne hne]
      exact h.bound_mem i hi
  · rw [hother]
    rcases eq_or_ne i u.1 with rfl | hne
    · rw [Function.update_self]
      exact hgot.1
    · rw [Function.update_of_ne hne]
      exact h.other_lt i hi
  · rw [excess_perm hl, ← hshare j hj]
    rcases hqueues with rfl | ⟨rfl, havg⟩
    · rw [excess_cons]
    · rw [havg, sub_self, ite_self, zero_add]

omit [IsStrictOrderedRing K] in
lemma length_step (hstep : t.step avg = some t') :
    t'.less.length + t'.more.length < t.less.length + t.more.length := by
  obtain ⟨u, o, us, os, hless, hmore, -, -, hcases⟩ := step_cases hstep
  rw [hless, hmore, List.length_cons, List.length_cons]
  rcases hcases with ⟨-, hless', hmore'⟩ | ⟨-, hless', hmore'⟩ | ⟨-, hless', hmore'⟩
  · rw [hless', hmore', List.length_append, List.length_singleton]
    omega
  · rw [hless', hmore', List.length_append, List.length_singleton]
    omega
  · rw [hless', hmore']
    omega

/-- **Run lemma**: the loop ends with an empty queue. -/
lemma Inv.run (h : t.Inv avg n need) {fuel : ℕ} (hfuel : t.less.length + t.more.length ≤ fuel) :
    (t.run avg fuel).Inv avg n need ∧ (t.run avg fuel).step avg = none := by
  induction fuel generalizing t with
  | zero =>
      have hless := List.length_eq_zero_iff.1 (Nat.eq_zero_of_add_eq_zero_right (Nat.le_zero.1 hfuel))
      exact ⟨h, by rw [AliasTable.run, AliasTable.step, hless]⟩
  | succ fuel ih =>
      rw [AliasTable.run]
      cases hstep : t.step avg with
      | none => exact ⟨h, hstep⟩
      | some t' => exact ih (h.step hstep) (by have := length_step hstep; omega)

/-- What the items in the queues need more than a cell adds up to nothing. -/
lemma Inv.sum_excess (h : t.Inv avg n need) (htotal : ∑ j ∈ Finset.range n, need j = n * avg) :
    ((t.less ++ t.more).map fun x => x.2 - avg).sum = 0 := by
  have hparts : ∑ j ∈ Finset.range n, ∑ i ∈ Finset.range n, t.part avg j i = n * avg := by
    rw [Finset.sum_comm]
    calc ∑ i ∈ Finset.range n, ∑ j ∈ Finset.range n, t.part avg j i
        = ∑ i ∈ Finset.range n, avg := by
          refine Finset.sum_congr rfl fun i hi => ?_
          have hother := Finset.mem_range.2 (h.other_lt i (Finset.mem_range.1 hi))
          simp only [part]
          rw [Finset.sum_add_distrib, Finset.sum_ite_eq, if_pos hi, Finset.sum_ite_eq, if_pos hother]
          ring
      _ = n * avg := by rw [Finset.sum_const, Finset.card_range, nsmul_eq_mul]
  have hexcess (l : List (ℕ × K)) (hl : ∀ x ∈ l, x.1 < n) :
      ∑ j ∈ Finset.range n, excess avg l j = (l.map fun x => x.2 - avg).sum := by
    induction l with
    | nil => exact Finset.sum_const_zero
    | cons x l ih =>
        simp only [excess_cons]
        rw [Finset.sum_add_distrib, ih fun y hy => hl y (List.mem_cons_of_mem _ hy),
          Finset.sum_ite_eq, if_pos (Finset.mem_range.2 (hl x List.mem_cons_self)), List.map_cons,
          List.sum_cons]
  have hsum := Finset.sum_congr rfl fun j hj => h.share j (Finset.mem_range.1 hj)
  rw [Finset.sum_add_distrib, hparts, hexcess _ h.lt, htotal] at hsum
  exact add_eq_left.1 hsum

/-- At the end every item has what it needs. -/
theorem Inv.sum_part_eq (h : t.Inv avg n need) (hnone : t.step avg = none)
    (htotal : ∑ j ∈ Finset.range n, need j = n * avg) {j : ℕ} (hj : j < n) :
    ∑ i ∈ Finset.range n, t.part avg j i = need j := by
  have hsum := h.sum_excess htotal
  have hzero : ∀ x ∈ t.less ++ t.more, x.2 - avg = 0 := by
    rcases step_none hnone with hless | hmore
    · rw [hless, List.nil_append] at hsum ⊢
      intro x hx
      have hpos : ∀ y ∈ t.more.map fun x => x.2 - avg, 0 ≤ y := by
        intro y hy
        obtain ⟨z, hz, rfl⟩ := List.mem_map.1 hy
        exact (sub_pos.2 (h.more_gt z hz)).le
      exact List.all_zero_of_le_zero_le_of_sum_eq_zero hpos hsum (List.mem_map_of_mem hx)
    · rw [hmore, List.append_nil] at hsum ⊢
      intro x hx
      have hneg : ((t.less.map fun x => avg - x.2)).sum = 0 := by
        have hflip : (t.less.map fun x => avg - x.2) = (t.less.map fun x => x.2 - avg).map fun y => -y := by
          rw [List.map_map]
          exact List.map_congr_left fun x _ => (neg_sub x.2 avg).symm
        rw [hflip, ← List.sum_neg, hsum, neg_zero]
      have hpos : ∀ y ∈ t.less.map fun x => avg - x.2, 0 ≤ y := by
        intro y hy
        obtain ⟨z, hz, rfl⟩ := List.mem_map.1 hy
        exact sub_nonneg.2 (h.less_le z hz).2
      have heq := List.all_zero_of_le_zero_le_of_sum_eq_zero hpos hneg (List.mem_map_of_mem hx)
      linarith
  have hnothing : excess avg (t.less ++ t.more) j = 0 := by
    rw [excess]
    apply List.sum_eq_zero
    intro y hy
    obtain ⟨x, hx, rfl⟩ := List.mem_map.1 hy
    rw [hzero x hx, ite_self]
  have hshare := h.share j hj
  rwa [hnothing, add_zero] at hshare

end Step

/-! ## From the start -/

omit [Field K] in
lemma init_perm (avg : K) (n : ℕ) (need : ℕ → K) : ((init avg n need).less ++ (init avg n need).more).Perm
    ((List.range n).map fun i => (i, need i)) := by
  rw [init, ← List.map_append]
  apply List.Perm.map
  have hsplit := List.filter_append_perm (fun i => decide (avg < need i)) (List.range n)
  refine List.perm_append_comm.trans ?_
  simpa only [decide_not] using hsplit

/-- At the start the cells belong to their items. -/
lemma inv_init (havg : 0 ≤ avg) (hneed : ∀ i < n, 0 ≤ need i) : (init avg n need).Inv avg n need := by
  have hperm := init_perm avg n need
  have hmem : ∀ x ∈ (init avg n need).less ++ (init avg n need).more, x.1 < n := by
    intro x hx
    obtain ⟨i, hi, rfl⟩ := List.mem_map.1 (hperm.mem_iff.1 hx)
    exact List.mem_range.1 hi
  refine ⟨?_, hmem, fun x _ => ⟨rfl, rfl⟩, fun x hx => ?_, fun x hx => ?_, fun i _ => ⟨havg, le_rfl⟩,
    fun i hi => hi, fun j hj => ?_⟩
  · rw [(hperm.map Prod.fst).nodup_iff, List.map_map]
    simpa [Function.comp_def] using List.nodup_range
  · obtain ⟨i, hi, rfl⟩ := List.mem_map.1 hx
    obtain ⟨hi, hle⟩ := List.mem_filter.1 hi
    exact ⟨hneed i (List.mem_range.1 hi), not_lt.1 (of_decide_eq_true hle)⟩
  · obtain ⟨i, hi, rfl⟩ := List.mem_map.1 hx
    exact of_decide_eq_true (List.mem_filter.1 hi).2
  · have hparts : ∑ i ∈ Finset.range n, (init avg n need).part avg j i = avg := by
      simp only [part, init, sub_self, ite_self, add_zero]
      rw [Finset.sum_ite_eq', if_pos (Finset.mem_range.2 hj)]
    have hsum : excess avg ((List.range n).map fun i => (i, need i)) j =
        ∑ i ∈ Finset.range n, if i = j then need i - avg else 0 := by
      rw [excess, List.map_map]
      rfl
    rw [hparts, excess_perm hperm, hsum, Finset.sum_ite_eq', if_pos (Finset.mem_range.2 hj)]
    ring

end AliasTable

end DglAscend
