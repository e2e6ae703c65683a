import Mathlib.Data.List.GetD
import Mathlib.Tactic

/-!
# Stable grouping

`bucketOrder part n N` lists the indices below `N` bucket by bucket, each bucket in increasing
order: it is what a stable counting sort by `part` computes.  The place of an index in it is the
number of indices in earlier buckets plus the number of smaller indices in its own.
-/

namespace DglAscend

variable {part : ℕ → ℕ} {n N : ℕ}

/-- The indices below `N` in bucket `p`. -/
def bucket (part : ℕ → ℕ) (N p : ℕ) : List ℕ := (List.range N).filter fun i => part i = p

/-- The indices below `N`, grouped by their buckets below `n`. -/
def bucketOrder (part : ℕ → ℕ) (n N : ℕ) : List ℕ := (List.range n).flatMap (bucket part N)

/-- How many indices `i` with `a ≤ i < b` are in bucket `p`. -/
def countIn (part : ℕ → ℕ) (p a b : ℕ) : ℕ := (List.range' a (b - a)).countP fun i => part i = p

/-- The place at which bucket `p` begins. -/
def bucketStart (part : ℕ → ℕ) (N p : ℕ) : ℕ := ((List.range p).map fun q => countIn part q 0 N).sum

lemma length_bucket (part : ℕ → ℕ) (N p : ℕ) : (bucket part N p).length = countIn part p 0 N := by
  rw [bucket, countIn, ← List.countP_eq_length_filter, Nat.sub_zero, List.range_eq_range']

variable {p i : ℕ}

lemma mem_bucket : i ∈ bucket part N p ↔ i < N ∧ part i = p := by
  simp [bucket]

lemma countIn_self (part : ℕ → ℕ) (p a : ℕ) : countIn part p a a = 0 := by
  simp [countIn]

lemma countIn_add (part : ℕ → ℕ) (p : ℕ) {a b c : ℕ} (hab : a ≤ b) (hbc : b ≤ c) :
    countIn part p a b + countIn part p b c = countIn part p a c := by
  have hsplit : List.range' a (c - a) = List.range' a (b - a) ++ List.range' b (c - b) := by
    have := (List.range'_append_1 : List.range' a (b - a) ++ List.range' (a + (b - a)) (c - b) = _)
    rw [show a + (b - a) = b by omega, show (b - a) + (c - b) = c - a by omega] at this
    exact this.symm
  rw [countIn, countIn, countIn, hsplit, List.countP_append]

lemma countIn_succ_left (part : ℕ → ℕ) (p : ℕ) {a b : ℕ} (h : a < b) :
    countIn part p a b = (if part a = p then 1 else 0) + countIn part p (a + 1) b := by
  rw [countIn, countIn, show b - a = (b - (a + 1)) + 1 by omega, List.range'_succ,
    List.countP_cons, add_comm]
  simp

/-- The items of a list that are in bucket `p`. -/
lemma countP_eq_countIn {α : Type*} {P : α → Bool} (l : List α)
    (h : ∀ i (hi : i < l.length), P l[i] = decide (part i = p)) :
    l.countP P = countIn part p 0 l.length := by
  induction l using List.reverseRecOn with
  | nil => rfl
  | append_singleton l x ih =>
      have hlast := h l.length (by simp)
      rw [List.getElem_concat_length rfl] at hlast
      have hl : l.countP P = countIn part p 0 l.length := by
        apply ih
        intro i hi
        have hget := h i (by simp; omega)
        rwa [List.getElem_append_left hi] at hget
      rw [List.countP_append, hl, List.length_append, List.length_singleton,
        ← countIn_add part p (Nat.zero_le _) (Nat.le_succ l.length),
        countIn_succ_left part p (Nat.lt_succ_self _), countIn_self, Nat.add_zero,
        List.countP_singleton, hlast]
      simp

lemma bucketStart_succ (part : ℕ → ℕ) (N p : ℕ) :
    bucketStart part N (p + 1) = bucketStart part N p + countIn part p 0 N := by
  simp [bucketStart, List.range_succ]

lemma range_split {m N : ℕ} (h : m < N) :
    List.range N = List.range m ++ m :: List.range' (m + 1) (N - (m + 1)) := by
  obtain ⟨k, rfl⟩ := Nat.exists_eq_add_of_lt h
  rw [show m + k + 1 - (m + 1) = k by omega, List.range_eq_range', List.range_eq_range',
    ← List.range'_succ, show m + k + 1 = m + (k + 1) by omega]
  simpa using (List.range'_append_1 : List.range' 0 m ++ List.range' (0 + m) (k + 1) = _).symm

/-- Only the buckets of the indices below `N` matter. -/
lemma bucketOrder_congr {part' : ℕ → ℕ} (h : ∀ i < N, part i = part' i) (n : ℕ) :
    bucketOrder part n N = bucketOrder part' n N := by
  have hbucket (p : ℕ) : bucket part N p = bucket part' N p := by
    apply List.filter_congr
    intro i hi
    rw [h i (List.mem_range.1 hi)]
  rw [bucketOrder, bucketOrder, funext hbucket]

/-- The index `i` stands in its bucket behind the smaller ones. -/
lemma bucket_getElem? (part : ℕ → ℕ) (hi : i < N) :
    (bucket part N (part i))[countIn part (part i) 0 i]? = some i := by
  have hlen : countIn part (part i) 0 i =
      ((List.range i).filter fun j => part j = part i).length := by
    rw [← length_bucket, bucket]
  rw [bucket, range_split hi, List.filter_append, List.filter_cons, if_pos (by simp), hlen,
    List.getElem?_append_right le_rfl, Nat.sub_self, List.getElem?_cons_zero]

lemma bucketOrder_getElem? {p k : ℕ} (hp : p < n) (hk : k < (bucket part N p).length) :
    (bucketOrder part n N)[bucketStart part N p + k]? = (bucket part N p)[k]? := by
  have hlen : ((List.range p).flatMap (bucket part N)).length = bucketStart part N p := by
    simp only [List.length_flatMap, length_bucket, bucketStart]
  rw [bucketOrder, range_split hp, List.flatMap_append, List.flatMap_cons,
    List.getElem?_append_right (by omega), hlen, Nat.add_sub_cancel_left,
    List.getElem?_append_left hk]

/-- **The place of an index** in the order. -/
theorem bucketOrder_place (hi : i < N) (hp : part i < n) :
    (bucketOrder part n N)[bucketStart part N (part i) + countIn part (part i) 0 i]? = some i := by
  have hget := bucket_getElem? part hi
  rw [bucketOrder_getElem? hp (List.getElem?_eq_some_iff.1 hget).1, hget]

lemma nodup_bucketOrder (part : ℕ → ℕ) (n N : ℕ) : (bucketOrder part n N).Nodup := by
  rw [bucketOrder, List.nodup_flatMap]
  refine ⟨fun p _ => List.nodup_range.filter _, ?_⟩
  refine List.Pairwise.imp ?_ List.nodup_range
  intro p q hpq i hi hi'
  exact hpq ((mem_bucket.1 hi).2.symm.trans (mem_bucket.1 hi').2)

lemma mem_bucketOrder : i ∈ bucketOrder part n N ↔ i < N ∧ part i < n := by
  simp only [bucketOrder, List.mem_flatMap, List.mem_range, mem_bucket]
  constructor
  · rintro ⟨p, hp, hi, rfl⟩
    exact ⟨hi, hp⟩
  · rintro ⟨hi, hp⟩
    exact ⟨part i, hp, hi, rfl⟩

/-- **Grouping is a permutation** of the indices. -/
theorem bucketOrder_perm (h : ∀ i < N, part i < n) :
    (bucketOrder part n N).Perm (List.range N) := by
  refine (List.perm_ext_iff_of_nodup (nodup_bucketOrder part n N) List.nodup_range).2 fun i => ?_
  rw [mem_bucketOrder, List.mem_range]
  exact and_iff_left_of_imp (h i)

lemma length_bucketOrder (h : ∀ i < N, part i < n) : (bucketOrder part n N).length = N := by
  rw [(bucketOrder_perm h).length_eq, List.length_range]

/-- All buckets together end at `N`. -/
lemma bucketStart_last (h : ∀ i < N, part i < n) : bucketStart part N n = N := by
  have hlen := length_bucketOrder h
  rw [bucketOrder, List.length_flatMap] at hlen
  simpa only [length_bucket, bucketStart] using hlen

/-- Counting two properties that exclude each other. -/
lemma countP_add_countP {α : Type*} {P Q R : α → Prop} [DecidablePred P] [DecidablePred Q]
    [DecidablePred R] (l : List α) (hor : ∀ x ∈ l, R x ↔ P x ∨ Q x)
    (hand : ∀ x ∈ l, P x → ¬ Q x) :
    l.countP (fun x => P x) + l.countP (fun x => Q x) = l.countP fun x => R x := by
  induction l with
  | nil => rfl
  | cons x xs ih =>
      have ih := ih (fun y hy => hor y (List.mem_cons_of_mem x hy))
        fun y hy => hand y (List.mem_cons_of_mem x hy)
      have hx := hor x List.mem_cons_self
      have hx' := hand x List.mem_cons_self
      simp only [List.countP_cons, decide_eq_true_eq]
      split_ifs <;> first | omega | tauto

lemma bucketStart_eq_countP (part : ℕ → ℕ) (N p : ℕ) :
    bucketStart part N p = (List.range N).countP fun i => part i < p := by
  induction p with
  | zero => simp [bucketStart]
  | succ p ih =>
      rw [bucketStart_succ, ih, countIn, Nat.sub_zero, ← List.range_eq_range']
      apply countP_add_countP
      · intro i _
        omega
      · intro i _
        omega

/-- A place with the earlier buckets before it and the others behind it is the start of a bucket. -/
lemma bucketStart_eq (hi : i ≤ N) (hbefore : ∀ j < i, part j < p)
    (hbehind : ∀ j, i ≤ j → j < N → p ≤ part j) : bucketStart part N p = i := by
  obtain ⟨k, rfl⟩ := Nat.exists_eq_add_of_le hi
  rw [bucketStart_eq_countP, List.range_add, List.countP_append, List.countP_eq_length.2,
    List.countP_eq_zero.2, List.length_range, Nat.add_zero]
  · intro j hj
    obtain ⟨k', hk', rfl⟩ := List.mem_map.1 hj
    have hk' := List.mem_range.1 hk'
    simpa using hbehind (i + k') (by omega) (by omega)
  · intro j hj
    simpa using hbefore j (List.mem_range.1 hj)

lemma bucketOrder_slice (hp : p < n) :
    ((bucketOrder part n N).take (bucketStart part N (p + 1))).drop (bucketStart part N p) =
      bucket part N p := by
  have hlen : ((List.range p).flatMap (bucket part N)).length = bucketStart part N p := by
    simp only [List.length_flatMap, length_bucket, bucketStart]
  rw [bucketOrder, range_split hp, List.flatMap_append, List.flatMap_cons, bucketStart_succ,
    ← hlen, ← length_bucket, List.take_length_add_append, List.take_left, List.drop_left]

lemma map_bucketOrder {β : Type*} (l : List β) (key : β → ℕ) (d : β) (n : ℕ)
    (h : ∀ i (hi : i < l.length), part i = key l[i]) :
    (bucketOrder part n l.length).map (fun i => l.getD i d) =
      (List.range n).flatMap fun p => l.filter fun x => key x = p := by
  have hget : (List.range l.length).map (fun i => l.getD i d) = l := by
    apply List.ext_getElem
    · rw [List.length_map, List.length_range]
    · intro i hi hi'
      rw [List.getElem_map, List.getElem_range, List.getD_eq_getElem _ _ hi']
  rw [bucketOrder, List.map_flatMap]
  congr 1
  funext p
  nth_rewrite 3 [← hget]
  rw [List.filter_map, bucket]
  congr 1
  apply List.filter_congr
  intro i hi
  have hi := List.mem_range.1 hi
  rw [h i hi, Function.comp_apply, List.getD_eq_getElem _ _ hi]

lemma countP_keyAt {β : Type*} {l : List β} {key : β → ℕ}
    (h : ∀ i (hi : i < l.length), part i = key l[i]) :
    l.countP (fun x => key x < p) = (List.range l.length).countP fun i => part i < p := by
  have hmap : l.map key = (List.range l.length).map part := by
    apply List.ext_getElem
    · rw [List.length_map, List.length_map, List.length_range]
    · intro i hi hi'
      rw [List.length_map] at hi
      rw [List.getElem_map, List.getElem_map, List.getElem_range, h i hi]
  have hcount := congrArg (List.countP fun q => q < p) hmap
  rwa [List.countP_map, List.countP_map] at hcount

/-- The place of an index determines it, and every place is one of an index. -/
lemma exists_place (h : ∀ i < N, part i < n) {j : ℕ} (hj : j < N) :
    ∃ i < N, bucketStart part N (part i) + countIn part (part i) 0 i = j := by
  have hlt : j < (bucketOrder part n N).length := by rwa [length_bucketOrder h]
  have hi := (mem_bucketOrder.1 (List.getElem_mem hlt)).1
  refine ⟨(bucketOrder part n N)[j], hi, ?_⟩
  obtain ⟨hlt', heq⟩ := List.getElem?_eq_some_iff.1 (bucketOrder_place hi (h _ hi))
  exact (nodup_bucketOrder part n N).getElem_inj_iff.1 heq

/-- Indices whose buckets never go down are in bucket order. -/
lemma bucketOrder_of_mono (h : ∀ i < N, part i < n)
    (hmono : ∀ i j, i ≤ j → j < N → part i ≤ part j) : bucketOrder part n N = List.range N := by
  have hsorted : (bucketOrder part n N).Pairwise (· < ·) := by
    rw [bucketOrder, List.pairwise_flatMap]
    refine ⟨fun p _ => List.pairwise_lt_range.filter _, ?_⟩
    refine List.Pairwise.imp ?_ List.pairwise_lt_range
    intro p q hpq i hi j hj
    obtain ⟨hiN, hip⟩ := mem_bucket.1 hi
    obtain ⟨hjN, hjq⟩ := mem_bucket.1 hj
    by_contra hle
    have hdown := hmono j i (Nat.not_lt.1 hle) hiN
    omega
  exact List.Perm.eq_of_pairwise' hsorted List.pairwise_lt_range (bucketOrder_perm h)

/-! ## Sorting -/

section Sorting

variable {κ : Type*} [LinearOrder κ] {key : ℕ → κ}

/-- Keys first, then positions. -/
def keyLE (a b : κ × ℕ) : Bool := decide (a.1 < b.1 ∨ a.1 = b.1 ∧ a.2 ≤ b.2)

/-- A stable sort of a list with its positions breaks ties by position. -/
lemma mergeSort_eq_keyLE (key : ℕ → κ) (N : ℕ) :
    ((List.range N).map fun i => (key i, i)).mergeSort (fun a b => decide (a.1 ≤ b.1)) =
      ((List.range N).map fun i => (key i, i)).mergeSort keyLE := by
  rw [← List.mergeSort_zipIdx]
  have hmem : ∀ x ∈ ((List.range N).map fun i => (key i, i)).zipIdx, x.1.2 = x.2 := by
    intro x hx
    obtain ⟨h1, h2⟩ := List.mem_zipIdx' hx
    rw [h2, List.getElem_map, List.getElem_range]
  have hle : ∀ a ∈ ((List.range N).map fun i => (key i, i)).zipIdx,
      ∀ b ∈ ((List.range N).map fun i => (key i, i)).zipIdx,
        List.zipIdxLE (fun a b => decide (a.1 ≤ b.1)) a b = keyLE a.1 b.1 := by
    intro a ha b hb
    rw [keyLE, hmem a ha, hmem b hb]
    simp only [List.zipIdxLE]
    rcases lt_trichotomy a.1.1 b.1.1 with hlt | heq | hgt
    · simp [hlt, hlt.le, not_le.2 hlt]
    · simp [heq]
    · simp [not_le.2 hgt, not_lt.2 hgt.le, hgt.ne']
  have hfst := List.map_mergeSort (f := Prod.fst) hle
  rw [List.zipIdx_map_fst] at hfst
  exact hfst

/-- **A stable sort groups the positions** by their buckets. -/
theorem mergeSort_eq_bucketOrder (h : ∀ i < N, part i < n)
    (hkey : ∀ i < N, ∀ j < N, key i ≤ key j ↔ part i ≤ part j) :
    ((List.range N).map fun i => (key i, i)).mergeSort (fun a b => decide (a.1 ≤ b.1)) =
      (bucketOrder part n N).map fun i => (key i, i) := by
  rw [mergeSort_eq_keyLE]
  refine @List.Perm.eq_of_pairwise _ (fun a b => keyLE a b = true) _ _ ?_ ?_ ?_ ?_
  · intro a b _ _ hab hba
    simp only [keyLE, decide_eq_true_eq] at hab hba
    rcases hab with hlt | ⟨heq, hle⟩
    · rcases hba with hlt' | ⟨heq', -⟩
      · exact absurd hlt (lt_asymm hlt')
      · exact absurd heq' hlt.ne'
    · rcases hba with hlt' | ⟨-, hle'⟩
      · exact absurd heq hlt'.ne'
      · exact Prod.ext heq (le_antisymm hle hle')
  · apply List.pairwise_mergeSort
    · intro a b c hab hbc
      simp only [keyLE, decide_eq_true_eq] at hab hbc ⊢
      rcases hab with hlt | ⟨heq, hle⟩
      · rcases hbc with hlt' | ⟨heq', -⟩
        · exact Or.inl (hlt.trans hlt')
        · exact Or.inl (heq' ▸ hlt)
      · rcases hbc with hlt' | ⟨heq', hle'⟩
        · exact Or.inl (heq ▸ hlt')
        · exact Or.inr ⟨heq.trans heq', hle.trans hle'⟩
    · intro a b
      simp only [keyLE, Bool.or_eq_true, decide_eq_true_eq]
      rcases lt_trichotomy a.1 b.1 with hlt | heq | hgt
      · exact Or.inl (Or.inl hlt)
      · rcases le_total a.2 b.2 with hle | hle
        · exact Or.inl (Or.inr ⟨heq, hle⟩)
        · exact Or.inr (Or.inr ⟨heq.symm, hle⟩)
      · exact Or.inr (Or.inl hgt)
  · rw [List.pairwise_map, bucketOrder, List.pairwise_flatMap]
    constructor
    · intro p _
      apply List.Pairwise.imp_of_mem _ (List.pairwise_lt_range.filter _)
      intro i j hi hj hij
      obtain ⟨hi, hip⟩ := mem_bucket.1 hi
      obtain ⟨hj, hjp⟩ := mem_bucket.1 hj
      have heq : key i = key j := le_antisymm ((hkey i hi j hj).2 (by omega))
        ((hkey j hj i hi).2 (by omega))
      simp [keyLE, heq, hij.le]
    · apply List.Pairwise.imp _ List.pairwise_lt_range
      intro p q hpq i hi j hj
      obtain ⟨hi, hip⟩ := mem_bucket.1 hi
      obtain ⟨hj, hjq⟩ := mem_bucket.1 hj
      have hlt : key i < key j := not_le.1 fun hle => by
        have := (hkey j hj i hi).1 hle
        omega
      simp [keyLE, hlt]
  · exact (List.mergeSort_perm _ _).trans ((bucketOrder_perm h).map _).symm

end Sorting

/-! ## Arrays -/

section Scatter

variable {α : Type*}

/-- `for i < m: a[index(i)] = value(i)` -/
def scatter (index : ℕ → ℕ) (value : ℕ → α) (m : ℕ) (a : ℕ → α) : ℕ → α :=
  (List.range m).foldl (fun a i => Function.update a (index i) (value i)) a

lemma scatter_succ (index : ℕ → ℕ) (value : ℕ → α) (m : ℕ) (a : ℕ → α) :
    scatter index value (m + 1) a =
      Function.update (scatter index value m a) (index m) (value m) := by
  simp [scatter, List.range_succ]

/-- A cell that is written once has the value that it was given. -/
lemma scatter_apply (index : ℕ → ℕ) (value : ℕ → α) (a : ℕ → α) {m i : ℕ} (hi : i < m)
    (hinj : ∀ j < m, index j = index i → j = i) : scatter index value m a (index i) = value i := by
  induction m with
  | zero => omega
  | succ m ih =>
      rw [scatter_succ, Function.update_apply]
      split
      · rename_i heq
        rw [hinj m (Nat.lt_succ_self m) heq.symm]
      · rename_i hne
        have him : i ≠ m := fun h => hne (by rw [h])
        exact ih (by omega) fun j hj => hinj j (by omega)

end Scatter

end DglAscend
