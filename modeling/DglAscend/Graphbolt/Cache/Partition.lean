import DglAscend.Graphbolt.Cache.PartitionedCachePolicy

/-!
# `Partition` groups the keys

The two-level counting sort of `PartitionedCachePolicy::Partition` computes `bucketOrder`: the
count of every thread for every part, scanned part by part, gives each thread the place of its
first key of each part.
-/

namespace DglAscend.Graphbolt

section Partition

variable {n : ℕ} {partId : ℕ → ℕ} {numKeys : ℕ}

/-- The first index of thread `tid`. -/
def threadBegin (n numKeys tid : ℕ) : ℕ := tid * numKeys / n

lemma threadBegin_zero (n numKeys : ℕ) : threadBegin n numKeys 0 = 0 := by
  simp [threadBegin]

lemma threadBegin_last (hn : 0 < n) (numKeys : ℕ) : threadBegin n numKeys n = numKeys :=
  Nat.mul_div_cancel_left numKeys hn

lemma threadBegin_mono (n numKeys : ℕ) : Monotone (threadBegin n numKeys) := fun _ _ h =>
  Nat.div_le_div_right (Nat.mul_le_mul_right numKeys h)

lemma threadRange_eq (n numKeys tid : ℕ) : threadRange n numKeys tid =
    List.range' (threadBegin n numKeys tid)
      (threadBegin n numKeys (tid + 1) - threadBegin n numKeys tid) := rfl

lemma mem_threadRange {tid i : ℕ} : i ∈ threadRange n numKeys tid ↔
    threadBegin n numKeys tid ≤ i ∧ i < threadBegin n numKeys (tid + 1) := by
  have := threadBegin_mono n numKeys (Nat.le_succ tid)
  rw [threadRange_eq, List.mem_range'_1]
  omega

lemma exists_thread {i m : ℕ} (h : i < threadBegin n numKeys m) :
    ∃ tid < m, i ∈ threadRange n numKeys tid := by
  induction m with
  | zero => simp [threadBegin_zero] at h
  | succ m ih =>
      by_cases hi : i < threadBegin n numKeys m
      · obtain ⟨tid, htid, hmem⟩ := ih hi
        exact ⟨tid, by omega, hmem⟩
      · exact ⟨m, Nat.lt_succ_self m, mem_threadRange.2 ⟨by omega, h⟩⟩

/-! ## Counting -/

variable {t t' p p' : ℕ}

/-- The row of a cell determines it together with its column. -/
lemma cell_inj (hp : p < n) (hp' : p' < n) (h : t * n + p = t' * n + p') : t = t' ∧ p = p' := by
  have hn : 0 < n := by omega
  have hdiv := congrArg (· / n) h
  have hmod := congrArg (· % n) h
  simp only [Nat.mul_comm _ n, Nat.mul_add_div hn, Nat.div_eq_of_lt hp, Nat.div_eq_of_lt hp',
    Nat.add_zero, Nat.mul_add_mod, Nat.mod_eq_of_lt hp, Nat.mod_eq_of_lt hp'] at hdiv hmod
  exact ⟨hdiv, hmod⟩

lemma countKeys_apply (hpart : ∀ i, partId i < n) (o : ℕ → ℕ) (tid a m : ℕ) (hp : p < n) :
    countKeys n partId o tid (List.range' a m) (t * n + p) =
      o (t * n + p) + if t = tid then countIn partId p a (a + m) else 0 := by
  induction m generalizing a o with
  | zero => simp [countKeys, countIn_self]
  | succ m ih =>
      have ih := ih (Function.update o (tid * n + partId a) (o (tid * n + partId a) + 1)) (a + 1)
      have hsucc := countIn_succ_left partId p (show a < a + (m + 1) by omega)
      rw [List.range'_succ, countKeys, List.foldl_cons, ← countKeys, ih,
        show a + 1 + m = a + (m + 1) by omega]
      by_cases hcell : t * n + p = tid * n + partId a
      · obtain ⟨rfl, rfl⟩ := cell_inj hp (hpart a) hcell
        rw [if_pos rfl] at hsucc
        rw [Function.update_self, if_pos rfl, if_pos rfl]
        omega
      · rw [Function.update_of_ne hcell]
        by_cases ht : t = tid
        · subst ht
          have hne : ¬partId a = p := fun h => hcell (by rw [h])
          rw [if_neg hne] at hsucc
          rw [if_pos rfl, if_pos rfl]
          omega
        · rw [if_neg ht, if_neg ht]

/-- **The counts**: cell `(tid, p)` holds how many keys of thread `tid` are in part `p`. -/
lemma countAll_apply (hpart : ∀ i, partId i < n) (ht : t < n) (hp : p < n) :
    countAll n partId numKeys (t * n + p) =
      countIn partId p (threadBegin n numKeys t) (threadBegin n numKeys (t + 1)) := by
  suffices h : ∀ m, (List.range m).foldl
      (fun o tid => countKeys n partId o tid (threadRange n numKeys tid)) (fun _ => 0) (t * n + p) =
        if t < m then countIn partId p (threadBegin n numKeys t) (threadBegin n numKeys (t + 1))
        else 0 by
    rw [countAll, h n, if_pos ht]
  intro m
  induction m with
  | zero => simp
  | succ m ih =>
      rw [List.range_succ, List.foldl_append, List.foldl_cons, List.foldl_nil, threadRange_eq,
        countKeys_apply hpart _ _ _ _ hp, ih,
        Nat.add_sub_cancel' (threadBegin_mono n numKeys (Nat.le_succ m))]
      rcases lt_trichotomy t m with hlt | rfl | hgt
      · rw [if_pos hlt, if_neg (by omega), if_pos (by omega), Nat.add_zero]
      · rw [if_neg (by omega), if_pos rfl, if_pos (by omega), Nat.zero_add]
      · rw [if_neg (by omega), if_neg (by omega), if_neg (by omega)]

/-! ## Scanning -/

lemma transposed_cell (ht : t < n) : transposed n (p * n + t) = t * n + p := by
  have hn : 0 < n := by omega
  rw [transposed, Nat.mul_comm p n, Nat.mul_add_mod, Nat.mod_eq_of_lt ht, Nat.mul_add_div hn,
    Nat.div_eq_of_lt ht, Nat.add_zero]

lemma transposed_lt {i : ℕ} (hi : i < n * n) : transposed n i < n * n := by
  have hn : 0 < n := Nat.pos_of_mul_pos_left (Nat.zero_lt_of_lt hi)
  have hdiv : i / n < n := Nat.div_lt_of_lt_mul hi
  have hmod : i % n < n := Nat.mod_lt i hn
  calc i % n * n + i / n < i % n * n + n := by omega
    _ = (i % n + 1) * n := by ring
    _ ≤ n * n := Nat.mul_le_mul_right n hmod

lemma transposed_transposed {i : ℕ} (hi : i < n * n) : transposed n (transposed n i) = i := by
  show transposed n (i % n * n + i / n) = i
  rw [transposed_cell (Nat.div_lt_of_lt_mul hi), Nat.mul_comm]
  exact Nat.div_add_mod i n

/-- The scan adds up the counts, column by column. -/
lemma scanOffsets_fst (counts : ℕ → ℕ) {j : ℕ} (hj : j ≤ n * n) :
    (scanOffsets n counts).1 j = ((List.range j).map fun k => counts (transposed n k)).sum := by
  have hcell (k : ℕ) (hk : k < n * n) :
      scatter (fun i => transposed n i + 1) counts (n * n) (fun _ => 0) (k + 1) =
        counts (transposed n k) := by
    have happ := scatter_apply (fun i => transposed n i + 1) counts (fun _ => 0)
      (transposed_lt hk) (fun i hi heq => by
        have heq : transposed n i = transposed n (transposed n k) := by simpa using heq
        rw [← transposed_transposed hi, heq, transposed_transposed (transposed_lt hk)])
    simpa only [transposed_transposed hk] using happ
  show ((List.range (j + 1)).map _).sum = _
  rw [List.range_succ_eq_map, List.map_cons, List.sum_cons, Function.update_self, Nat.zero_add,
    List.map_map]
  congr 1
  refine List.map_congr_left fun k hk => ?_
  rw [Function.comp_apply, Function.update_of_ne (Nat.succ_ne_zero k)]
  exact hcell k (by have := List.mem_range.1 hk; omega)

lemma sum_column (hpart : ∀ i, partId i < n) (hp : p < n) (ht : t ≤ n) :
    ((List.range (p * n + t)).map fun k => countAll n partId numKeys (transposed n k)).sum =
      ((List.range (p * n)).map fun k => countAll n partId numKeys (transposed n k)).sum +
        countIn partId p 0 (threadBegin n numKeys t) := by
  induction t with
  | zero => rw [threadBegin_zero, countIn_self, Nat.add_zero, Nat.add_zero]
  | succ t ih =>
      rw [← Nat.add_assoc, List.range_succ, List.map_append, List.sum_append, ih (by omega),
        List.map_singleton, List.sum_singleton, transposed_cell (by omega),
        countAll_apply hpart (by omega) hp, Nat.add_assoc,
        countIn_add _ _ (Nat.zero_le _) (threadBegin_mono n numKeys (Nat.le_succ t))]

lemma sum_columns (hpart : ∀ i, partId i < n) (hn : 0 < n) (hp : p ≤ n) :
    ((List.range (p * n)).map fun k => countAll n partId numKeys (transposed n k)).sum =
      bucketStart partId numKeys p := by
  induction p with
  | zero => simp [bucketStart]
  | succ p ih =>
      rw [Nat.succ_mul, sum_column hpart (by omega) le_rfl, ih (by omega), threadBegin_last hn,
        bucketStart_succ]

lemma cell_le (hp : p < n) (ht : t ≤ n) : p * n + t ≤ n * n :=
  calc p * n + t ≤ p * n + n := by omega
    _ = (p + 1) * n := by ring
    _ ≤ n * n := Nat.mul_le_mul_right n hp

/-- The scanned offsets at the beginning of each part. -/
lemma scanOffsets_part (hpart : ∀ i, partId i < n) (hn : 0 < n) (hp : p ≤ n) :
    (scanOffsets n (countAll n partId numKeys)).1 (p * n) = bucketStart partId numKeys p := by
  rw [scanOffsets_fst _ (Nat.mul_le_mul_right n hp), sum_columns hpart hn hp]

/-- **The offset of a thread** in a part: its first key comes behind the earlier parts and behind
the keys of earlier threads in this one. -/
lemma scanOffsets_thread (hpart : ∀ i, partId i < n) (hp : p < n) (ht : t < n) :
    (scanOffsets n (countAll n partId numKeys)).2 (t * n + p) =
      bucketStart partId numKeys p + countIn partId p 0 (threadBegin n numKeys t) := by
  show (scanOffsets n (countAll n partId numKeys)).1 (transposed n (t * n + p)) = _
  rw [transposed_cell hp, scanOffsets_fst _ (cell_le hp ht.le), sum_column hpart hp ht.le,
    sum_columns hpart (by omega) hp.le]

/-! ## Placing -/

/-- The place of a key: behind the earlier parts and the earlier keys of its part. -/
def place (partId : ℕ → ℕ) (numKeys i : ℕ) : ℕ :=
  bucketStart partId numKeys (partId i) + countIn partId (partId i) 0 i

/-- A thread advances the offsets as it counted. -/
lemma placeKeys_snd (tid : ℕ) (o : ℕ → ℕ) (is : List ℕ) :
    (placeKeys n partId tid o is).2 = countKeys n partId o tid is := by
  induction is generalizing o with
  | nil => rfl
  | cons i is ih => exact ih _

lemma placeKeys_fst (tid : ℕ) (o : ℕ → ℕ) (a m : ℕ) :
    (placeKeys n partId tid o (List.range' a m)).1 = (List.range' a m).map fun i =>
      (((o (tid * n + partId i) + countIn partId (partId i) a i : ℕ) : ℤ), i) := by
  induction m generalizing a o with
  | zero => rfl
  | succ m ih =>
      rw [List.range'_succ, placeKeys, List.map_cons]
      show _ :: (placeKeys n partId tid _ (List.range' (a + 1) m)).1 = _
      rw [ih]
      refine congrArg₂ List.cons ?_ (List.map_congr_left fun i hi => ?_)
      · rw [countIn_self, Nat.add_zero]
      · have hlt : a < i := by have := (List.mem_range'_1.1 hi).1; omega
        rw [countIn_succ_left partId (partId i) hlt]
        by_cases hcell : partId a = partId i
        · rw [if_pos hcell, hcell, Function.update_self, Nat.add_assoc]
        · have hne : tid * n + partId i ≠ tid * n + partId a := by omega
          rw [if_neg hcell, Function.update_of_ne hne, Nat.zero_add]

/-- The writes of the threads from `t` on. -/
lemma placeAll_eq (hpart : ∀ i, partId i < n) (t m : ℕ) (o : ℕ → ℕ)
    (ho : ∀ tid p, t ≤ tid → tid < t + m → p < n → o (tid * n + p) =
      bucketStart partId numKeys p + countIn partId p 0 (threadBegin n numKeys tid)) :
    placeAll n partId numKeys (List.range' t m) o = (List.range' t m).flatMap fun tid =>
      (threadRange n numKeys tid).map fun i => ((place partId numKeys i : ℤ), i) := by
  induction m generalizing t o with
  | zero => rfl
  | succ m ih =>
      rw [List.range'_succ, placeAll, List.flatMap_cons]
      show (placeKeys n partId t o _).1 ++ placeAll n partId numKeys _ (placeKeys n partId t o _).2
        = _
      congr 1
      · rw [threadRange_eq, placeKeys_fst]
        refine List.map_congr_left fun i hi => ?_
        have hle := (List.mem_range'_1.1 hi).1
        rw [ho t _ le_rfl (by omega) (hpart i), Nat.add_assoc, countIn_add _ _ (Nat.zero_le _) hle,
          place]
      · rw [placeKeys_snd, threadRange_eq]
        refine ih _ _ fun tid p hle hlt hp => ?_
        rw [countKeys_apply hpart _ _ _ _ hp, if_neg (by omega), Nat.add_zero,
          ho tid p (by omega) (by omega) hp]

/-- The threads write every key to its place. -/
lemma mem_placeAll (hpart : ∀ i, partId i < n) (hn : 0 < n) {w : ℤ × ℕ} :
    w ∈ placeAll n partId numKeys (List.range n) (scanOffsets n (countAll n partId numKeys)).2 ↔
      ∃ i < numKeys, w = ((place partId numKeys i : ℤ), i) := by
  rw [List.range_eq_range', placeAll_eq hpart _ _ _ fun tid p _ hlt hp =>
    scanOffsets_thread hpart hp (by omega)]
  simp only [List.mem_flatMap, List.mem_range'_1, List.mem_map]
  constructor
  · rintro ⟨tid, htid, i, hi, rfl⟩
    refine ⟨i, ?_, rfl⟩
    calc i < threadBegin n numKeys (tid + 1) := (mem_threadRange.1 hi).2
      _ ≤ threadBegin n numKeys n := threadBegin_mono n numKeys (by omega)
      _ = numKeys := threadBegin_last hn numKeys
  · rintro ⟨i, hi, rfl⟩
    rw [← threadBegin_last hn numKeys] at hi
    obtain ⟨tid, htid, hmem⟩ := exists_thread hi
    exact ⟨tid, by omega, i, hmem, rfl⟩

/-- A tensor to which the threads write `f` of each key is `f` of the keys, grouped by part. -/
lemma tensor_placeAll (numKeys : ℕ) (hpart : ∀ i, partId i < n) (hn : 0 < n) {α : Type}
    (f : ℕ → α) :
    tensor numKeys ((placeAll n partId numKeys (List.range n)
      (scanOffsets n (countAll n partId numKeys)).2).map fun w => (w.1, f w.2)) =
        some ((bucketOrder partId n numKeys).map f) := by
  have hlen : ((bucketOrder partId n numKeys).map f).length = numKeys := by
    rw [List.length_map, length_bucketOrder fun i _ => hpart i]
  have htensor := @tensor_eq_some _ ((bucketOrder partId n numKeys).map f)
    ((placeAll n partId numKeys (List.range n)
      (scanOffsets n (countAll n partId numKeys)).2).map fun w => (w.1, f w.2))
  rw [hlen] at htensor
  refine htensor (fun w hw => ?_) fun j hj => ?_
  · obtain ⟨v, hv, rfl⟩ := List.mem_map.1 hw
    obtain ⟨i, hi, rfl⟩ := (mem_placeAll hpart hn).1 hv
    refine ⟨Int.natCast_nonneg _, ?_⟩
    rw [Int.toNat_natCast, List.getElem?_map, place, bucketOrder_place hi (hpart i),
      Option.map_some]
  · obtain ⟨i, hi, rfl⟩ := exists_place (n := n) (fun i _ => hpart i) hj
    exact ⟨_, List.mem_map_of_mem ((mem_placeAll hpart hn).2 ⟨i, hi, rfl⟩), rfl⟩

end Partition

section Result

variable (assign : PartAssignment) (n : ℕ) (keys : List ℤ)

/-- The partition of the key with index `i`. -/
def partOf (i : ℕ) : ℕ := assign.draw n (keys.getD i 0)

/-- The indices of the keys in partition `p`, in the order of the batch. -/
def partIndices (p : ℕ) : List ℕ := bucket (partOf assign n keys) keys.length p

/-- What `Partition` is meant to return: the keys grouped by partition, in their original order
within each. -/
def groupedKeys : PartitionResult where
  offsets := (List.range (n + 1)).map fun p => (bucketStart (partOf assign n keys) keys.length p : ℤ)
  indices := bucketOrder (partOf assign n keys) n keys.length
  permutedKeys := (bucketOrder (partOf assign n keys) n keys.length).map fun i => keys.getD i 0

variable {n}

lemma partOf_lt (hn : 0 < n) (i : ℕ) : partOf assign n keys i < n := assign.draw_lt n _ hn

/-- **`Partition` groups the keys.** -/
theorem partition_eq (hn : 0 < n) : partition assign n keys = some (groupedKeys assign n keys) := by
  have hpart := partOf_lt assign keys hn
  have hindices := tensor_placeAll keys.length hpart hn id
  have hkeys := tensor_placeAll keys.length hpart hn fun i => keys.getD i 0
  simp only [id_eq, Prod.mk.eta, List.map_id', List.map_id_fun] at hindices
  have hoffsets : (0 : ℤ) :: (List.range n).map (fun tid =>
      ((scanOffsets n (countAll n (partOf assign n keys) keys.length)).1 ((tid + 1) * n) : ℤ)) =
        (groupedKeys assign n keys).offsets := by
    rw [groupedKeys, List.range_succ_eq_map, List.map_cons, List.map_map]
    refine congrArg₂ List.cons (by simp [bucketStart]) (List.map_congr_left fun p hp => ?_)
    rw [scanOffsets_part hpart hn (List.mem_range.1 hp)]
    rfl
  have hunfold : partition assign n keys =
      (tensor keys.length (placeAll n (partOf assign n keys) keys.length (List.range n)
        (scanOffsets n (countAll n (partOf assign n keys) keys.length)).2)).bind fun indices =>
      (tensor keys.length ((placeAll n (partOf assign n keys) keys.length (List.range n)
        (scanOffsets n (countAll n (partOf assign n keys) keys.length)).2).map
          fun w => (w.1, keys.getD w.2 0))).map fun permutedKeys =>
      ⟨(0 : ℤ) :: (List.range n).map (fun tid =>
        ((scanOffsets n (countAll n (partOf assign n keys) keys.length)).1 ((tid + 1) * n) : ℤ)),
        indices, permutedKeys⟩ := rfl
  rw [hunfold, hindices, Option.bind_some, hkeys, Option.map_some, hoffsets]
  rfl

end Result

end DglAscend.Graphbolt
