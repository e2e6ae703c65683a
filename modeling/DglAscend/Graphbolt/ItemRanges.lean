import Mathlib.Data.List.GetD
import Mathlib.Data.PNat.Basic
import DglAscend.Lib.Slots

/-!
# Item ranges

`count_split` and `calculate_range` of `graphbolt/internal/item_sampler_utils.py`, and the loop of
`ItemSampler.__iter__` that cuts a range into batches.  The items are split twice, among the replicas
and among the workers of a replica, each time in whole batches as far as they go.
-/

namespace DglAscend.Graphbolt

/-! ## `count_split` -/

/-- `count_split`: what worker `workerId` is assigned, and what the workers before it are. -/
def countSplit (total numWorkers workerId batchSize : ℕ) : ℕ × ℕ :=
  let quotient := total / (numWorkers * batchSize)
  let remainder := total % (numWorkers * batchSize)
  let assigned :=
    if batchSize = 1 then quotient + (if workerId < remainder then 1 else 0)
    else
      let batchCount := remainder / batchSize
      let lastBatch := remainder % batchSize
      quotient * batchSize + (if workerId < batchCount then batchSize
        else if workerId = batchCount then lastBatch else 0)
  (assigned, quotient * workerId * batchSize + min (workerId * batchSize) remainder)

section CountSplit

variable {total n w B : ℕ}

/-- Every worker has a quotient of whole batches, and of the remainder what is left for it. -/
lemma countSplit_fst (hB : 0 < B) : (countSplit total n w B).1 =
    total / (n * B) * B + min B (total % (n * B) - w * B) := by
  set r := total % (n * B) with hr
  rw [countSplit, ← hr]
  by_cases hB1 : B = 1
  · subst hB1
    simp only [if_true, Nat.mul_one]
    by_cases hw : w < r
    · rw [if_pos hw]
      omega
    · rw [if_neg hw]
      omega
  · have hdiv : r / B * B + r % B = r := Nat.div_add_mod' r B
    have hmod : r % B < B := Nat.mod_lt r hB
    simp only [if_neg hB1]
    congr 1
    rcases Nat.lt_trichotomy w (r / B) with hlt | heq | hgt
    · have hle : (w + 1) * B ≤ r / B * B := Nat.mul_le_mul_right B hlt
      rw [if_pos hlt]
      rw [Nat.add_mul] at hle
      omega
    · rw [if_neg (by omega), if_pos heq]
      rw [← heq] at hdiv
      omega
    · have hle : (r / B + 1) * B ≤ w * B := Nat.mul_le_mul_right B hgt
      rw [if_neg (by omega), if_neg (by omega)]
      rw [Nat.add_mul] at hle
      omega

lemma countSplit_snd_zero : (countSplit total n 0 B).2 = 0 := by
  simp [countSplit]

lemma countSplit_snd_succ (hB : 0 < B) :
    (countSplit total n (w + 1) B).2 = (countSplit total n w B).2 + (countSplit total n w B).1 := by
  rw [countSplit_fst hB]
  show _ * (w + 1) * B + min ((w + 1) * B) _ = _ * w * B + min (w * B) _ + _
  rw [Nat.mul_add, Nat.mul_one, Nat.add_mul, Nat.add_mul w 1 B, Nat.one_mul]
  omega

lemma countSplit_snd_mono (hB : 0 < B) :
    (countSplit total n w B).2 ≤ (countSplit total n (w + 1) B).2 := by
  rw [countSplit_snd_succ hB]
  exact Nat.le_add_right _ _

/-- All workers together are assigned everything. -/
lemma countSplit_snd_last (hn : 0 < n) (hB : 0 < B) : (countSplit total n n B).2 = total := by
  have hlt : total % (n * B) < n * B := Nat.mod_lt _ (Nat.mul_pos hn hB)
  show _ * n * B + min (n * B) _ = _
  rw [min_eq_right hlt.le, Nat.mul_assoc]
  exact Nat.div_add_mod' _ _

/-- Whole batches are split into whole batches. -/
lemma dvd_countSplit_fst (hB : 0 < B) (h : B ∣ total) : B ∣ (countSplit total n w B).1 := by
  have hr : B ∣ total % (n * B) := (Nat.dvd_mod_iff (Nat.dvd_mul_left B n)).2 h
  have hrest : B ∣ total % (n * B) - w * B := Nat.dvd_sub hr (Nat.dvd_mul_left B w)
  rw [countSplit_fst hB]
  apply Nat.dvd_add (Nat.dvd_mul_left _ _)
  rcases Nat.le_total B (total % (n * B) - w * B) with hle | hle
  · rw [min_eq_left hle]
  · rwa [min_eq_right hle]

lemma countSplit_fst_antitone (hB : 0 < B) {v : ℕ} (hvw : v ≤ w) :
    (countSplit total n w B).1 ≤ (countSplit total n v B).1 := by
  have hmul : v * B ≤ w * B := Nat.mul_le_mul_right B hvw
  rw [countSplit_fst hB, countSplit_fst hB]
  omega

/-- At most one worker has a batch that is not whole. -/
lemma countP_split_le_one (hB : 0 < B) :
    (List.range n).countP (fun w => (countSplit total n w B).1 % B ≠ 0) ≤ 1 := by
  set r := total % (n * B) with hr
  have hpartial (w : ℕ) (hw : (countSplit total n w B).1 % B ≠ 0) : w = r / B := by
    rw [countSplit_fst hB, Nat.add_comm, Nat.add_mul_mod_self_right, ← hr] at hw
    have hlo : w * B < r := by
      by_contra hle
      rw [Nat.sub_eq_zero_of_le (Nat.not_lt.1 hle), Nat.min_zero, Nat.zero_mod] at hw
      exact hw rfl
    have hhi : r < (w + 1) * B := by
      by_contra hle
      rw [Nat.add_mul] at hle
      rw [min_eq_left (by omega), Nat.mod_self] at hw
      exact hw rfl
    exact (Nat.div_eq_of_lt_le hlo.le hhi).symm
  have hsub : (List.range n).filter (fun w => (countSplit total n w B).1 % B ≠ 0) ⊆ [r / B] := by
    intro w hw
    rw [List.mem_singleton]
    exact hpartial w (by simpa using (List.mem_filter.1 hw).2)
  rw [List.countP_eq_length_filter]
  exact (((List.nodup_range).filter _).subperm hsub).length_le

/-- The batches of the first `k` workers. -/
lemma sum_ceil_countSplit (hB : 0 < B) (k : ℕ) :
    ((List.range k).map fun w => ((countSplit total n w B).1 + B - 1) / B).sum =
      total / (n * B) * k + min k ((total % (n * B) + B - 1) / B) := by
  set q := total / (n * B) with hq
  set r := total % (n * B) with hr
  have hlt {i : ℕ} : i < (r + B - 1) / B ↔ i * B < r := by
    rw [Nat.lt_iff_add_one_le, Nat.le_div_iff_mul_le hB, Nat.add_mul, Nat.one_mul]
    omega
  induction k with
  | zero => simp
  | succ k ih =>
      have hsum : q * B + min B (r - k * B) + B - 1 = min B (r - k * B) + B - 1 + q * B := by omega
      rw [List.range_succ, List.map_append, List.sum_append, ih, List.map_singleton,
        List.sum_singleton, countSplit_fst hB, ← hq, ← hr, hsum, Nat.add_mul_div_right _ _ hB,
        Nat.mul_add, Nat.mul_one]
      by_cases hk : k * B < r
      · have hone : (min B (r - k * B) + B - 1) / B = 1 := by
          apply Nat.div_eq_of_lt_le
          · omega
          · omega
        have hk := hlt.2 hk
        rw [hone]
        omega
      · have hzero : (min B (r - k * B) + B - 1) / B = 0 := by
          apply Nat.div_eq_of_lt
          omega
        have hk := hlt.not.2 hk
        rw [hzero]
        omega

/-- **The workers of a split have as many batches as there are without it.** -/
lemma sum_ceil_countSplit_last (hn : 0 < n) (hB : 0 < B) :
    ((List.range n).map fun w => ((countSplit total n w B).1 + B - 1) / B).sum =
      (total + B - 1) / B := by
  have hlt : total % (n * B) < n * B := Nat.mod_lt _ (Nat.mul_pos hn hB)
  have hle : (total % (n * B) + B - 1) / B ≤ n := by
    rw [Nat.div_le_iff_le_mul_add_pred hB, Nat.mul_comm B n]
    omega
  have hdiv : total / (n * B) * (n * B) + total % (n * B) = total := Nat.div_add_mod' _ _
  have hsum : total + B - 1 = total % (n * B) + B - 1 + total / (n * B) * n * B := by
    rw [Nat.mul_assoc]
    omega
  rw [sum_ceil_countSplit hB, min_eq_right hle, hsum, Nat.add_mul_div_right _ _ hB, Nat.add_comm]

lemma countSplit_one (hB : 0 < B) : countSplit total 1 0 B = (total, 0) := by
  apply Prod.ext
  · have hsucc : (countSplit total 1 1 B).2 = (countSplit total 1 0 B).2 + (countSplit total 1 0 B).1 :=
      countSplit_snd_succ hB
    rw [countSplit_snd_zero, countSplit_snd_last Nat.one_pos hB, Nat.zero_add] at hsucc
    exact hsucc.symm
  · exact countSplit_snd_zero

lemma countSplit_of_zero (hB : 0 < B) : countSplit 0 n w B = (0, 0) := by
  apply Prod.ext
  · rw [countSplit_fst hB]
    simp
  · simp [countSplit]

end CountSplit

/-! ## `calculate_range` -/

/-- The items of a worker, and how many of them it outputs. -/
structure ItemRange where
  startOffset : ℕ
  assignedCount : ℕ
  outputCount : ℕ
  deriving DecidableEq, Repr

/-- `calculate_range`. -/
def calculateRange (distributed : Bool) (total numReplicas rank numWorkers workerId batchSize : ℕ)
    (dropLast dropUnevenInputs : Bool) : ItemRange :=
  if !distributed then
    if !dropLast then ⟨0, total, total⟩ else ⟨0, total, total / batchSize * batchSize⟩
  else
    let (assignedCount, startOffset) := countSplit total numReplicas rank batchSize
    let outputCount :=
      if !dropUnevenInputs then
        if !dropLast then assignedCount else assignedCount / batchSize * batchSize
      else if !dropLast then
        let minItemCount := (countSplit total numReplicas (numReplicas - 1) batchSize).1
        let minBatchCount := (minItemCount + batchSize - 1) / batchSize
        min (minBatchCount * batchSize) assignedCount
      else total / (batchSize * numReplicas) * batchSize
    if 1 < numWorkers then
      let (droppedItems, prevDroppedItems) :=
        countSplit (assignedCount - outputCount) numWorkers workerId 1
      let (output, prevOutputCount) := countSplit outputCount numWorkers workerId batchSize
      ⟨startOffset + (prevOutputCount + prevDroppedItems), output + droppedItems, output⟩
    else ⟨startOffset, assignedCount, outputCount⟩

/-- The loop of `__iter__`: `output_count` goes down with every batch. -/
def iterBatches (batchSize : ℕ) (indices : List ℕ) : List ℕ → ℤ → List (List ℕ)
  | [], _ => []
  | i :: is, outputCount =>
      if outputCount ≤ 0 then []
      else (indices.drop i).take (min (batchSize : ℤ) outputCount).toNat ::
        iterBatches batchSize indices is (outputCount - batchSize)

/-- The samplers of all replicas, which have the same seed.  `permutation` is what `torch.randperm`
returns. -/
structure DistributedItemSampler where
  total : ℕ
  numReplicas : ℕ+
  numWorkers : ℕ
  batchSize : ℕ+
  dropLast : Bool
  dropUnevenInputs : Bool
  shuffle : Bool
  permutation : List ℕ
  permuted : permutation.Perm (List.range total)

namespace DistributedItemSampler

variable (d : DistributedItemSampler)

/-- The workers of a replica; without worker processes there is one. -/
def workers : ℕ := max 1 d.numWorkers

/-- The ranks and worker ids. -/
def processes : List (ℕ × ℕ) :=
  (List.range d.numReplicas).flatMap fun rank => (List.range d.workers).map fun w => (rank, w)

/-- What `calculate_range` returns to a worker. -/
def range (rank workerId : ℕ) : ItemRange :=
  calculateRange true d.total d.numReplicas rank d.numWorkers workerId d.batchSize d.dropLast
    d.dropUnevenInputs

/-- The positions of a worker. -/
def positions (p : ℕ × ℕ) : List ℕ :=
  List.range' (d.range p.1 p.2).startOffset (d.range p.1 p.2).assignedCount

/-- The order of the items. -/
def order : List ℕ := if d.shuffle then d.permutation else List.range d.total

/-- `indices`. -/
def indices (p : ℕ × ℕ) : List ℕ :=
  if d.shuffle then
    (d.permutation.drop (d.range p.1 p.2).startOffset).take (d.range p.1 p.2).assignedCount
  else d.positions p

/-- What `__iter__` yields in a worker. -/
def batches (p : ℕ × ℕ) : List (List ℕ) :=
  let r := d.range p.1 p.2
  iterBatches d.batchSize (d.indices p)
    ((List.range ((r.assignedCount + d.batchSize - 1) / d.batchSize)).map (· * d.batchSize))
    r.outputCount

/-- The batches of a replica. -/
def replicaBatches (rank : ℕ) : List (List ℕ) :=
  (List.range d.workers).flatMap fun w => d.batches (rank, w)

end DistributedItemSampler

/-! ## The loop -/

section Loop

variable {B O m : ℕ} {l : List ℕ}

/-- A batch of the loop. -/
def piece (B O : ℕ) (l : List ℕ) (i : ℕ) : List ℕ := (l.drop (i * B)).take (min B (O - i * B))

lemma lt_ceil_iff (hB : 0 < B) {i : ℕ} : i < (O + B - 1) / B ↔ i * B < O := by
  rw [Nat.lt_iff_add_one_le, Nat.le_div_iff_mul_le hB, Nat.add_mul, Nat.one_mul]
  omega

lemma ceil_mono (hB : 0 < B) {O' : ℕ} (h : O ≤ O') : (O + B - 1) / B ≤ (O' + B - 1) / B := by
  apply Nat.div_le_div_right
  omega

/-- The loop from batch `j` on. -/
lemma iterBatches_range' (hB : 0 < B) (j : ℕ) :
    iterBatches B l ((List.range' j m).map (· * B)) ((O : ℤ) - (j * B : ℕ)) =
      ((List.range' j m).takeWhile fun i => i * B < O).map (piece B O l) := by
  induction m generalizing j with
  | zero => rfl
  | succ m ih =>
      rw [List.range'_succ, List.map_cons, iterBatches]
      by_cases hj : j * B < O
      · have hstep : (O : ℤ) - (j * B : ℕ) - (B : ℤ) = (O : ℤ) - ((j + 1) * B : ℕ) := by
          push_cast
          ring
        have hmin : (min (B : ℤ) ((O : ℤ) - (j * B : ℕ))).toNat = min B (O - j * B) := by omega
        rw [if_neg (by omega), List.takeWhile_cons_of_pos (by simpa using hj), List.map_cons, hstep,
          ih (j + 1), hmin]
        rfl
      · rw [if_pos (by omega), List.takeWhile_cons_of_neg (by simpa using hj)]
        rfl

/-- **The batches of a range.** -/
lemma iterBatches_eq (hB : 0 < B) (hm : (O + B - 1) / B ≤ m) :
    iterBatches B l ((List.range m).map (· * B)) O =
      (List.range ((O + B - 1) / B)).map (piece B O l) := by
  have hloop := iterBatches_range' (O := O) (l := l) (m := m) hB 0
  rw [Nat.zero_mul, Nat.cast_zero, sub_zero, ← List.range_eq_range'] at hloop
  have hall : ∀ i ∈ List.range ((O + B - 1) / B), decide (i * B < O) = true := by
    intro i hi
    exact decide_eq_true ((lt_ceil_iff hB).1 (List.mem_range.1 hi))
  have hrest : ((List.range' ((O + B - 1) / B) (m - (O + B - 1) / B)).takeWhile
      fun i => i * B < O) = [] := by
    cases m - (O + B - 1) / B with
    | zero => rfl
    | succ k =>
        rw [List.range'_succ, List.takeWhile_cons_of_neg]
        rw [decide_eq_true_eq, ← lt_ceil_iff hB]
        exact lt_irrefl _
  have happ := List.range'_append_1 (s := 0) (m := (O + B - 1) / B) (n := m - (O + B - 1) / B)
  rw [Nat.zero_add, Nat.add_sub_cancel' hm, ← List.range_eq_range', ← List.range_eq_range'] at happ
  rw [hloop, ← happ, List.takeWhile_append_of_pos hall, hrest, List.append_nil]

lemma flatMap_piece (k : ℕ) : (List.range k).flatMap (piece B O l) = l.take (min (k * B) O) := by
  induction k with
  | zero => simp
  | succ k ih =>
      rw [List.range_succ, List.flatMap_append, List.flatMap_singleton, ih, piece]
      by_cases hk : k * B ≤ O
      · rw [min_eq_left hk, ← List.take_add, Nat.add_mul, Nat.one_mul]
        congr 1
        omega
      · have hzero : O - k * B = 0 := by omega
        rw [hzero, Nat.min_zero, List.take_zero, List.append_nil, Nat.add_mul]
        congr 1
        omega

lemma flatten_pieces (hB : 0 < B) :
    ((List.range ((O + B - 1) / B)).map (piece B O l)).flatten = l.take O := by
  have hle : O ≤ (O + B - 1) / B * B := by
    have hlt := (lt_ceil_iff (O := O) hB (i := (O + B - 1) / B)).not.1 (lt_irrefl _)
    exact Nat.not_lt.1 hlt
  rw [← List.flatMap_def, flatMap_piece, min_eq_right hle]

lemma length_piece (hO : O ≤ l.length) (i : ℕ) : (piece B O l i).length = min B (O - i * B) := by
  rw [piece, List.length_take, List.length_drop]
  omega

lemma countP_pieces (hB : 0 < B) (hO : O ≤ l.length) :
    ((List.range ((O + B - 1) / B)).map (piece B O l)).countP (fun b => b.length < B) =
      if O % B = 0 then 0 else 1 := by
  have hdiv : O / B * B + O % B = O := Nat.div_add_mod' O B
  have hmod : O % B < B := Nat.mod_lt O hB
  have hfull (i : ℕ) (hi : i < O / B) : ¬ ((piece B O l i).length < B) := by
    have hle : (i + 1) * B ≤ O / B * B := Nat.mul_le_mul_right B hi
    rw [length_piece hO]
    rw [Nat.add_mul] at hle
    omega
  have hwhole : (List.range (O / B)).countP ((fun b => decide (b.length < B)) ∘ piece B O l) = 0 := by
    rw [List.countP_eq_zero]
    intro i hi
    simpa using Nat.not_lt.1 (hfull i (List.mem_range.1 hi))
  rw [List.countP_map]
  by_cases hzero : O % B = 0
  · have hceil : (O + B - 1) / B = O / B := by
      apply Nat.div_eq_of_lt_le
      · omega
      · rw [Nat.add_mul]
        omega
    rw [if_pos hzero, hceil, hwhole]
  · have hceil : (O + B - 1) / B = O / B + 1 := by
      apply Nat.div_eq_of_lt_le
      · rw [Nat.add_mul]
        omega
      · rw [Nat.add_mul, Nat.add_mul]
        omega
    have hlast : (piece B O l (O / B)).length < B := by
      rw [length_piece hO]
      omega
    rw [if_neg hzero, hceil, List.range_succ, List.countP_append, hwhole, Nat.zero_add]
    simpa using hlast

end Loop

namespace DistributedItemSampler

variable {d : DistributedItemSampler} {rank w : ℕ} {p : ℕ × ℕ}

/-! ## Replicas -/

/-- What a replica is assigned. -/
def assigned (d : DistributedItemSampler) (rank : ℕ) : ℕ :=
  (countSplit d.total d.numReplicas rank d.batchSize).1

/-- What a replica outputs. -/
def output (d : DistributedItemSampler) (rank : ℕ) : ℕ :=
  if !d.dropUnevenInputs then
    if !d.dropLast then d.assigned rank else d.assigned rank / d.batchSize * d.batchSize
  else if !d.dropLast then
    min ((d.assigned (d.numReplicas - 1) + d.batchSize - 1) / d.batchSize * d.batchSize)
      (d.assigned rank)
  else d.total / (d.batchSize * d.numReplicas) * d.batchSize

lemma output_le (d : DistributedItemSampler) (rank : ℕ) : d.output rank ≤ d.assigned rank := by
  rw [output]
  split_ifs
  · exact le_rfl
  · exact Nat.div_mul_le_self _ _
  · exact min_le_right _ _
  · rw [assigned, countSplit_fst d.batchSize.pos, Nat.mul_comm (d.batchSize : ℕ)]
    exact Nat.le_add_right _ _

lemma dvd_output (h : d.dropLast = true) (rank : ℕ) : (d.batchSize : ℕ) ∣ d.output rank := by
  rw [output, h]
  simp only [Bool.not_true, Bool.false_eq_true, if_false]
  split_ifs
  · exact Nat.dvd_mul_left _ _
  · exact Nat.dvd_mul_left _ _

/-- Without uneven inputs every replica has the batches of the last one. -/
lemma ceil_output (h : d.dropUnevenInputs = true) (hrank : rank < d.numReplicas) :
    (d.output rank + d.batchSize - 1) / d.batchSize =
      if d.dropLast then d.total / (d.batchSize * d.numReplicas)
      else (d.assigned (d.numReplicas - 1) + d.batchSize - 1) / d.batchSize := by
  have hB := d.batchSize.pos
  have hwhole (q : ℕ) : (q * d.batchSize + d.batchSize - 1) / d.batchSize = q := by
    apply Nat.div_eq_of_lt_le
    · omega
    · rw [Nat.add_mul]
      omega
  rw [output, h]
  cases d.dropLast with
  | true => exact hwhole _
  | false =>
      simp only [Bool.not_true, Bool.not_false, Bool.false_eq_true, if_false, if_true]
      set q := (d.assigned (d.numReplicas - 1) + d.batchSize - 1) / d.batchSize with hq
      have hle : d.assigned (d.numReplicas - 1) ≤ d.assigned rank :=
        countSplit_fst_antitone hB (Nat.le_sub_one_of_lt hrank)
      have hceil : q ≤ (d.assigned rank + d.batchSize - 1) / d.batchSize := ceil_mono hB hle
      rcases le_total (q * d.batchSize) (d.assigned rank) with hcase | hcase
      · rw [min_eq_left hcase, hwhole]
      · rw [min_eq_right hcase]
        apply le_antisymm _ hceil
        calc (d.assigned rank + d.batchSize - 1) / d.batchSize
            ≤ (q * d.batchSize + d.batchSize - 1) / d.batchSize := ceil_mono hB hcase
          _ = q := hwhole q

/-! ## Workers -/

lemma workers_pos (d : DistributedItemSampler) : 0 < d.workers := lt_max_of_lt_left Nat.one_pos

/-- A worker has its share of the batches and its share of what is dropped. -/
lemma range_eq (hw : w < d.workers) : d.range rank w =
    ⟨(countSplit d.total d.numReplicas rank d.batchSize).2 +
        ((countSplit (d.output rank) d.workers w d.batchSize).2 +
          (countSplit (d.assigned rank - d.output rank) d.workers w 1).2),
      (countSplit (d.output rank) d.workers w d.batchSize).1 +
        (countSplit (d.assigned rank - d.output rank) d.workers w 1).1,
      (countSplit (d.output rank) d.workers w d.batchSize).1⟩ := by
  have hrange : d.range rank w =
      if 1 < d.numWorkers then
        ⟨(countSplit d.total d.numReplicas rank d.batchSize).2 +
            ((countSplit (d.output rank) d.numWorkers w d.batchSize).2 +
              (countSplit (d.assigned rank - d.output rank) d.numWorkers w 1).2),
          (countSplit (d.output rank) d.numWorkers w d.batchSize).1 +
            (countSplit (d.assigned rank - d.output rank) d.numWorkers w 1).1,
          (countSplit (d.output rank) d.numWorkers w d.batchSize).1⟩
      else ⟨(countSplit d.total d.numReplicas rank d.batchSize).2, d.assigned rank,
        d.output rank⟩ := rfl
  by_cases hmany : 1 < d.numWorkers
  · have hworkers : d.workers = d.numWorkers := max_eq_right hmany.le
    rw [hrange, if_pos hmany, hworkers]
  · have hworkers : d.workers = 1 := max_eq_left (Nat.not_lt.1 hmany)
    obtain rfl : w = 0 := by omega
    rw [hrange, if_neg hmany, hworkers, countSplit_one d.batchSize.pos, countSplit_one Nat.one_pos,
      Nat.add_zero, Nat.add_zero, Nat.add_sub_cancel' (d.output_le rank)]

lemma output_le_assigned (hw : w < d.workers) :
    (d.range rank w).outputCount ≤ (d.range rank w).assignedCount := by
  rw [range_eq hw]
  exact Nat.le_add_right _ _

lemma flatMap_positions (d : DistributedItemSampler) (rank : ℕ) :
    ((List.range d.workers).flatMap fun w => d.positions (rank, w)) =
      List.range' (countSplit d.total d.numReplicas rank d.batchSize).2 (d.assigned rank) := by
  set b := fun w => (countSplit d.total d.numReplicas rank d.batchSize).2 +
    ((countSplit (d.output rank) d.workers w d.batchSize).2 +
      (countSplit (d.assigned rank - d.output rank) d.workers w 1).2) with hb
  have hsucc (w : ℕ) : b (w + 1) = b w + ((countSplit (d.output rank) d.workers w d.batchSize).1 +
      (countSplit (d.assigned rank - d.output rank) d.workers w 1).1) := by
    simp only [hb]
    rw [countSplit_snd_succ d.batchSize.pos, countSplit_snd_succ Nat.one_pos]
    omega
  have hslots : ((List.range d.workers).flatMap fun w => d.positions (rank, w)) =
      slotItems b d.workers := by
    apply List.flatMap_congr
    intro w hw
    rw [positions, range_eq (List.mem_range.1 hw), hsucc, Nat.add_sub_cancel_left]
  have hle := d.output_le rank
  rw [hslots, slotItems_eq_range' fun w _ => by rw [hsucc]; exact Nat.le_add_right _ _]
  simp only [hb, countSplit_snd_zero, countSplit_snd_last d.workers_pos d.batchSize.pos,
    countSplit_snd_last d.workers_pos Nat.one_pos]
  congr 1
  omega

/-- **The ranges are all positions, in order.** -/
lemma processes_positions (d : DistributedItemSampler) :
    d.processes.flatMap d.positions = List.range d.total := by
  have hreplica (rank : ℕ) :
      (((List.range d.workers).map fun w => (rank, w)).flatMap d.positions) =
        List.range' (countSplit d.total d.numReplicas rank d.batchSize).2
          ((countSplit d.total d.numReplicas (rank + 1) d.batchSize).2 -
            (countSplit d.total d.numReplicas rank d.batchSize).2) := by
    rw [List.flatMap_map, d.flatMap_positions, countSplit_snd_succ d.batchSize.pos,
      Nat.add_sub_cancel_left]
    rfl
  have hslots := slotItems_eq (n := d.numReplicas)
    (b := fun rank => (countSplit d.total d.numReplicas rank d.batchSize).2) countSplit_snd_zero
    fun rank _ => countSplit_snd_mono d.batchSize.pos
  rw [countSplit_snd_last d.numReplicas.pos d.batchSize.pos] at hslots
  rw [processes, List.flatMap_assoc, ← hslots]
  exact List.flatMap_congr fun rank _ => hreplica rank

/-! ## Items -/

lemma order_perm (d : DistributedItemSampler) : d.order.Perm (List.range d.total) := by
  rw [order]
  split_ifs
  · exact d.permuted
  · exact List.Perm.refl _

lemma drop_take_eq (l : List ℕ) {s n : ℕ} (h : s + n ≤ l.length) :
    (l.drop s).take n = (List.range' s n).map fun i => l.getD i 0 := by
  apply List.ext_getElem
  · rw [List.length_take, List.length_drop, List.length_map, List.length_range']
    omega
  · intro i hi hi'
    rw [List.length_map, List.length_range'] at hi'
    rw [List.getElem_take, List.getElem_drop, List.getElem_map, List.getElem_range', Nat.one_mul,
      List.getD_eq_getElem _ _ (by omega)]

lemma mem_processes : p ∈ d.processes ↔ p.1 < d.numReplicas ∧ p.2 < d.workers := by
  obtain ⟨rank, w⟩ := p
  rw [processes, List.mem_flatMap]
  simp only [List.mem_range, List.mem_map, Prod.mk.injEq]
  constructor
  · rintro ⟨_, hr, _, hw, rfl, rfl⟩
    exact ⟨hr, hw⟩
  · rintro ⟨hr, hw⟩
    exact ⟨rank, hr, w, hw, rfl, rfl⟩

section

variable (hp : p ∈ d.processes)
include hp

lemma range_end_le : (d.range p.1 p.2).assignedCount = 0 ∨
      (d.range p.1 p.2).startOffset + (d.range p.1 p.2).assignedCount ≤ d.total := by
  by_cases hzero : (d.range p.1 p.2).assignedCount = 0
  · exact Or.inl hzero
  · right
    have hlast : (d.range p.1 p.2).startOffset + (d.range p.1 p.2).assignedCount - 1 ∈
        d.processes.flatMap d.positions := by
      apply List.mem_flatMap.2 ⟨p, hp, _⟩
      rw [positions, List.mem_range'_1]
      omega
    rw [processes_positions, List.mem_range] at hlast
    omega

/-- The indices of a worker are its part of the order. -/
lemma indices_eq : d.indices p = (d.positions p).map fun i => d.order.getD i 0 := by
  have hlen : d.order.length = d.total := by
    rw [d.order_perm.length_eq, List.length_range]
  have hslice : (d.order.drop (d.range p.1 p.2).startOffset).take (d.range p.1 p.2).assignedCount =
      (d.positions p).map fun i => d.order.getD i 0 := by
    rcases range_end_le hp with hzero | hle
    · rw [positions, hzero, List.take_zero]
      rfl
    · rw [drop_take_eq _ (by rwa [hlen])]
      rfl
  rw [indices]
  by_cases hs : d.shuffle = true
  · have horder : d.order = d.permutation := if_pos hs
    rw [if_pos hs, ← horder, hslice]
  · have horder : d.order = List.range d.total := if_neg hs
    rw [if_neg hs, horder]
    symm
    calc (d.positions p).map (fun i => (List.range d.total).getD i 0)
        = (d.positions p).map id := by
          apply List.map_congr_left
          intro i hi
          have hi : i ∈ List.range d.total := by
            rw [← d.processes_positions]
            exact List.mem_flatMap.2 ⟨p, hp, hi⟩
          rw [List.getD_eq_getElem _ _ (by simpa using hi), List.getElem_range]
          rfl
      _ = d.positions p := List.map_id _

lemma length_indices : (d.indices p).length = (d.range p.1 p.2).assignedCount := by
  rw [indices_eq hp, List.length_map, positions, List.length_range']

lemma batches_eq : d.batches p =
    (List.range (((d.range p.1 p.2).outputCount + d.batchSize - 1) / d.batchSize)).map
      (piece d.batchSize (d.range p.1 p.2).outputCount (d.indices p)) :=
  iterBatches_eq d.batchSize.pos
    (ceil_mono d.batchSize.pos (output_le_assigned (mem_processes.1 hp).2))

lemma flatten_batches :
    (d.batches p).flatten = (d.indices p).take (d.range p.1 p.2).outputCount := by
  rw [batches_eq hp, flatten_pieces d.batchSize.pos]

end

lemma length_replicaBatches (hrank : rank < d.numReplicas) :
    (d.replicaBatches rank).length = (d.output rank + d.batchSize - 1) / d.batchSize := by
  rw [replicaBatches, List.length_flatMap, ← sum_ceil_countSplit_last d.workers_pos d.batchSize.pos]
  congr 1
  apply List.map_congr_left
  intro w hw
  have hw := List.mem_range.1 hw
  rw [batches_eq (mem_processes.2 ⟨hrank, hw⟩), List.length_map, List.length_range, range_eq hw]

lemma mem_replicaBatches {b : List ℕ}
    (hb : b ∈ d.replicaBatches rank) : ∃ w < d.workers, b ∈ d.batches (rank, w) := by
  obtain ⟨w, hw, hb⟩ := List.mem_flatMap.1 hb
  exact ⟨w, List.mem_range.1 hw, hb⟩

/-- Batches are whole if what a worker outputs is. -/
lemma length_batch (hdrop : d.dropLast = true) (hp : p ∈ d.processes) {b : List ℕ}
    (hb : b ∈ d.batches p) : b.length = d.batchSize := by
  have hB := d.batchSize.pos
  have hdvd : (d.batchSize : ℕ) ∣ (d.range p.1 p.2).outputCount := by
    rw [range_eq (mem_processes.1 hp).2]
    exact dvd_countSplit_fst hB (dvd_output hdrop _)
  have hle : (d.range p.1 p.2).outputCount ≤ (d.indices p).length := by
    rw [length_indices hp]
    exact output_le_assigned (mem_processes.1 hp).2
  rw [batches_eq hp] at hb
  obtain ⟨i, hi, rfl⟩ := List.mem_map.1 hb
  have hi := (lt_ceil_iff hB).1 (List.mem_range.1 hi)
  obtain ⟨k, hk⟩ := hdvd
  rw [length_piece hle, hk]
  rw [hk, Nat.mul_comm] at hi
  have hik : i + 1 ≤ k := Nat.lt_of_mul_lt_mul_left hi
  have hmul : (d.batchSize : ℕ) * (i + 1) ≤ d.batchSize * k := Nat.mul_le_mul_left _ hik
  rw [Nat.mul_add, Nat.mul_one, Nat.mul_comm _ i] at hmul
  omega

lemma sum_ite_eq_countP (P : ℕ → Prop) [DecidablePred P] (l : List ℕ) :
    (l.map fun i => if P i then 1 else 0).sum = l.countP fun i => P i := by
  induction l with
  | nil => rfl
  | cons i l ih =>
      rw [List.map_cons, List.sum_cons, ih, List.countP_cons, Nat.add_comm]
      simp only [decide_eq_true_eq]

/-- The batches of a replica that are not whole. -/
lemma countP_replicaBatches (hrank : rank < d.numReplicas) :
    (d.replicaBatches rank).countP (fun b => b.length < (d.batchSize : ℕ)) ≤ 1 := by
  have hworker : ∀ w ∈ List.range d.workers,
      (d.batches (rank, w)).countP (fun b => b.length < (d.batchSize : ℕ)) =
        if (countSplit (d.output rank) d.workers w d.batchSize).1 % d.batchSize ≠ 0 then 1 else 0 := by
    intro w hw
    have hw := List.mem_range.1 hw
    have hp : (rank, w) ∈ d.processes := mem_processes.2 ⟨hrank, hw⟩
    have hle : (d.range rank w).outputCount ≤ (d.indices (rank, w)).length := by
      rw [length_indices hp]
      exact output_le_assigned hw
    rw [batches_eq hp, countP_pieces d.batchSize.pos hle, range_eq hw, ite_not]
  rw [replicaBatches, List.countP_flatMap]
  show ((List.range d.workers).map fun w =>
    (d.batches (rank, w)).countP fun b => b.length < (d.batchSize : ℕ)).sum ≤ 1
  rw [List.map_congr_left hworker, sum_ite_eq_countP]
  exact countP_split_le_one d.batchSize.pos

/-- Without drops the batches are all items in order. -/
lemma flatten_all (hlast : d.dropLast = false) (huneven : d.dropUnevenInputs = false) :
    (d.processes.flatMap fun p => (d.batches p).flatten) = d.order := by
  have hwhole : ∀ p ∈ d.processes, (d.batches p).flatten = (d.positions p).map
      fun i => d.order.getD i 0 := by
    intro p hp
    have houtput : d.output p.1 = d.assigned p.1 := by
      rw [output, hlast, huneven]
      rfl
    have hcount : (d.range p.1 p.2).outputCount = (d.range p.1 p.2).assignedCount := by
      rw [range_eq (mem_processes.1 hp).2, houtput, Nat.sub_self, countSplit_of_zero Nat.one_pos]
      rfl
    rw [flatten_batches hp, hcount, ← length_indices hp, List.take_length, indices_eq hp]
  have hlen : d.order.length = d.total := by
    rw [d.order_perm.length_eq, List.length_range]
  have hall := drop_take_eq d.order (s := 0) (n := d.total) (by omega)
  rw [List.drop_zero, ← hlen, List.take_length, hlen, ← List.range_eq_range'] at hall
  rw [List.flatMap_congr hwhole, ← List.map_flatMap, processes_positions]
  exact hall.symm

/-- **Distributed item ranges**: the ranges of all workers of all replicas are the positions of the
items, one after the other; a worker yields items of its own range, as many as it is told to output;
and the flags keep what they promise. -/
theorem ranges_partition (d : DistributedItemSampler) :
    d.processes.flatMap d.positions = List.range d.total ∧
    (∀ p ∈ d.processes, (d.batches p).flatten <+: d.indices p ∧
      (d.batches p).flatten.length = (d.range p.1 p.2).outputCount) ∧
    (d.dropUnevenInputs = true → ∀ rank < (d.numReplicas : ℕ), ∀ rank' < (d.numReplicas : ℕ),
      (d.replicaBatches rank).length = (d.replicaBatches rank').length) ∧
    (d.dropLast = true → ∀ rank < (d.numReplicas : ℕ), ∀ b ∈ d.replicaBatches rank,
      b.length = d.batchSize) ∧
    (d.dropLast = false → ∀ rank < (d.numReplicas : ℕ),
      (d.replicaBatches rank).countP (fun b => b.length < (d.batchSize : ℕ)) ≤ 1) ∧
    (d.dropLast = false → d.dropUnevenInputs = false →
      (d.processes.flatMap fun p => (d.batches p).flatten).Perm (List.range d.total)) := by
  refine ⟨d.processes_positions, ?_, ?_, ?_, ?_, ?_⟩
  · intro p hp
    have hle : (d.range p.1 p.2).outputCount ≤ (d.range p.1 p.2).assignedCount :=
      output_le_assigned (mem_processes.1 hp).2
    rw [flatten_batches hp, List.length_take, length_indices hp, min_eq_left hle]
    exact ⟨List.take_prefix _ _, rfl⟩
  · intro huneven rank hrank rank' hrank'
    rw [length_replicaBatches hrank, length_replicaBatches hrank', ceil_output huneven hrank,
      ceil_output huneven hrank']
  · intro hlast rank hrank b hb
    obtain ⟨w, hw, hb⟩ := mem_replicaBatches hb
    exact length_batch hlast (mem_processes.2 ⟨hrank, hw⟩) hb
  · intro _ rank hrank
    exact countP_replicaBatches hrank
  · intro hlast huneven
    rw [flatten_all hlast huneven]
    exact d.order_perm

/-- Seven shuffled items for two replicas, which have to yield as many batches as each other. -/
def sevenItems : DistributedItemSampler where
  total := 7
  numReplicas := ⟨2, Nat.two_pos⟩
  numWorkers := 0
  batchSize := ⟨2, Nat.two_pos⟩
  dropLast := false
  dropUnevenInputs := true
  shuffle := true
  permutation := [3, 1, 4, 0, 6, 5, 2]
  permuted := by decide

example : (List.range 2).map sevenItems.replicaBatches = [[[3, 1], [4, 0]], [[6, 5], [2]]] := by decide

end DistributedItemSampler

end DglAscend.Graphbolt
