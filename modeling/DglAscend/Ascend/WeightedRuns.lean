import DglAscend.Ascend.WeightedRows
import DglAscend.Lib.Slots

/-!
# Runs of weighted sampling

The kernel row after row, and when its output is right for all draws (`right_iff_exact`): a draw of one is
above all sums, so that with replacement the last edge of a row can be picked although its probability
is zero.
-/

namespace DglAscend.Ascend.Weighted.Call

variable (c : Call)

/-- The number of picks of a row, as it should be. -/
def count (rid : ℕ) : ℕ :=
  if c.selectAll then (c.positive rid).length
  else if c.replace then (if c.positive rid = [] then 0 else c.numSamples.toNat)
  else min (c.positive rid).length c.numSamples.toNat

/-- The picks of the seeds before seed `i`. -/
def before (i : ℕ) : ℕ := ((c.seeds.take i).map c.count).sum

/-- The output of the kernel is right: `out_ptr` has the sums of the counts, every place is written once,
and a seed has its picks, which are edges of its row with positive probabilities. -/
structure Right (r : Draws) : Prop where
  outPtr : (c.process r).outPtr =
    (List.range (c.seeds.length + 1)).map fun i => (i, (c.before i : ℤ))
  places : ((c.process r).writes.map Prod.fst).Perm (List.range (c.before c.seeds.length))
  picks : ∀ i < c.seeds.length, ∃ ps : List ℕ, ps.length = c.count (c.seeds.getD i 0) ∧
    (∀ p ∈ ps, p ∈ c.csr.rowEdges (c.seeds.getD i 0) ∧ 0 < c.weight p) ∧
    (c.replace = false → ps.Nodup) ∧
    ∀ x ∈ ps.zipIdx, (c.before i + x.2, c.triple (c.seeds.getD i 0) x.1) ∈ (c.process r).writes

/-- The call is right, whatever is drawn.  A call that does not come to the kernel returns no picks. -/
def Agrees : Prop :=
  ∀ r, (c.Launched → c.Right r) ∧ (¬c.Launched → ∀ rid ∈ c.seeds, c.count rid = 0)

/-- The number of samples is not cut off to 32 bits where that matters. -/
def SamplesFit (rid : ℕ) : Prop :=
  c.positive rid = [] ∨ c.numSamples < 2 ^ 32 ∨
    c.replace = false ∧ (c.positive rid).length ≤ c.fanout

/-- The condition: the picks are within the type of ids and 32 bits, and with replacement the last edge
of a row has a positive probability if some edge has. -/
structure Exact : Prop where
  samples : ∀ rid ∈ c.seeds, c.SamplesFit rid
  total : c.before c.seeds.length < 2 ^ 32 ∧ c.before c.seeds.length < 2 ^ (c.bits - 1)
  last : c.replace = true → c.numSamples ≠ 0 → ∀ rid ∈ c.seeds, c.positive rid ≠ [] →
    0 < c.weight (c.csr.ptr (rid + 1) - 1)

variable {c} {rid i n : ℕ} {r : Draws} {js : List ℕ} {x : ℕ × Gm}

/-! ## Rows -/

/-- The number of picks that the kernel counts. -/
def picksOf (c : Call) (rid : ℕ) : ℕ := c.numPicks (c.positive rid).length

lemma fanout_lt (c : Call) : c.fanout < 2 ^ 32 := by
  rw [fanout]
  split_ifs
  · norm_num
  · exact u32_lt _

lemma numPicks_zero (c : Call) : c.numPicks 0 = 0 := by
  rw [numPicks]
  split_ifs <;> omega

/-- What the kernel has done after row `i`. -/
structure RowResult (c : Call) (r : Draws) (i : ℕ) (x y : ℕ × Gm) (js : List ℕ) : Prop where
  length : js.length = c.picksOf (c.seeds.getD i 0)
  lt : ∀ j ∈ js, j < c.deg (c.seeds.getD i 0)
  nodup : c.replace = false → js.Nodup
  pos : c.replace = false → ∀ j ∈ js, 0 < c.weight (c.csr.ptr (c.seeds.getD i 0) + j)
  drawn : c.replace = true → ∀ j ∈ js, ∃ p, j = c.searched (c.seeds.getD i 0) (r.unit i p)
  offset : y.1 = u32 (x.1 + c.picksOf (c.seeds.getD i 0))
  outPtr : y.2.outPtr = x.2.outPtr ++ [(i, c.toId x.1)]
  writes : y.2.writes = x.2.writes ++ c.writesFrom (c.seeds.getD i 0) x.1 js
  marks : ∀ j, y.2.usedWs j ≤ i + 1

lemma inRow (hfits : c.Fits) (hi : i < c.seeds.length) : InRow c (c.seeds.getD i 0) where
  fits := hfits
  mem := by
    rw [List.getD_eq_getElem _ _ hi]
    exact List.getElem_mem hi

lemma replace_of_selectAll (h : c.selectAll = true) : c.replace = false := by
  rw [replace, h, Bool.not_true, Bool.and_false]

/-- **The turn of a row.** -/
theorem processRow_spec (hfits : c.Fits) (hi : i < c.seeds.length) (hoffset : x.1 < 2 ^ 32)
    (hmarks : ∀ j, x.2.usedWs j ≤ i) : ∃ js, RowResult c r i x (c.processRow r x i) js := by
  have h := inRow hfits hi
  have hlt := c.fanout_lt
  generalize hrid : c.seeds.getD i 0 = rid at h
  by_cases hdeg : c.deg rid = 0
  · have hnone : c.positive rid = [] := by rw [h.positive_eq, hdeg]; rfl
    have hzero : c.picksOf rid = 0 := by rw [picksOf, hnone]; exact c.numPicks_zero
    have hrun : c.processRow r x i =
        (x.1, { x.2 with outPtr := x.2.outPtr ++ [(i, c.toId x.1)] }) := by
      rw [processRow, hrid, if_pos hdeg]
    refine ⟨[], ?_, fun j hj => absurd hj List.not_mem_nil, fun _ => List.nodup_nil,
      fun _ j hj => absurd hj List.not_mem_nil, fun _ j hj => absurd hj List.not_mem_nil, ?_, ?_, ?_, ?_⟩
    · rw [hrid, hzero, List.length_nil]
    · rw [hrun, hrid, hzero, Nat.add_zero, u32_eq hoffset]
    · rw [hrun]
    · rw [hrun]
      exact (List.append_nil _).symm
    · rw [hrun]
      exact fun j => (hmarks j).trans (Nat.le_succ i)
  · generalize hgather : ({ x.2 with
      outPtr := x.2.outPtr ++ [(i, c.toId x.1)]
      probWs := c.gather rid x.2.probWs } : Gm) = g
    have hg : Gathered c rid g := by
      rw [← hgather]
      exact fun j hj => h.gather_eq x.2.probWs hj
    have hused : ∀ j, g.usedWs j ≤ i := by
      rw [← hgather]
      exact hmarks
    have hwrites : g.writes = x.2.writes := by rw [← hgather]
    have hptr : g.outPtr = x.2.outPtr ++ [(i, c.toId x.1)] := by rw [← hgather]
    have hpicks : c.numPicks (nnzPos (c.deg rid) g.probWs) = c.picksOf rid := by
      rw [hg.nnzPos_eq h, picksOf]
    have hrun : c.processRow r x i =
        (u32 (x.1 + c.picksOf rid), c.drawRow r i rid x.1 (c.picksOf rid) g) := by
      rw [processRow, hrid, if_neg hdeg, ← hpicks, ← hgather]
    have hdone : ∃ js : List ℕ, js.length = c.picksOf rid ∧ (c.replace = false → js.Nodup) ∧
        (c.replace = false → ∀ j ∈ js, 0 < c.weight (c.csr.ptr rid + j)) ∧
        (c.replace = true → ∀ j ∈ js, ∃ p, j = c.searched rid (r.unit i p)) ∧
        Done c i rid x.1 js g (c.drawRow r i rid x.1 (c.picksOf rid) g) := by
      by_cases hzero : c.picksOf rid = 0
      · rw [hzero, drawRow, if_pos rfl]
        refine ⟨[], rfl, fun _ => List.nodup_nil, fun _ j hj => absurd hj List.not_mem_nil,
          fun _ j hj => absurd hj List.not_mem_nil, (List.append_nil _).symm, rfl,
          fun j hj => absurd hj List.not_mem_nil, fun hle j => (hle j).trans (Nat.le_succ i)⟩
      · rw [drawRow, if_neg hzero]
        by_cases hall : c.selectAll = true
        · have heq : (c.positive rid).length = c.picksOf rid := by
            rw [picksOf, numPicks, if_pos hall]
          rw [if_pos hall]
          refine ⟨_, ?_, fun _ => List.nodup_range.filter _, fun _ j hj => ?_, fun hreplace => ?_,
            copyPositive_spec h hg heq x.1 i⟩
          · rw [← heq, h.positive_eq, List.length_map]
          · exact of_decide_eq_true (List.mem_filter.1 hj).2
          · rw [replace_of_selectAll hall] at hreplace
            cases hreplace
        · rw [if_neg hall]
          by_cases hreplace : c.replace = true
          · rw [if_pos hreplace]
            refine ⟨_, ?_, fun hno => ?_, fun hno => ?_, fun _ j hj => ?_,
              drawReplace_spec h hg (Nat.pos_of_ne_zero hdeg) r i x.1 (c.picksOf rid)⟩
            · rw [List.length_map, List.length_range]
            · exact absurd (hreplace.symm.trans hno) (by decide)
            · exact absurd (hreplace.symm.trans hno) (by decide)
            · obtain ⟨p, -, rfl⟩ := List.mem_map.1 hj
              exact ⟨p, rfl⟩
          · rw [if_neg hreplace]
            have hle : c.picksOf rid ≤ (c.positive rid).length := by
              rw [picksOf, numPicks, if_neg hall, if_neg hreplace]
              split_ifs <;> omega
            obtain ⟨js, hjs, hnodup, hpos, hspec⟩ := drawDistinct_spec h hg hi hused hle r x.1
            exact ⟨js, hjs, fun _ => hnodup, fun _ => hpos, fun hyes => absurd hyes hreplace, hspec⟩
    obtain ⟨js, hjs, hnodup, hpos, hdrawn, hspec⟩ := hdone
    refine ⟨js, ?_, ?_, hnodup, ?_, ?_, ?_, ?_, ?_, ?_⟩
    · rw [hrid, hjs]
    · rw [hrid]
      exact hspec.lt
    · rw [hrid]
      exact hpos
    · rw [hrid]
      exact hdrawn
    · rw [hrun, hrid]
    · rw [hrun, ← hptr, hspec.outPtr]
    · rw [hrun, hrid, ← hwrites, hspec.writes]
    · rw [hrun]
      exact hspec.marks hused

/-! ## Runs -/

/-- The state before row `n`, with the offset. -/
def turns (c : Call) (r : Draws) (n : ℕ) : ℕ × Gm :=
  (List.range n).foldl (c.processRow r) (0, ⟨r.probWs, r.cdfWs, fun _ => 0, [], []⟩)

/-- The picks that the kernel counts before row `n`. -/
def counted (c : Call) (n : ℕ) : ℕ := ((c.seeds.take n).map c.picksOf).sum

lemma turns_succ (c : Call) (r : Draws) (n : ℕ) :
    c.turns r (n + 1) = c.processRow r (c.turns r n) n := by
  rw [turns, List.range_succ, List.foldl_append, List.foldl_cons, List.foldl_nil, turns]

lemma sum_take_succ (f : ℕ → ℕ) (hi : i < c.seeds.length) :
    ((c.seeds.take (i + 1)).map f).sum = ((c.seeds.take i).map f).sum + f (c.seeds.getD i 0) := by
  rw [List.take_succ_eq_append_getElem hi, List.map_append, List.sum_append, List.map_singleton,
    List.sum_singleton, List.getD_eq_getElem _ _ hi]

lemma u32_add (a b : ℕ) : u32 (u32 a + b) = u32 (a + b) := Nat.mod_add_mod a (2 ^ 32) b

lemma turns_invariant (hfits : c.Fits) (hn : n ≤ c.seeds.length) :
    (c.turns r n).1 = u32 (c.counted n) ∧ ∀ j, (c.turns r n).2.usedWs j ≤ n := by
  induction n with
  | zero => exact ⟨rfl, fun _ => le_refl 0⟩
  | succ n ih =>
      obtain ⟨hoffset, hmarks⟩ := ih (Nat.le_of_succ_le hn)
      obtain ⟨js, hrow⟩ := processRow_spec (r := r) hfits hn (by rw [hoffset]; exact u32_lt _) hmarks
      rw [turns_succ, hrow.offset, hoffset, u32_add, counted, counted, sum_take_succ c.picksOf hn]
      exact ⟨rfl, hrow.marks⟩

lemma exists_rows (hfits : c.Fits) (r : Draws) : ∃ jss : ℕ → List ℕ, ∀ i < c.seeds.length,
    RowResult c r i (c.turns r i) (c.turns r (i + 1)) (jss i) := by
  have hrow : ∀ i, ∃ js, i < c.seeds.length →
      RowResult c r i (c.turns r i) (c.turns r (i + 1)) js := by
    intro i
    by_cases hi : i < c.seeds.length
    · obtain ⟨hoffset, hmarks⟩ := turns_invariant (r := r) hfits hi.le
      obtain ⟨js, hjs⟩ := processRow_spec (r := r) hfits hi (by rw [hoffset]; exact u32_lt _) hmarks
      rw [← turns_succ] at hjs
      exact ⟨js, fun _ => hjs⟩
    · exact ⟨[], fun h => absurd h hi⟩
  choose jss hjss using hrow
  exact ⟨jss, hjss⟩

/-- **What the kernel has written.** -/
theorem process_eq (hfits : c.Fits) {jss : ℕ → List ℕ}
    (hrows : ∀ i < c.seeds.length, RowResult c r i (c.turns r i) (c.turns r (i + 1)) (jss i)) :
    (c.process r).outPtr =
        (List.range (c.seeds.length + 1)).map (fun i => (i, c.toId (u32 (c.counted i)))) ∧
      (c.process r).writes = (List.range c.seeds.length).flatMap fun i =>
        c.writesFrom (c.seeds.getD i 0) (u32 (c.counted i)) (jss i) := by
  have hturns : ∀ n ≤ c.seeds.length,
      (c.turns r n).2.outPtr = (List.range n).map (fun i => (i, c.toId (u32 (c.counted i)))) ∧
        (c.turns r n).2.writes = (List.range n).flatMap fun i =>
          c.writesFrom (c.seeds.getD i 0) (u32 (c.counted i)) (jss i) := by
    intro n
    induction n with
    | zero => exact fun _ => ⟨rfl, rfl⟩
    | succ n ih =>
        intro hn
        obtain ⟨hptr, hwrites⟩ := ih (Nat.le_of_succ_le hn)
        have hrow := hrows n hn
        have hoffset := (turns_invariant (r := r) hfits (Nat.le_of_succ_le hn)).1
        rw [hrow.outPtr, hrow.writes, hptr, hwrites, hoffset, List.range_succ, List.map_append,
          List.flatMap_append, List.map_singleton, List.flatMap_singleton]
        exact ⟨rfl, rfl⟩
  obtain ⟨hptr, hwrites⟩ := hturns _ (le_refl _)
  have hoffset := (turns_invariant (r := r) hfits (le_refl c.seeds.length)).1
  have hseeds : u32 c.seeds.length = c.seeds.length := u32_eq hfits.seeds
  rw [process, hseeds]
  show (c.turns r c.seeds.length).2.outPtr ++
      [(c.seeds.length, c.toId (c.turns r c.seeds.length).1)] = _ ∧
    (c.turns r c.seeds.length).2.writes = _
  rw [hptr, hoffset, List.range_succ, List.map_append, List.map_singleton]
  exact ⟨rfl, hwrites⟩

lemma map_fst_writesFrom {rid pos : ℕ} (hpos : pos + js.length ≤ 2 ^ 32) :
    (c.writesFrom rid pos js).map Prod.fst = List.range' pos js.length := by
  induction js generalizing pos with
  | nil => rfl
  | cons j js ih =>
      rw [List.length_cons] at hpos
      rw [writesFrom, List.map_cons, ih (by omega), List.length_cons, List.range'_succ]
      congr 1
      exact u32_eq (by omega)

lemma mem_writesFrom (rid pos : ℕ) {k j : ℕ} (hk : js[k]? = some j) :
    (u32 (pos + k), c.triple rid (c.csr.ptr rid + j)) ∈ c.writesFrom rid pos js := by
  induction js generalizing pos k with
  | nil => cases hk
  | cons j' js ih =>
      rw [writesFrom]
      cases k with
      | zero =>
          rw [List.getElem?_cons_zero, Option.some_inj] at hk
          rw [hk]
          exact List.mem_cons_self
      | succ k =>
          rw [List.getElem?_cons_succ] at hk
          have hmem := ih (pos + 1) hk
          rw [Nat.add_assoc, Nat.add_comm 1] at hmem
          exact List.mem_cons_of_mem _ hmem

/-! ## Counts -/

/-- A value of the type of ids is what it should be. -/
lemma toId_eq_iff {v n : ℕ} (hv : v < 2 ^ 32) : c.toId v = (n : ℤ) ↔ v = n ∧ v < 2 ^ (c.bits - 1) := by
  rw [toId, Int.bmod]
  rcases c.bits_eq with hbits | hbits
  · rw [hbits]
    norm_num
    omega
  · rw [hbits]
    norm_num
    omega

lemma before_succ (hi : i < c.seeds.length) :
    c.before (i + 1) = c.before i + c.count (c.seeds.getD i 0) := sum_take_succ c.count hi

lemma before_mono (hn : n ≤ c.seeds.length) (hi : i ≤ n) : c.before i ≤ c.before n := by
  induction n, hi using Nat.le_induction with
  | base => exact le_refl _
  | succ k _ ih =>
      rw [before_succ hn]
      exact (ih (Nat.le_of_succ_le hn)).trans (Nat.le_add_right _ _)

lemma length_positive_lt (hfits : c.Fits) (hi : i < c.seeds.length) :
    (c.positive (c.seeds.getD i 0)).length < 2 ^ 32 := by
  have h := inRow hfits hi
  rw [h.positive_eq, List.length_map]
  have hle := List.length_filter_le (fun j => decide (0 < c.weight (c.csr.ptr (c.seeds.getD i 0) + j)))
    (List.range (c.deg (c.seeds.getD i 0)))
  rw [List.length_range] at hle
  exact hle.trans_lt (u32_lt _)

/-- The kernel counts the picks if and only if the number of samples is not cut off. -/
lemma picksOf_eq_iff (hfits : c.Fits) (hi : i < c.seeds.length) :
    c.picksOf (c.seeds.getD i 0) = c.count (c.seeds.getD i 0) ↔ c.SamplesFit (c.seeds.getD i 0) := by
  have hlt := length_positive_lt hfits hi
  generalize c.seeds.getD i 0 = rid at *
  have hnil : c.positive rid = [] ↔ (c.positive rid).length = 0 := List.length_eq_zero_iff.symm
  have hge := c.numSamples_ge
  rw [picksOf, numPicks, count, SamplesFit]
  by_cases hall : c.selectAll = true
  · have hsamples : c.numSamples = -1 := of_decide_eq_true hall
    rw [if_pos hall, if_pos hall, hsamples]
    exact ⟨fun _ => Or.inr (Or.inl (by norm_num)), fun _ => rfl⟩
  · have hfanout : c.fanout = c.numSamples.toNat % 2 ^ 32 := if_neg hall
    have hne : c.numSamples ≠ -1 := fun h => hall (decide_eq_true h)
    rw [if_neg hall, if_neg hall]
    by_cases hreplace : c.replace = true
    · rw [if_pos hreplace, if_pos hreplace, hreplace]
      by_cases hzero : c.positive rid = []
      · rw [if_pos (hnil.1 hzero), if_pos hzero]
        exact ⟨fun _ => Or.inl hzero, fun _ => rfl⟩
      · rw [if_neg fun h => hzero (hnil.2 h), if_neg hzero, hfanout]
        constructor
        · intro heq
          exact Or.inr (Or.inl (by omega))
        · rintro (h | h | ⟨h, -⟩)
          · exact absurd h hzero
          · exact Nat.mod_eq_of_lt (by omega)
          · cases h
    · rw [if_neg hreplace, if_neg hreplace]
      rw [Bool.not_eq_true] at hreplace
      constructor
      · intro heq
        refine Or.inr ?_
        by_cases hsmall : c.numSamples < 2 ^ 32
        · exact Or.inl hsmall
        · refine Or.inr ⟨hreplace, ?_⟩
          by_contra hmore
          rw [if_neg (by omega)] at heq
          omega
      · rintro (h | h | ⟨-, h⟩)
        · rw [hnil.1 h]
          split_ifs <;> omega
        · have hsame : c.fanout = c.numSamples.toNat := by
            rw [hfanout]
            exact Nat.mod_eq_of_lt (by omega)
          rw [hsame]
          split_ifs <;> omega
        · have hle : c.fanout ≤ c.numSamples.toNat := by
            rw [hfanout]
            exact Nat.mod_le _ _
          split_ifs <;> omega

/-! ## Calls without a launch -/

lemma foldl_toId (ds : List ℕ) {s : ℕ} (hsum : s + ds.sum < 2 ^ (c.bits - 1)) :
    ds.foldl (fun (s : ℤ) (d : ℕ) => c.toId (s + d)) s = (s + ds.sum : ℕ) := by
  induction ds generalizing s with
  | nil => rw [List.foldl_nil, List.sum_nil, Nat.add_zero]
  | cons d ds ih =>
      rw [List.sum_cons] at hsum
      have hid : c.toId ((s : ℤ) + d) = ((s + d : ℕ) : ℤ) := by
        have hpow : (2 : ℤ) ^ c.bits = 2 * 2 ^ (c.bits - 1) := by
          rcases c.bits_eq with hbits | hbits <;> rw [hbits] <;> norm_num
        have hlt : ((s + d : ℕ) : ℤ) < 2 ^ (c.bits - 1) := by
          have hsd : s + d < 2 ^ (c.bits - 1) := by omega
          exact_mod_cast hsd
        rw [toId, ← Nat.cast_add]
        apply Int.bmod_eq_of_le
        · push_cast
          omega
        · push_cast at *
          omega
      rw [List.foldl_cons, hid, ih (by omega), List.sum_cons, Nat.add_assoc]

lemma count_of_not_launched (hfits : c.Fits) (h : ¬c.Launched) : ∀ rid ∈ c.seeds, c.count rid = 0 := by
  intro rid hmem
  have hnone : (∀ d ∈ c.degrees, d = 0) → c.count rid = 0 := by
    intro hdegrees
    have hzero := hdegrees _ (List.mem_map_of_mem hmem)
    have hnil : c.positive rid = [] := by
      rw [positive, Csr.rowEdges, Csr.edgesBetween, hzero]
      rfl
    rw [count, hnil]
    split_ifs <;> simp at *
  by_cases hsamples : c.numSamples = 0
  · have hall : ¬c.selectAll = true := by
      rw [selectAll, decide_eq_true_eq, hsamples]
      decide
    rw [count, if_neg hall, hsamples]
    split_ifs <;> simp
  · by_cases hdegrees : ∀ d ∈ c.degrees, d = 0
    · exact hnone hdegrees
    · have houtput : c.maxOutput = 0 := by
        by_contra hne
        push Not at hdegrees
        exact h ⟨List.ne_nil_of_mem hmem, Or.inl hsamples, hne, hdegrees⟩
      rw [maxOutput] at houtput
      by_cases hall : c.selectAll = true
      · have hsum := foldl_toId c.degrees (s := 0) (by rw [Nat.zero_add]; exact hfits.degrees hall)
        rw [if_pos hall, sumDeg, ← Nat.cast_zero, hsum, Nat.zero_add, Nat.cast_inj] at houtput
        exact hnone (List.sum_eq_zero_iff.1 houtput)
      · rw [if_neg hall] at houtput
        rcases Int.mul_eq_zero.1 houtput with hlen | hzero
        · rw [Nat.cast_eq_zero, List.length_eq_zero_iff] at hlen
          rw [hlen] at hmem
          cases hmem
        · exact absurd hzero hsamples

lemma toNat_pos (hreplace : c.replace = true) (hne : c.numSamples ≠ 0) : 0 < c.numSamples.toNat := by
  have hge := c.numSamples_ge
  have hall : c.numSamples ≠ -1 := by
    intro hminus
    have hno := replace_of_selectAll (c := c) (decide_eq_true hminus)
    exact absurd (hreplace.symm.trans hno) (by decide)
  omega

/-! ## All draws -/

/-- The counts of the kernel, if they are right. -/
lemma counted_eq (hfits : c.Fits) (hsamples : ∀ rid ∈ c.seeds, c.SamplesFit rid) (n : ℕ) :
    c.counted n = c.before n := by
  rw [counted, before]
  congr 1
  apply List.map_congr_left
  intro rid hmem
  obtain ⟨i, hi, rfl⟩ := List.getElem_of_mem (List.mem_of_mem_take hmem)
  have heq := (picksOf_eq_iff hfits hi).2
  rw [List.getD_eq_getElem _ _ hi] at heq
  exact heq (hsamples _ (List.getElem_mem hi))

lemma InRow.last_eq (h : InRow c rid) (hdeg : 0 < c.deg rid) :
    c.csr.ptr rid + (c.deg rid - 1) = c.csr.ptr (rid + 1) - 1 := by
  rw [h.deg_eq] at *
  omega

/-- **Under the condition the output is right for all draws.** -/
theorem right_of_exact (hfits : c.Fits) (hexact : c.Exact) (hlaunched : c.Launched) (r : Draws) :
    c.Right r := by
  obtain ⟨jss, hrows⟩ := exists_rows hfits r
  obtain ⟨hptr, hwrites⟩ := process_eq hfits hrows
  have hlt : ∀ i ≤ c.seeds.length, c.before i < 2 ^ 32 := fun i hi =>
    (before_mono (le_refl _) hi).trans_lt hexact.total.1
  have hcounted : ∀ i ≤ c.seeds.length, u32 (c.counted i) = c.before i := fun i hi => by
    rw [counted_eq hfits hexact.samples, u32_eq (hlt i hi)]
  have hlength : ∀ i < c.seeds.length, (jss i).length = c.count (c.seeds.getD i 0) := fun i hi => by
    rw [(hrows i hi).length, (picksOf_eq_iff hfits hi).2]
    rw [List.getD_eq_getElem _ _ hi]
    exact hexact.samples _ (List.getElem_mem hi)
  have hpos : ∀ i < c.seeds.length, ∀ j ∈ jss i, 0 < c.weight (c.csr.ptr (c.seeds.getD i 0) + j) := by
    intro i hi j hj
    by_cases hreplace : c.replace = true
    · have h := inRow hfits hi
      obtain ⟨p, rfl⟩ := (hrows i hi).drawn hreplace j hj
      have hdeg : 0 < c.deg (c.seeds.getD i 0) := (Nat.zero_le _).trans_lt ((hrows i hi).lt _ hj)
      apply searched_pos (r.unit_nonneg i p)
      rw [h.last_eq hdeg]
      have hmem : c.seeds.getD i 0 ∈ c.seeds := by
        rw [List.getD_eq_getElem _ _ hi]
        exact List.getElem_mem hi
      apply hexact.last hreplace _ _ hmem
      · intro hnil
        have hnone := (hrows i hi).length
        rw [picksOf, hnil, List.length_nil, numPicks_zero, List.length_eq_zero_iff] at hnone
        rw [hnone] at hj
        cases hj
      · rcases hlaunched.2.1 with hne | hall
        · exact hne
        · exact absurd (hreplace.symm.trans (replace_of_selectAll hall)) (by decide)
    · exact (hrows i hi).pos (Bool.eq_false_of_not_eq_true hreplace) j hj
  refine ⟨?_, ?_, fun i hi => ?_⟩
  · rw [hptr]
    apply List.map_congr_left
    intro i hi
    have hle : i ≤ c.seeds.length := Nat.le_of_lt_succ (List.mem_range.1 hi)
    rw [hcounted i hle, (toId_eq_iff (hlt i hle)).2 ⟨rfl, ?_⟩]
    exact (before_mono (le_refl _) hle).trans_lt hexact.total.2
  · have hslots := slotItems_eq (b := c.before) (n := c.seeds.length) rfl fun i hi => by
      rw [before_succ hi]
      exact Nat.le_add_right _ _
    rw [hwrites, List.map_flatMap, ← hslots, slotItems, List.flatMap_congr]
    intro i hi
    have hi := List.mem_range.1 hi
    have hsucc := before_succ hi
    have hle := hlt (i + 1) hi
    rw [hcounted i hi.le, map_fst_writesFrom, hlength i hi, hsucc, Nat.add_sub_cancel_left]
    rw [hlength i hi]
    omega
  · refine ⟨(jss i).map (c.csr.ptr (c.seeds.getD i 0) + ·), by rw [List.length_map, hlength i hi], ?_, ?_,
      ?_⟩
    · intro p hp
      obtain ⟨j, hj, rfl⟩ := List.mem_map.1 hp
      exact ⟨(inRow hfits hi).mem_rowEdges ((hrows i hi).lt j hj), hpos i hi j hj⟩
    · intro hreplace
      exact ((hrows i hi).nodup hreplace).map fun a b hab => Nat.add_left_cancel hab
    · intro x hx
      rw [List.mem_zipIdx_iff_getElem?, List.getElem?_map, Option.map_eq_some_iff] at hx
      obtain ⟨j, hj, hxj⟩ := hx
      have hk : x.2 < (jss i).length := (List.getElem?_eq_some_iff.1 hj).1
      have hmem := mem_writesFrom (c := c) (c.seeds.getD i 0) (c.before i) hj
      have hsucc := before_succ hi
      have hle := hlt (i + 1) hi
      rw [hlength i hi] at hk
      rw [u32_eq (by omega), hxj] at hmem
      rw [hwrites]
      refine List.mem_flatMap.2 ⟨i, List.mem_range.2 hi, ?_⟩
      rw [hcounted i hi.le]
      exact hmem

/-- All draws are one. -/
def ones : Draws where
  unit _ _ := 1
  probWs _ := 0
  cdfWs _ := 0
  unit_nonneg _ _ := zero_le_one
  unit_le _ _ := le_refl 1

/-- **The condition is necessary**, already if all draws are one. -/
theorem exact_of_right (hfits : c.Fits) (hright : c.Right ones) : c.Exact := by
  obtain ⟨jss, hrows⟩ := exists_rows hfits ones
  obtain ⟨hptr, hwrites⟩ := process_eq hfits hrows
  have hvalues : ∀ i ≤ c.seeds.length,
      u32 (c.counted i) = c.before i ∧ u32 (c.counted i) < 2 ^ (c.bits - 1) := by
    intro i hi
    have heq := hright.outPtr
    rw [hptr, List.map_inj_left] at heq
    have hi := heq i (List.mem_range.2 (Nat.lt_succ_of_le hi))
    rw [Prod.mk.injEq] at hi
    exact (toId_eq_iff (u32_lt _)).1 hi.2
  have hpicks : ∀ i < c.seeds.length, c.picksOf (c.seeds.getD i 0) = c.count (c.seeds.getD i 0) := by
    intro i hi
    have hnow := (hvalues i hi.le).1
    have hnext := (hvalues (i + 1) hi).1
    have hlt : c.picksOf (c.seeds.getD i 0) < 2 ^ 32 := by
      have hpositive := length_positive_lt hfits hi
      have hfanout := c.fanout_lt
      rw [picksOf, numPicks]
      split_ifs <;> omega
    rw [counted, sum_take_succ c.picksOf hi, before_succ hi] at hnext
    rw [counted] at hnow
    generalize c.picksOf (c.seeds.getD i 0) = picks at *
    generalize ((c.seeds.take i).map c.picksOf).sum = start at *
    rw [u32] at hnow hnext
    omega
  have htotal := hvalues _ (le_refl c.seeds.length)
  refine ⟨fun rid hmem => ?_, ⟨?_, ?_⟩, fun hreplace hne rid hmem hpositive => ?_⟩
  · obtain ⟨i, hi, rfl⟩ := List.getElem_of_mem hmem
    have hsamples := (picksOf_eq_iff hfits hi).1 (hpicks i hi)
    rw [List.getD_eq_getElem _ _ hi] at hsamples
    exact hsamples
  · rw [← htotal.1]
    exact u32_lt _
  · rw [← htotal.1]
    exact htotal.2
  · obtain ⟨i, hi, rfl⟩ := List.getElem_of_mem hmem
    have hget : c.seeds.getD i 0 = c.seeds[i] := List.getD_eq_getElem _ _ hi
    have hcount : 0 < c.count (c.seeds.getD i 0) := by
      have hall : ¬c.selectAll = true := fun hall =>
        absurd (hreplace.symm.trans (replace_of_selectAll hall)) (by decide)
      rw [count, if_neg hall, if_pos hreplace, if_neg (by rwa [hget])]
      exact toNat_pos hreplace hne
    obtain ⟨ps, hlen, hps, -, hmem⟩ := hright.picks i hi
    have hrow := hrows i hi
    have hdrawn := hrow.drawn hreplace
    have hlt := hrow.lt
    have hjs := hrow.length
    rw [hpicks i hi] at hjs
    -- the first pick of the row, as the weights give it and as the kernel has written it
    obtain ⟨p, ps, rfl⟩ := List.exists_cons_of_length_pos (hlen.symm ▸ hcount)
    obtain ⟨j, js, hjss⟩ := List.exists_cons_of_length_pos (hjs.symm ▸ hcount)
    have hone : (c.before i, c.triple (c.seeds.getD i 0) p) ∈ (c.process ones).writes :=
      hmem (p, 0) (by rw [List.zipIdx_cons]; exact List.mem_cons_self)
    have htwo : (c.before i, c.triple (c.seeds.getD i 0) (c.csr.ptr (c.seeds.getD i 0) + j)) ∈
        (c.process ones).writes := by
      have hhead : (jss i)[0]? = some j := by rw [hjss, List.getElem?_cons_zero]
      have hfirst := mem_writesFrom (c := c) (c.seeds.getD i 0) (u32 (c.counted i)) hhead
      rw [Nat.add_zero, u32_eq (u32_lt _), (hvalues i hi.le).1] at hfirst
      rw [hwrites]
      refine List.mem_flatMap.2 ⟨i, List.mem_range.2 hi, ?_⟩
      rw [(hvalues i hi.le).1]
      exact hfirst
    have hnodup : ((c.process ones).writes.map Prod.fst).Nodup :=
      hright.places.nodup_iff.2 List.nodup_range
    have hsame := List.inj_on_of_nodup_map hnodup hone htwo rfl
    rw [Prod.mk.injEq, triple, triple, Prod.mk.injEq, Prod.mk.injEq] at hsame
    have hj : j ∈ jss i := by
      rw [hjss]
      exact List.mem_cons_self
    have hweight := (hps p List.mem_cons_self).2
    rw [weight, hsame.2.2.2, ← weight] at hweight
    obtain ⟨q, rfl⟩ := hdrawn j hj
    have hdeg : 0 < c.deg (c.seeds.getD i 0) := (Nat.zero_le _).trans_lt (hlt _ hj)
    rw [show ones.unit i q = 1 from rfl, searched_one hdeg, (inRow hfits hi).last_eq hdeg, hget]
      at hweight
    exact hweight

/-- A call without picks meets the condition. -/
lemma exact_of_count (hcount : ∀ rid ∈ c.seeds, c.count rid = 0) : c.Exact := by
  have hbefore : c.before c.seeds.length = 0 := by
    rw [before, List.take_length]
    apply List.sum_eq_zero
    intro n hn
    obtain ⟨rid, hmem, rfl⟩ := List.mem_map.1 hn
    exact hcount rid hmem
  have hcases : ∀ rid ∈ c.seeds, c.positive rid = [] ∨ c.numSamples ≤ 0 := by
    intro rid hmem
    have hzero := hcount rid hmem
    by_cases hall : c.selectAll = true
    · rw [count, if_pos hall] at hzero
      exact Or.inl (List.length_eq_zero_iff.1 hzero)
    · rw [count, if_neg hall] at hzero
      by_cases hnil : c.positive rid = []
      · exact Or.inl hnil
      · have hlen := List.length_pos_of_ne_nil hnil
        rw [if_neg hnil] at hzero
        refine Or.inr ?_
        split_ifs at hzero <;> omega
  refine ⟨fun rid hmem => ?_, ⟨?_, ?_⟩, fun hreplace hne rid hmem hpositive => ?_⟩
  · rcases hcases rid hmem with hnil | hle
    · exact Or.inl hnil
    · exact Or.inr (Or.inl (hle.trans_lt (by norm_num)))
  · rw [hbefore]
    norm_num
  · rw [hbefore]
    exact Nat.two_pow_pos _
  · have hpos := toNat_pos hreplace hne
    rcases hcases rid hmem with hnil | hle
    · exact absurd hnil hpositive
    · omega

/-- A row of two edges. -/
def fork : Csr := Csr.parallelEdges

/-- A draw with replacement from that row. -/
def forkCall (prob : List ℚ) (hlen : 2 ≤ prob.length) (hprob : ∀ p ∈ prob, 0 ≤ p) : Call where
  csr := fork
  data := none
  prob := prob
  seeds := [0]
  numSamples := 1
  replaceGiven := true
  bits := 32
  data_length d hd := by cases hd
  ids_lt _ hk := Nat.lt_of_lt_of_le hk hlen
  prob_nonneg := hprob
  seeds_lt := by decide
  numSamples_ge := by decide
  bits_eq := Or.inl rfl

lemma fits_fork {prob : List ℚ} {hlen : 2 ≤ prob.length} {hprob : ∀ p ∈ prob, 0 ≤ p} :
    (forkCall prob hlen hprob).Fits := by
  refine ⟨fun rid hrid => ?_, fun rid hrid => ?_, fun rid hrid k hk => ?_, ?_, fun hall => ?_⟩
  · rw [List.mem_singleton.1 hrid]
    norm_num
  · rw [List.mem_singleton.1 hrid]
    show 2 < 2 ^ 32
    norm_num
  · rw [List.mem_singleton.1 hrid, Csr.rowEdges, Csr.mem_edgesBetween] at hk
    have hlt : k < 2 := hk.2
    exact hlt.trans (by norm_num)
  · show 1 < 2 ^ 32
    norm_num
  · have hsamples : (1 : ℤ) = -1 := of_decide_eq_true hall
    exact absurd hsamples (by decide)

end DglAscend.Ascend.Weighted.Call
