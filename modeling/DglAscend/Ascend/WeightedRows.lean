import DglAscend.Ascend.WeightedSampling

/-!
# Rows of weighted sampling

What the three branches of the kernel write for a row.  All picks are positions of the row; without
replacement they are distinct and have positive probabilities (`drawDistinct_spec`), with replacement
they have if the last edge of the row has (`drawReplace_spec`).
-/

namespace DglAscend.Ascend.Weighted.Call

variable (c : Call)

/-- The probability of an edge. -/
def weight (k : ℕ) : ℚ := c.prob.getD (edgeId c.data k) 0

/-- What an edge is in the output. -/
def triple (rid k : ℕ) : Pick := (rid, c.csr.indices.getD k 0, edgeId c.data k)

/-- The edges of a row with positive probabilities. -/
def positive (rid : ℕ) : List ℕ := (c.csr.rowEdges rid).filter fun k => 0 < c.weight k

/-- The addresses of the seeds' rows are within 32 bits, and the sum of the degrees is within the type of
ids where it is looked at. -/
structure Fits : Prop where
  rows : ∀ rid ∈ c.seeds, rid + 1 < 2 ^ 32
  edges : ∀ rid ∈ c.seeds, c.csr.ptr (rid + 1) < 2 ^ 32
  ids : ∀ rid ∈ c.seeds, ∀ k ∈ c.csr.rowEdges rid, edgeId c.data k < 2 ^ 32
  seeds : c.seeds.length < 2 ^ 32
  degrees : c.selectAll = true → c.degrees.sum < 2 ^ (c.bits - 1)

/-- The writes of the picks `js`, which are numbered in their row. -/
def writesFrom (rid : ℕ) : ℕ → List ℕ → List (ℕ × Pick)
  | _, [] => []
  | pos, j :: js => (u32 pos, c.triple rid (c.csr.ptr rid + j)) :: writesFrom rid (pos + 1) js

variable {c} {rid i j pos offset picks left p mark : ℕ} {g : Gm} {r : Draws} {js ks : List ℕ}

lemma writesFrom_append (js ks : List ℕ) : c.writesFrom rid pos (js ++ ks) =
    c.writesFrom rid pos js ++ c.writesFrom rid (pos + js.length) ks := by
  induction js generalizing pos with
  | nil => rfl
  | cons j js ih =>
      rw [List.cons_append, writesFrom, ih, writesFrom, List.cons_append, List.length_cons,
        Nat.add_assoc pos 1, Nat.add_comm 1]

lemma weight_nonneg (k : ℕ) : 0 ≤ c.weight k := by
  rw [weight, List.getD_eq_getElem?_getD]
  cases hget : c.prob[edgeId c.data k]? with
  | none => exact le_refl 0
  | some p => exact c.prob_nonneg p (List.mem_of_getElem? hget)

/-! ## Addresses -/

/-- A row that is a seed, with addresses within 32 bits. -/
structure InRow (c : Call) (rid : ℕ) : Prop where
  fits : c.Fits
  mem : rid ∈ c.seeds

namespace InRow

variable (h : InRow c rid)

include h

lemma u32_rid : u32 rid = rid := by
  have hrows := h.fits.rows rid h.mem
  exact u32_eq (by omega)

lemma off_eq : c.off rid = c.csr.ptr rid := by rw [off, h.u32_rid]

lemma deg_eq : c.deg rid = c.csr.ptr (rid + 1) - c.csr.ptr rid := by
  have hedges := h.fits.edges rid h.mem
  rw [deg, h.off_eq, h.u32_rid, u32_eq (h.fits.rows rid h.mem), u32_eq (by omega)]

lemma edge_lt (hj : j < c.deg rid) : c.csr.ptr rid + j < 2 ^ 32 := by
  have hedges := h.fits.edges rid h.mem
  rw [h.deg_eq] at hj
  omega

lemma mem_rowEdges (hj : j < c.deg rid) : c.csr.ptr rid + j ∈ c.csr.rowEdges rid := by
  rw [h.deg_eq] at hj
  rw [Csr.rowEdges, Csr.mem_edgesBetween]
  omega

lemma u32_edge (hj : j < c.deg rid) : u32 (c.csr.ptr rid + j) = c.csr.ptr rid + j :=
  u32_eq (h.edge_lt hj)

lemma eidAt_eq (hj : j < c.deg rid) : c.eidAt rid j = edgeId c.data (c.csr.ptr rid + j) := by
  have hstart : u32 (c.csr.ptr rid) = c.csr.ptr rid := by
    apply u32_eq
    have hlt := h.edge_lt hj
    omega
  rw [eidAt, h.off_eq, hstart, h.u32_edge hj]

lemma gather_eq (ws : ℕ → ℚ) (hj : j < c.deg rid) :
    c.gather rid ws j = c.weight (c.csr.ptr rid + j) := by
  rw [gather, if_pos hj, h.eidAt_eq hj, u32_eq (h.fits.ids rid h.mem _ (h.mem_rowEdges hj)), weight]

lemma writePick_writes (hj : j < c.deg rid) (g : Gm) :
    (c.writePick rid pos (c.off rid + j) g).writes =
      g.writes ++ c.writesFrom rid pos [j] := by
  rw [writePick, h.off_eq, h.u32_edge hj]
  rfl

/-- The positive weights of the workspace are those of the row. -/
lemma positive_eq : c.positive rid =
    ((List.range (c.deg rid)).filter fun j => 0 < c.weight (c.csr.ptr rid + j)).map
      (c.csr.ptr rid + ·) := by
  rw [positive, Csr.rowEdges, Csr.edgesBetween, ← h.deg_eq, List.range'_eq_map_range, List.filter_map]
  rfl

end InRow

/-- The workspace holds the probabilities of the row. -/
def Gathered (c : Call) (rid : ℕ) (g : Gm) : Prop :=
  ∀ j < c.deg rid, g.probWs j = c.weight (c.csr.ptr rid + j)

lemma Gathered.filter_eq (hg : Gathered c rid g) :
    (List.range (c.deg rid)).filter (fun j => 0 < g.probWs j) =
      (List.range (c.deg rid)).filter fun j => 0 < c.weight (c.csr.ptr rid + j) := by
  apply List.filter_congr
  intro j hj
  rw [hg j (List.mem_range.1 hj)]

lemma Gathered.nnzPos_eq (hg : Gathered c rid g) (h : InRow c rid) :
    nnzPos (c.deg rid) g.probWs = (c.positive rid).length := by
  rw [nnzPos, hg.filter_eq, h.positive_eq, List.length_map]

/-- What a row leaves behind: the picks `js` have been written, and no mark is larger than `i + 1`. -/
structure Done (c : Call) (i rid offset : ℕ) (js : List ℕ) (g g' : Gm) : Prop where
  writes : g'.writes = g.writes ++ c.writesFrom rid offset js
  outPtr : g'.outPtr = g.outPtr
  lt : ∀ j ∈ js, j < c.deg rid
  marks : (∀ j, g.usedWs j ≤ i) → ∀ j, g'.usedWs j ≤ i + 1

/-! ## All edges -/

/-- The loop of `copyPositive` over the places `ks`. -/
lemma foldl_copy (h : InRow c rid) (ks : List ℕ) (hks : ∀ j ∈ ks, j < c.deg rid) (w : ℕ) (g : Gm) :
    ∃ w' g', ks.foldl (fun (x : ℕ × Gm) j =>
      if x.1 < picks ∧ 0 < x.2.probWs j then
        (x.1 + 1, c.writePick rid (offset + x.1) (c.off rid + j) x.2)
      else x) (w, g) = (w', g') ∧
      g'.writes = g.writes ++ c.writesFrom rid (offset + w)
        ((ks.filter fun j => 0 < g.probWs j).take (picks - w)) ∧
      g'.outPtr = g.outPtr ∧ g'.usedWs = g.usedWs := by
  induction ks generalizing w g with
  | nil =>
      refine ⟨w, g, rfl, ?_, rfl, rfl⟩
      rw [List.filter_nil, List.take_nil]
      exact (List.append_nil _).symm
  | cons j ks ih =>
      have hj := hks j List.mem_cons_self
      have hrest : ∀ j ∈ ks, j < c.deg rid := fun k hk => hks k (List.mem_cons_of_mem j hk)
      rw [List.foldl_cons]
      by_cases hpos : 0 < g.probWs j
      · have hfilter : (j :: ks).filter (fun j => 0 < g.probWs j) =
            j :: ks.filter fun j => 0 < g.probWs j :=
          List.filter_cons_of_pos (decide_eq_true hpos)
        rw [hfilter]
        by_cases hw : w < picks
        · rw [if_pos ⟨hw, hpos⟩]
          obtain ⟨w', g', heq, hwrites, hptr, hused⟩ :=
            ih hrest (w + 1) (c.writePick rid (offset + w) (c.off rid + j) g)
          refine ⟨w', g', heq, ?_, hptr, hused⟩
          have hsub : picks - w = picks - (w + 1) + 1 := by omega
          rw [hwrites, h.writePick_writes hj, hsub, List.take_succ_cons, List.append_assoc]
          rfl
        · rw [if_neg (fun hand => hw hand.1)]
          obtain ⟨w', g', heq, hwrites, hptr, hused⟩ := ih hrest w g
          refine ⟨w', g', heq, ?_, hptr, hused⟩
          rw [hwrites, Nat.sub_eq_zero_of_le (not_lt.1 hw), List.take_zero, List.take_zero]
      · have hfilter : (j :: ks).filter (fun j => 0 < g.probWs j) = ks.filter fun j => 0 < g.probWs j :=
          List.filter_cons_of_neg (by rwa [decide_eq_true_eq])
        rw [if_neg (fun hand => hpos hand.2), hfilter]
        exact ih hrest w g

/-- **All edges with positive probabilities.** -/
theorem copyPositive_spec (h : InRow c rid) (hg : Gathered c rid g)
    (hpicks : (c.positive rid).length = picks) (offset i : ℕ) :
    Done c i rid offset ((List.range (c.deg rid)).filter fun j => 0 < c.weight (c.csr.ptr rid + j)) g
      (c.copyPositive rid offset picks g) := by
  obtain ⟨w', g', heq, hwrites, hptr, hused⟩ := foldl_copy h (List.range (c.deg rid))
    (fun j hj => List.mem_range.1 hj) 0 g
  have hrun : c.copyPositive rid offset picks g = g' := by rw [copyPositive, heq]
  rw [h.positive_eq, List.length_map] at hpicks
  refine ⟨?_, ?_, fun j hj => List.mem_range.1 (List.mem_of_mem_filter hj), fun hmarks j => ?_⟩
  · rw [hrun, hwrites, hg.filter_eq, Nat.sub_zero, Nat.add_zero, List.take_of_length_le hpicks.le]
  · rw [hrun, hptr]
  · rw [hrun, hused]
    exact (hmarks j).trans (Nat.le_succ i)

/-! ## With replacement -/

/-- The sums of the probabilities of a row. -/
def sums (c : Call) (rid j : ℕ) : ℚ :=
  ((List.range (j + 1)).map fun k => c.weight (c.csr.ptr rid + k)).sum

/-- The place in the row that a draw of `unit` gives. -/
def searched (c : Call) (rid : ℕ) (unit : ℚ) : ℕ :=
  place (c.sums rid) (c.deg rid) (unit * c.sums rid (c.deg rid - 1))

lemma sums_succ (j : ℕ) :
    c.sums rid (j + 1) = c.sums rid j + c.weight (c.csr.ptr rid + (j + 1)) := by
  rw [sums, List.range_succ, List.map_append, List.sum_append, List.map_singleton, List.sum_singleton,
    sums]

lemma sums_mono {k : ℕ} (hjk : j ≤ k) : c.sums rid j ≤ c.sums rid k := by
  induction k, hjk using Nat.le_induction with
  | base => exact le_refl _
  | succ k _ ih =>
      rw [sums_succ]
      exact ih.trans (le_add_of_nonneg_right (weight_nonneg _))

lemma sums_nonneg (j : ℕ) : 0 ≤ c.sums rid j := by
  apply List.sum_nonneg
  intro w hw
  obtain ⟨k, -, rfl⟩ := List.mem_map.1 hw
  exact weight_nonneg _

/-- The binary search reads the stored sums in the row only. -/
lemma upperSearch_congr {f f' : ℕ → ℚ} {target : ℚ} {n fuel lo hi : ℕ} (heq : ∀ j < n, f j = f' j)
    (hhi : hi ≤ n) : upperSearch f target fuel lo hi = upperSearch f' target fuel lo hi := by
  induction fuel generalizing lo hi with
  | zero => rw [upperSearch, upperSearch]
  | succ fuel ih =>
      rw [upperSearch, upperSearch]
      by_cases hlt : lo < hi
      · rw [if_pos hlt, if_pos hlt, heq _ (by omega), ih hhi, ih (by omega)]
      · rw [if_neg hlt, if_neg hlt]

lemma searched_lt (hdeg : 0 < c.deg rid) (unit : ℚ) : searched c rid unit < c.deg rid := by
  rw [searched, place]
  split_ifs with hlt
  · exact hlt
  · omega

/-- A draw gives an edge with a positive probability, or the last edge. -/
lemma searched_pos {unit : ℚ} (hunit : 0 ≤ unit) (hlast : 0 < c.weight (c.csr.ptr rid + (c.deg rid - 1))) :
    0 < c.weight (c.csr.ptr rid + searched c rid unit) := by
  have htarget : 0 ≤ unit * c.sums rid (c.deg rid - 1) := mul_nonneg hunit (sums_nonneg _)
  obtain ⟨hlow, hhigh⟩ := upperSearch_all (f := c.sums rid) (n := c.deg rid)
    (unit * c.sums rid (c.deg rid - 1)) fun i j hij _ => sums_mono hij
  rw [searched, place]
  generalize upperSearch (c.sums rid) (unit * c.sums rid (c.deg rid - 1)) (c.deg rid) 0 (c.deg rid) = lo
    at *
  by_cases hlt : lo < c.deg rid
  · rw [if_pos hlt]
    have habove := hhigh lo (le_refl _) hlt
    cases lo with
    | zero =>
        have hzero : c.sums rid 0 = c.weight (c.csr.ptr rid + 0) := by
          rw [sums, List.range_one, List.map_singleton, List.sum_singleton]
        rw [hzero] at habove
        exact htarget.trans_lt habove
    | succ lo =>
        have hbelow := hlow lo (Nat.lt_succ_self lo)
        rw [sums_succ] at habove
        exact lt_of_add_lt_add_left ((add_zero _).trans_lt (hbelow.trans_lt habove))
  · rw [if_neg hlt]
    exact hlast

/-- **A draw of one** gives the last edge. -/
lemma searched_one (hdeg : 0 < c.deg rid) : searched c rid 1 = c.deg rid - 1 := by
  obtain ⟨-, hhigh⟩ := upperSearch_all (f := c.sums rid) (n := c.deg rid)
    (1 * c.sums rid (c.deg rid - 1)) fun i j hij _ => sums_mono hij
  rw [searched, place]
  generalize upperSearch (c.sums rid) (1 * c.sums rid (c.deg rid - 1)) (c.deg rid) 0 (c.deg rid) = lo
    at *
  apply if_neg
  intro hlt
  have habove := hhigh (c.deg rid - 1) (by omega) (by omega)
  rw [one_mul] at habove
  exact lt_irrefl _ habove

/-- **Draws with replacement.** -/
theorem drawReplace_spec (h : InRow c rid) (hg : Gathered c rid g) (hdeg : 0 < c.deg rid)
    (r : Draws) (i offset picks : ℕ) :
    Done c i rid offset ((List.range picks).map fun p => searched c rid (r.unit i p)) g
      (c.drawReplace r i rid offset picks g) := by
  have hsums : ∀ j < c.deg rid, (sumUp (c.deg rid) g).cdfWs j = c.sums rid j := by
    intro j hj
    show (if j < c.deg rid then ((List.range (j + 1)).map g.probWs).sum else g.cdfWs j) = _
    rw [if_pos hj, sums]
    congr 1
    apply List.map_congr_left
    intro k hk
    exact hg k (by have := List.mem_range.1 hk; omega)
  have htotal : ((List.range (c.deg rid)).map (sumUp (c.deg rid) g).probWs).sum =
      c.sums rid (c.deg rid - 1) := by
    rw [sums, Nat.sub_add_cancel hdeg]
    congr 1
    apply List.map_congr_left
    intro k hk
    exact hg k (List.mem_range.1 hk)
  have hrun : (c.drawReplace r i rid offset picks g).writes =
        g.writes ++ c.writesFrom rid offset ((List.range picks).map fun p => searched c rid (r.unit i p)) ∧
      (c.drawReplace r i rid offset picks g).outPtr = g.outPtr ∧
      (c.drawReplace r i rid offset picks g).usedWs = g.usedWs ∧
      (c.drawReplace r i rid offset picks g).cdfWs = (sumUp (c.deg rid) g).cdfWs := by
    rw [drawReplace, htotal]
    induction picks with
    | zero => exact ⟨(List.append_nil _).symm, rfl, rfl, rfl⟩
    | succ picks ih =>
        obtain ⟨hwrites, hptr, hused, hcdf⟩ := ih
        rw [List.range_succ, List.foldl_append, List.foldl_cons, List.foldl_nil, List.map_append,
          writesFrom_append, List.length_map, List.length_range, List.map_singleton]
        generalize hlo : (List.range picks).foldl _ _ = g' at *
        have hsearch : place g'.cdfWs (c.deg rid) (r.unit i picks * c.sums rid (c.deg rid - 1)) =
            searched c rid (r.unit i picks) := by
          rw [hcdf, place, upperSearch_congr hsums (le_refl _), searched, place]
        rw [hsearch]
        refine ⟨?_, hptr, hused, hcdf⟩
        rw [h.writePick_writes (searched_lt hdeg _), hwrites, List.append_assoc]
  obtain ⟨hwrites, hptr, hused, -⟩ := hrun
  refine ⟨hwrites, hptr, fun j hj => ?_, fun hmarks j => ?_⟩
  · obtain ⟨p, -, rfl⟩ := List.mem_map.1 hj
    exact searched_lt hdeg _
  · rw [hused]
    exact (hmarks j).trans (Nat.le_succ i)

/-! ## Without replacement -/

/-- The places that are not marked. -/
def free (c : Call) (rid mark : ℕ) (g : Gm) : List ℕ :=
  (List.range (c.deg rid)).filter fun j => g.usedWs j ≠ mark

/-- The places that can be picked. -/
def usable (c : Call) (rid mark : ℕ) (g : Gm) : List ℕ :=
  (c.free rid mark g).filter fun j => 0 < g.probWs j

lemma mem_usable : j ∈ c.usable rid mark g ↔
    j < c.deg rid ∧ g.usedWs j ≠ mark ∧ 0 < g.probWs j := by
  rw [usable, free, List.mem_filter, List.mem_filter, List.mem_range, decide_eq_true_eq,
    decide_eq_true_eq, and_assoc]

lemma scan_usable {target running : ℚ} (hks : ∀ j ∈ ks, j < c.deg rid)
    (h : scan g mark target ks running = some j) : j ∈ c.usable rid mark g := by
  induction ks generalizing running with
  | nil => cases h
  | cons k ks ih =>
      have hrest : ∀ j ∈ ks, j < c.deg rid := fun j hj => hks j (List.mem_cons_of_mem k hj)
      rw [scan] at h
      by_cases hmark : g.usedWs k = mark
      · rw [if_pos hmark] at h
        exact ih hrest h
      · rw [if_neg hmark] at h
        by_cases hzero : g.probWs k ≤ 0
        · rw [if_pos hzero] at h
          exact ih hrest h
        · rw [if_neg hzero] at h
          by_cases hlt : target < running + g.probWs k
          · rw [if_pos hlt, Option.some_inj] at h
            subst h
            exact mem_usable.2 ⟨hks k List.mem_cons_self, hmark, not_le.1 hzero⟩
          · rw [if_neg hlt] at h
            exact ih hrest h

/-- What is picked is usable, and something is picked while there is something usable. -/
lemma exists_pick (target : ℚ) (hne : c.usable rid mark g ≠ []) :
    ∃ j ∈ c.usable rid mark g, (scan g mark target (List.range (c.deg rid)) 0).or
      (firstUsable g mark (c.deg rid)) = some j := by
  cases hscan : scan g mark target (List.range (c.deg rid)) 0 with
  | some j => exact ⟨j, scan_usable (fun k hk => List.mem_range.1 hk) hscan, Option.some_or⟩
  | none =>
      rw [Option.none_or]
      obtain ⟨k, hk⟩ := List.exists_mem_of_ne_nil _ hne
      obtain ⟨hlt, hmark, hpos⟩ := mem_usable.1 hk
      cases hfirst : firstUsable g mark (c.deg rid) with
      | none =>
          rw [firstUsable, List.find?_eq_none] at hfirst
          exact absurd (decide_eq_true ⟨hmark, hpos⟩) (hfirst k (List.mem_range.2 hlt))
      | some j =>
          have hj := List.find?_some hfirst
          rw [decide_eq_true_eq] at hj
          refine ⟨j, mem_usable.2 ⟨?_, hj.1, hj.2⟩, rfl⟩
          exact List.mem_range.1 (List.mem_of_find?_eq_some hfirst)

/-- The state after a pick. -/
def marked (c : Call) (rid mark pos j : ℕ) (g : Gm) : Gm :=
  c.writePick rid pos (c.off rid + j) { g with usedWs := Function.update g.usedWs j mark }

lemma free_marked :
    c.free rid mark (c.marked rid mark pos j g) = (c.free rid mark g).erase j := by
  have hnodup : (c.free rid mark g).Nodup := List.nodup_range.filter _
  rw [hnodup.erase_eq_filter, free, free, List.filter_filter]
  apply List.filter_congr
  intro k _
  show decide (Function.update g.usedWs j mark k ≠ mark) = _
  by_cases hkj : k = j
  · rw [hkj, Function.update_self]
    simp
  · rw [Function.update_of_ne hkj]
    simp [hkj]

lemma usable_marked :
    c.usable rid mark (c.marked rid mark pos j g) = (c.usable rid mark g).erase j := by
  have hnodup : (c.free rid mark g).Nodup := List.nodup_range.filter _
  rw [usable, free_marked, usable, (hnodup.filter _).erase_eq_filter,
    hnodup.erase_eq_filter, List.filter_comm]
  rfl

/-- What remains to be drawn from. -/
def remaining (c : Call) (rid mark : ℕ) (g : Gm) : ℚ := ((c.free rid mark g).map g.probWs).sum

lemma remaining_pos (hg : Gathered c rid g) (hne : c.usable rid mark g ≠ []) :
    0 < c.remaining rid mark g := by
  obtain ⟨k, hk⟩ := List.exists_mem_of_ne_nil _ hne
  have hfree : k ∈ c.free rid mark g := List.mem_of_mem_filter hk
  rw [remaining, sum_pos_iff_exists]
  · exact ⟨g.probWs k, List.mem_map_of_mem hfree, (mem_usable.1 hk).2.2⟩
  · intro w hw
    obtain ⟨j, hj, rfl⟩ := List.mem_map.1 hw
    rw [hg j (List.mem_range.1 (List.mem_of_mem_filter hj))]
    exact weight_nonneg _

lemma remaining_marked (hj : j ∈ c.usable rid mark g) :
    c.remaining rid mark (c.marked rid mark pos j g) = c.remaining rid mark g - g.probWs j := by
  have hfree : j ∈ c.free rid mark g := List.mem_of_mem_filter hj
  rw [remaining, free_marked, remaining, ← List.sum_map_erase g.probWs hfree, add_sub_cancel_left]
  rfl

/-- The loop without replacement, with as many usable places as there are picks left. -/
lemma drawDistinct_loop (h : InRow c rid) (hg : Gathered c rid g) (hmark : u32 (i + 1) = mark)
    (hleft : left ≤ (c.usable rid mark g).length) :
    ∃ js : List ℕ, js.length = left ∧ js.Nodup ∧ (∀ j ∈ js, j ∈ c.usable rid mark g) ∧
      (c.drawDistinct r i rid offset left p (c.remaining rid mark g) g).writes =
        g.writes ++ c.writesFrom rid (offset + p) js ∧
      (c.drawDistinct r i rid offset left p (c.remaining rid mark g) g).outPtr = g.outPtr ∧
      ∀ j, (c.drawDistinct r i rid offset left p (c.remaining rid mark g) g).usedWs j = g.usedWs j ∨
        (c.drawDistinct r i rid offset left p (c.remaining rid mark g) g).usedWs j = mark := by
  induction left generalizing p g with
  | zero =>
      exact ⟨[], rfl, List.nodup_nil, fun j hj => absurd hj List.not_mem_nil, (List.append_nil _).symm,
        rfl, fun _ => Or.inl rfl⟩
  | succ left ih =>
      have hne : c.usable rid mark g ≠ [] := by
        intro hnil
        rw [hnil] at hleft
        exact absurd hleft (Nat.not_succ_le_zero left)
      obtain ⟨j, hj, hpick⟩ :=
        exists_pick (r.unit i p * c.remaining rid mark g) hne
      have hrun : c.drawDistinct r i rid offset (left + 1) p (c.remaining rid mark g) g =
          c.drawDistinct r i rid offset left (p + 1)
            (c.remaining rid mark (c.marked rid mark (offset + p) j g))
            (c.marked rid mark (offset + p) j g) := by
        rw [drawDistinct, if_neg (not_le.2 (remaining_pos hg hne)), hmark, hpick, remaining_marked hj]
        rfl
      have hlen : left ≤ (c.usable rid mark (c.marked rid mark (offset + p) j g)).length := by
        rw [usable_marked, List.length_erase_of_mem hj]
        omega
      obtain ⟨js, hjs, hnodup, hmem, hwrites, hptr, hused⟩ :=
        ih (p := p + 1) (g := c.marked rid mark (offset + p) j g) hg hlen
      rw [usable_marked] at hmem
      have hnodups : (c.usable rid mark g).Nodup := (List.nodup_range.filter _).filter _
      refine ⟨j :: js, by rw [List.length_cons, hjs], ?_, ?_, ?_, ?_, fun k => ?_⟩
      · refine List.nodup_cons.2 ⟨fun hin => ?_, hnodup⟩
        exact hnodups.not_mem_erase (hmem j hin)
      · intro k hk
        rcases List.mem_cons.1 hk with rfl | hk
        · exact hj
        · exact List.mem_of_mem_erase (hmem k hk)
      · have hjlt := (mem_usable.1 hj).1
        rw [hrun, hwrites, marked, h.writePick_writes hjlt, List.append_assoc]
        rfl
      · rw [hrun, hptr]
        rfl
      · rw [hrun]
        rcases hused k with hk | hk
        · rw [hk]
          show Function.update g.usedWs j mark k = _ ∨ Function.update g.usedWs j mark k = _
          by_cases hkj : k = j
          · rw [hkj, Function.update_self]
            exact Or.inr rfl
          · rw [Function.update_of_ne hkj]
            exact Or.inl rfl
        · exact Or.inr hk

/-- **Draws without replacement** are distinct and have positive probabilities, whatever is drawn. -/
theorem drawDistinct_spec (h : InRow c rid) (hg : Gathered c rid g) (hi : i < c.seeds.length)
    (hmarks : ∀ j, g.usedWs j ≤ i) (hpicks : picks ≤ (c.positive rid).length) (r : Draws) (offset : ℕ) :
    ∃ js : List ℕ, js.length = picks ∧ js.Nodup ∧ (∀ j ∈ js, 0 < c.weight (c.csr.ptr rid + j)) ∧
      Done c i rid offset js g (c.drawDistinct r i rid offset picks 0
        ((List.range (c.deg rid)).map g.probWs).sum g) := by
  have hmark : u32 (i + 1) = i + 1 := by
    have hseeds := h.fits.seeds
    exact u32_eq (by omega)
  have hfree : c.free rid (i + 1) g = List.range (c.deg rid) := by
    rw [free, List.filter_eq_self]
    intro j _
    rw [decide_eq_true_eq]
    exact ((hmarks j).trans_lt (Nat.lt_succ_self i)).ne
  have hlen : picks ≤ (c.usable rid (i + 1) g).length := by
    rw [usable, hfree, hg.filter_eq]
    rw [h.positive_eq, List.length_map] at hpicks
    exact hpicks
  obtain ⟨js, hjs, hnodup, hmem, hwrites, hptr, hused⟩ :=
    drawDistinct_loop (r := r) (p := 0) h hg hmark hlen
  rw [remaining, hfree] at hwrites hptr hused
  refine ⟨js, hjs, hnodup, fun j hj => ?_, hwrites, hptr, fun j hj => (mem_usable.1 (hmem j hj)).1,
    fun _ j => ?_⟩
  · obtain ⟨hlt, -, hpos⟩ := mem_usable.1 (hmem j hj)
    rw [hg j hlt] at hpos
    exact hpos
  · rcases hused j with hk | hk
    · rw [hk]
      exact (hmarks j).trans (Nat.le_succ i)
    · rw [hk]

end DglAscend.Ascend.Weighted.Call
