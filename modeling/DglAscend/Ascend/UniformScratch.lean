import DglAscend.Ascend.BalancedPartitions
import DglAscend.Ascend.UniformBlocks
import DglAscend.Ascend.UniformSegments

/-!
# The scratch of the uniform samplers

`pick_buf_` and the staging buffers hold `window_elems_` elements.  The plain launcher does not look
at the fanout, and the fused launcher does so only for sampling with replacement; here is exactly when
the kernels write past the buffers.
-/

namespace DglAscend.Ascend

open Aten

/-! ## What is written -/

variable {j : ℕ}

namespace Ub

variable {u v w : Ub} {n m n' m' : ℕ}

/-- All writes are to the first `size` places. -/
structure Within (size : ℕ) (u : Ub) : Prop where
  picks : ∀ j ∈ u.pickWrites, j < size
  stage : ∀ j ∈ u.stageWrites, j < size

/-- What has been written since: to the first `n` places of `pick_buf_` and to the first `m` places of
the staging buffers. -/
structure Writes (n m : ℕ) (u v : Ub) : Prop where
  kept : u.pickWrites ⊆ v.pickWrites
  picks : ∀ j ∈ v.pickWrites, j ∈ u.pickWrites ∨ j < n
  stage : ∀ j ∈ v.stageWrites, j ∈ u.stageWrites ∨ j < m

lemma Writes.refl (u : Ub) : Writes n m u u := ⟨List.Subset.refl _, fun _ => Or.inl, fun _ => Or.inl⟩

lemma Writes.trans (h : Writes n m u v) (h' : Writes n m v w) : Writes n m u w where
  kept := List.Subset.trans h.kept h'.kept
  picks := by
    intro j hj
    rcases h'.picks j hj with hj | hj
    · exact h.picks j hj
    · exact Or.inr hj
  stage := by
    intro j hj
    rcases h'.stage j hj with hj | hj
    · exact h.stage j hj
    · exact Or.inr hj

lemma Writes.mono (h : Writes n m u v) (hn : n ≤ n') (hm : m ≤ m') : Writes n' m' u v where
  kept := h.kept
  picks j hj := (h.picks j hj).imp_right fun hlt => hlt.trans_le hn
  stage j hj := (h.stage j hj).imp_right fun hlt => hlt.trans_le hm

lemma Writes.within {size : ℕ} (h : Writes n m u v) (hu : u.Within size) (hn : n ≤ size)
    (hm : m ≤ size) : v.Within size where
  picks j hj := (h.picks j hj).elim (hu.picks j) fun hlt => hlt.trans_le hn
  stage j hj := (h.stage j hj).elim (hu.stage j) fun hlt => hlt.trans_le hm

lemma writes_setPick (u : Ub) (x : ℕ) (hj : j < n) : Writes n m u (u.setPick j x) where
  kept := List.subset_append_left _ _
  picks := by
    intro i hi
    rcases List.mem_append.1 hi with hi | hi
    · exact Or.inl hi
    · rw [List.mem_singleton] at hi
      exact Or.inr (hi ▸ hj)
  stage := fun _ => Or.inl

lemma writes_stage (u : Ub) (e : Pick) (hj : j < m) : Writes n m u (u.stage j e) where
  kept := List.Subset.refl _
  picks := fun _ => Or.inl
  stage := by
    intro i hi
    rcases List.mem_append.1 hi with hi | hi
    · exact Or.inl hi
    · rw [List.mem_singleton] at hi
      exact Or.inr (hi ▸ hj)

lemma writes_copyOut (u : Ub) (outPos count : ℕ) : Writes n m u (u.copyOut outPos count) :=
  ⟨List.Subset.refl _, fun _ => Or.inl, fun _ => Or.inl⟩

lemma writes_rand (u : Ub) (k : ℕ) : Writes n m u (u.rand k).2 :=
  ⟨List.Subset.refl _, fun _ => Or.inl, fun _ => Or.inl⟩

/-- Steps that write in the first places do so together. -/
lemma writes_foldl {α : Type} {step : Ub → α → Ub} (xs : List α)
    (h : ∀ u, ∀ x ∈ xs, Writes n m u (step u x)) (u : Ub) : Writes n m u (xs.foldl step u) := by
  induction xs generalizing u with
  | nil => exact Writes.refl u
  | cons x xs ih =>
      exact (h u x List.mem_cons_self).trans
        (ih (fun u y hy => h u y (List.mem_cons_of_mem x hy)) _)

end Ub

namespace Sampler

open Ub

variable {s : Sampler} {a : RowTask} {n m : ℕ}

lemma seedPicks_writes (a : RowTask) (u : Ub) : Writes a.numPicks m u (seedPicks a u) :=
  writes_foldl _ (fun u _ hj => writes_setPick u _ (List.mem_range.1 hj)) u

lemma drawPicks_writes (a : RowTask) (u : Ub) : Writes a.numPicks m u (drawPicks a u) :=
  writes_foldl _ (fun u _ hj =>
    (writes_rand u a.deg).trans (writes_setPick _ _ (List.mem_range.1 hj))) u

lemma offer_writes (a : RowTask) (u : Ub) (k : ℕ) : Writes a.numPicks m u (offer a u k) := by
  rw [offer]
  split_ifs with hlt
  · exact (writes_rand u (k + 1)).trans (writes_setPick _ _ hlt)
  · exact writes_rand u (k + 1)

lemma offers_writes (a : RowTask) (u : Ub) (ks : List ℕ) :
    Writes a.numPicks m u (ks.foldl (offer a) u) :=
  writes_foldl _ (fun u k _ => offer_writes a u k) u

/-- Every place up to the number of picks is written. -/
lemma mem_foldl_setPick (f : Ub → ℕ → ℕ) (g : Ub → Ub) (hg : ∀ u, (g u).pickWrites = u.pickWrites)
    (k : ℕ) (u : Ub) (hj : j < k) :
    j ∈ ((List.range k).foldl (fun u j => (g u).setPick j (f u j)) u).pickWrites := by
  induction k with
  | zero => exact absurd hj (Nat.not_lt_zero j)
  | succ k ih =>
      rw [List.range_succ, List.foldl_append, List.foldl_cons, List.foldl_nil]
      show j ∈ (g _).pickWrites ++ [k]
      rw [hg, List.mem_append, List.mem_singleton]
      by_cases hjk : j = k
      · exact Or.inr hjk
      · exact Or.inl (ih (by omega))

lemma mem_seedPicks (a : RowTask) (u : Ub) (hj : j < a.numPicks) : j ∈ (seedPicks a u).pickWrites :=
  mem_foldl_setPick (fun _ j => j) id (fun _ => rfl) _ u hj

lemma mem_drawPicks (a : RowTask) (u : Ub) (hj : j < a.numPicks) : j ∈ (drawPicks a u).pickWrites :=
  mem_foldl_setPick (fun u _ => (u.rand a.deg).1) (fun u => (u.rand a.deg).2) (fun _ => rfl) _ u hj

lemma choose_writes (s : Sampler) (a : RowTask) (u : Ub) :
    Writes a.numPicks m u (s.choose a u) := by
  rw [choose]
  split_ifs
  · exact seedPicks_writes a u
  · exact drawPicks_writes a u
  · exact (seedPicks_writes a u).trans (offers_writes a _ _)

lemma mem_choose (s : Sampler) (a : RowTask) (u : Ub) (hj : j < a.numPicks) :
    j ∈ (s.choose a u).pickWrites := by
  rw [choose]
  split_ifs
  · exact mem_seedPicks a u hj
  · exact mem_drawPicks a u hj
  · exact (offers_writes (m := 0) a (seedPicks a u) _).kept (mem_seedPicks a u hj)

lemma stage_writes (s : Sampler) (a : RowTask) (u : Ub) :
    Writes n a.numPicks (s.choose a u) (s.sampleRowThroughUb a u) :=
  (writes_foldl _ (fun u _ hj => writes_stage u _ (List.mem_range.1 hj)) (s.choose a u)).trans
    (writes_copyOut _ _ _)

lemma sampleRowThroughUb_writes (s : Sampler) (a : RowTask) (u : Ub) :
    Writes a.numPicks a.numPicks u (s.sampleRowThroughUb a u) :=
  (choose_writes s a u).trans (stage_writes s a u)

/-! ## Windows -/

lemma chunkAt_le (s : Sampler) (a : RowTask) (base : ℕ) : s.chunkAt a base ≤ s.windowElems := by
  rw [chunkAt]
  split_ifs with hlt
  · exact hlt.le
  · exact le_refl _

lemma emitWindow_all_writes (outPos base chunk : ℕ) (u : Ub) :
    Writes n chunk u (s.emitWindow a outPos base chunk true u).2 := by
  set u' := (List.range chunk).foldl (fun u j => u.stage j (a.row,
    (window s.csr.indices (a.off + base) chunk).getD j 0,
    if s.csr.hasData then (window s.csr.data (a.off + base) chunk).getD j 0 else a.off + base + j))
    u with hu'
  have hfold : Writes n chunk u u' :=
    writes_foldl _ (fun u _ hj => writes_stage u _ (List.mem_range.1 hj)) u
  have heq : (s.emitWindow a outPos base chunk true u).2 =
      if 0 < chunk then u'.copyOut outPos chunk else u' := rfl
  rw [heq]
  by_cases hpos : 0 < chunk
  · rw [if_pos hpos]
    exact hfold.trans (writes_copyOut _ _ _)
  · rw [if_neg hpos]
    exact hfold

/-- A window stages no more edges than there are picks. -/
lemma emitWindow_picks_writes (outPos base chunk : ℕ) (u : Ub) :
    Writes n a.numPicks u (s.emitWindow a outPos base chunk false u).2 := by
  set step : ℕ × Ub → ℕ → ℕ × Ub := fun eu p =>
    if base ≤ eu.2.picks p ∧ eu.2.picks p < base + chunk then
      (eu.1 + 1, eu.2.stage eu.1 (a.row,
        (window s.csr.indices (a.off + base) chunk).getD (eu.2.picks p - base) 0,
        if s.csr.hasData then
          (window s.csr.data (a.off + base) chunk).getD (eu.2.picks p - base) 0
        else a.off + eu.2.picks p))
    else eu with hstep
  have hscan (k : ℕ) : ((List.range k).foldl step (0, u)).1 ≤ k ∧
      Writes n k u ((List.range k).foldl step (0, u)).2 := by
    induction k with
    | zero => exact ⟨le_refl 0, Writes.refl u⟩
    | succ k ih =>
        obtain ⟨hle, hwrites⟩ := ih
        rw [List.range_succ, List.foldl_append, List.foldl_cons, List.foldl_nil]
        set r := (List.range k).foldl step (0, u) with hr
        have hlater := hwrites.mono (le_refl n) (Nat.le_succ k)
        by_cases hin : base ≤ r.2.picks k ∧ r.2.picks k < base + chunk
        · have heq : step r k = _ := if_pos hin
          rw [heq]
          exact ⟨Nat.succ_le_succ hle, hlater.trans (writes_stage _ _ (Nat.lt_succ_of_le hle))⟩
        · have heq : step r k = r := if_neg hin
          rw [heq]
          exact ⟨hle.trans (Nat.le_succ k), hlater⟩
  set r := (List.range a.numPicks).foldl step (0, u) with hr
  have heq : (s.emitWindow a outPos base chunk false u).2 =
      if 0 < r.1 then r.2.copyOut outPos r.1 else r.2 := rfl
  rw [heq]
  by_cases hpos : 0 < r.1
  · rw [if_pos hpos]
    exact (hscan a.numPicks).2.trans (writes_copyOut _ _ _)
  · rw [if_neg hpos]
    exact (hscan a.numPicks).2

lemma emitPicks_writes (fuel : ℕ) (u : Ub) :
    Writes n a.numPicks u (reached (s.emitPicks a fuel u)) := by
  rw [emitPicks, reached_project]
  apply whileLoop_inv (I := fun x : ℕ × ℕ × ℕ × Ub => Writes n a.numPicks u x.2.2.2) (Writes.refl u)
  intro x hx _
  exact hx.trans (emitWindow_picks_writes _ _ _ _)

/-! ## Rows -/

lemma sampleRow_writes (hle : a.deg ≤ s.windowElems ∨ s.takesAll a = false → a.numPicks ≤ n)
    (hwin : s.windowElems ≤ n) (fuel : ℕ) (u : Ub) :
    Writes n n u (reached (s.sampleRow a fuel u)) := by
  rw [sampleRow]
  by_cases hsmall : a.deg ≤ s.windowElems
  · rw [if_pos hsmall]
    have hn := hle (Or.inl hsmall)
    exact (sampleRowThroughUb_writes s a u).mono hn hn
  · rw [if_neg hsmall, sampleRowSegmented]
    by_cases hall : s.takesAll a = true
    · rw [if_pos hall, reached_project]
      apply whileLoop_inv (I := fun x : ℕ × ℕ × Ub => Writes n n u x.2.2) (Writes.refl u)
      intro x hx _
      have hchunk := (chunkAt_le s a x.1).trans hwin
      exact hx.trans ((emitWindow_all_writes _ _ _ _).mono (le_refl n) hchunk)
    · have hn := hle (Or.inr (Bool.eq_false_of_not_eq_true hall))
      rw [if_neg hall]
      by_cases hrep : s.replace = true
      · rw [if_pos hrep]
        exact ((drawPicks_writes a u).trans (emitPicks_writes fuel _)).mono hn hn
      · rw [if_neg hrep]
        have hloop : Writes a.numPicks a.numPicks u (reached (project (fun x : ℕ × ℕ × Ub => x.2.2)
            (whileLoop (fun x => decide (x.1 < a.deg)) (s.offerStep a) fuel
              (0, a.numPicks, seedPicks a u)))) := by
          rw [reached_project]
          apply whileLoop_inv (I := fun x : ℕ × ℕ × Ub => Writes a.numPicks a.numPicks u x.2.2)
            (seedPicks_writes a u)
          intro x hx _
          rw [offerStep]
          split_ifs
          · exact hx.trans (offers_writes a _ _)
          · exact hx
        cases hoffers : project (fun x : ℕ × ℕ × Ub => x.2.2)
            (whileLoop (fun x => decide (x.1 < a.deg)) (s.offerStep a) fuel
              (0, a.numPicks, seedPicks a u)) with
        | error v =>
            rw [hoffers] at hloop
            exact hloop.mono hn hn
        | ok v =>
            rw [hoffers] at hloop
            exact (hloop.trans (emitPicks_writes fuel v)).mono hn hn

/-- What a row that fits writes is within the buffers. -/
lemma sampleRow_within (h : Counts s a) (hfits : s.Fits a) (hu : u.Within s.windowElems)
    (fuel : ℕ) : (reached (s.sampleRow a fuel u)).Within s.windowElems := by
  have hwrites : Writes s.windowElems s.windowElems u (reached (s.sampleRow a fuel u)) := by
    apply sampleRow_writes _ (le_refl _)
    rintro (hsmall | hnot)
    · rcases hfits with hall | hle
      · rw [h.takesAll hall]
        exact hsmall
      · exact hle
    · rcases hfits with hall | hle
      · rw [hnot] at hall
        cases hall
      · exact hle
  exact hwrites.within hu (le_refl _) (le_refl _)

lemma sampleRow_kept (s : Sampler) (a : RowTask) (fuel : ℕ) (u : Ub) :
    u.pickWrites ⊆ (reached (s.sampleRow a fuel u)).pickWrites :=
  (sampleRow_writes (fun _ => le_max_left a.numPicks s.windowElems) (le_max_right _ _) fuel u).kept

/-- A row that does not fit writes all its picks, however far it gets. -/
lemma mem_sampleRow (hfits : ¬ s.Fits a) (fuel : ℕ) (u : Ub) (hj : j < a.numPicks) :
    j ∈ (reached (s.sampleRow a fuel u)).pickWrites := by
  rw [Fits, not_or] at hfits
  rw [sampleRow]
  by_cases hsmall : a.deg ≤ s.windowElems
  · rw [if_pos hsmall]
    exact (stage_writes (n := 0) s a u).kept (mem_choose s a u hj)
  · rw [if_neg hsmall, sampleRowSegmented, if_neg hfits.1]
    by_cases hrep : s.replace = true
    · rw [if_pos hrep]
      exact (emitPicks_writes (n := 0) fuel _).kept (mem_drawPicks a u hj)
    · rw [if_neg hrep]
      have hloop : j ∈ (reached (project (fun x : ℕ × ℕ × Ub => x.2.2)
          (whileLoop (fun x => decide (x.1 < a.deg)) (s.offerStep a) fuel
            (0, a.numPicks, seedPicks a u)))).pickWrites := by
        rw [reached_project]
        apply whileLoop_inv (I := fun x : ℕ × ℕ × Ub => j ∈ x.2.2.pickWrites) (mem_seedPicks a u hj)
        intro x hx _
        rw [offerStep]
        split_ifs
        · exact (offers_writes (m := 0) a x.2.2 _).kept hx
        · exact hx
      cases hoffers : project (fun x : ℕ × ℕ × Ub => x.2.2)
          (whileLoop (fun x => decide (x.1 < a.deg)) (s.offerStep a) fuel
            (0, a.numPicks, seedPicks a u)) with
      | error v =>
          rw [hoffers] at hloop
          exact hloop
      | ok v =>
          rw [hoffers] at hloop
          exact (emitPicks_writes (n := 0) fuel v).kept hloop

end Sampler

end DglAscend.Ascend
