import DglAscend.Graphbolt.Cache.CachedRows

/-!
# Overlapping cached reads (`impl/cpu_cached_feature.py`, `read_async` of host ids)

A `Pipeline` is one `read_async`, `Pipeline.advance` its next stage.  The stages of several
pipelines interleave in any order over one feature cache; `Interleaved` is what they reach.

Every pipeline holds the pins of the rows it has found until it has copied them, and the writes
of the rows it has missed until it has filled them.  The rows of a cache are coherent with what all
pipelines hold together, and no pipeline disturbs what another one holds.
-/

namespace DglAscend.Graphbolt

open PartitionedCachePolicy

/-- A `read_async`, by the stage that it has completed last. -/
inductive Pipeline (V : Type) where
  | issued (ids : KeyTensor)
  | looked (ids : KeyTensor) (r : PartitionedQueryAndReplaceResult)
  | copied (ids : KeyTensor) (r : PartitionedQueryAndReplaceResult) (values : List (Option V))
  | readingDone (ids : KeyTensor) (r : PartitionedQueryAndReplaceResult)
      (values : List (Option V))
  | fetched (ids : KeyTensor) (r : PartitionedQueryAndReplaceResult) (values : List (Option V))
      (missingValues : List V)
  | written (ids : KeyTensor) (r : PartitionedQueryAndReplaceResult) (values : List (Option V))
  | returned (ids : KeyTensor) (values : List (Option V))

/-- `found_cnt` -/
def foundCnt (ids : KeyTensor) (r : PartitionedQueryAndReplaceResult) : ℕ :=
  ids.keys.length - r.missingKeys.length

namespace Pipeline

variable {kind : PolicyKind} {V : Type}

/-- The next stage of a pipeline. -/
def advance (assign : PartAssignment) (fuel : ℕ) (fallback : ℤ → V) (offset : ℤ)
    (c : CpuFeatureCache kind V) :
    Pipeline V → Outcome CacheError (CpuFeatureCache kind V) (Pipeline V)
  | .issued ids =>
    (c.onPolicy fun s => s.queryAndReplace assign fuel ids offset).bind fun r c =>
      .ok (.looked ids r)
        { c with
          totalQueries := c.totalQueries + ids.keys.length
          totalMiss := c.totalMiss + r.missingKeys.length }
  | .looked ids r =>
    (Outcome.ofExcept (c.cache.query (r.positions.take (foundCnt ids r)) r.indices
      ids.keys.length) c).bind fun values c => .ok (.copied ids r values) c
  | .copied ids r values =>
    (c.onPolicy fun s => s.readingCompleted (r.pointers.take (foundCnt ids r))
      r.foundOffsets).bind fun _ c => .ok (.readingDone ids r values) c
  | .readingDone ids r values => .ok (.fetched ids r values (r.missingKeys.map fallback)) c
  | .fetched ids r values missingValues =>
    (Outcome.ofExcept (indexPut values (r.indices.drop (foundCnt ids r)) missingValues) c).bind
      fun values c =>
    (Outcome.ofExcept (c.cache.replace (r.positions.drop (foundCnt ids r)) missingValues) c).bind
      fun cache c => .ok (.written ids r values) { c with cache := cache }
  | .written ids r values =>
    (c.onPolicy fun s => s.writingCompleted (r.pointers.drop (foundCnt ids r))
      r.missingOffsets).bind fun _ c => .ok (.returned ids values) c
  | .returned ids values => .ok (.returned ids values) c

/-! ## What a pipeline holds -/

/-- The pins of policy `p` that the pipeline has not handed back. -/
def reads (n : ℕ) (p : ℕ) : Pipeline V → Multiset ℕ
  | .looked ids r | .copied ids r _ =>
    pointersOf (completedBy n (r.pointers.take (foundCnt ids r)) r.foundOffsets p)
  | _ => 0

/-- The writes of policy `p` that the pipeline has not completed. -/
def writes (n : ℕ) (p : ℕ) : Pipeline V → Multiset ℕ
  | .looked ids r | .copied ids r _ | .readingDone ids r _ | .fetched ids r _ _
  | .written ids r _ =>
    pointersOf (completedBy n (r.pointers.drop (foundCnt ids r)) r.missingOffsets p)
  | _ => 0

end Pipeline

/-- The result `r` of a `QueryAndReplace` of `ids` lists the cells `cs` of `n` policies. -/
structure Batch (n : ℕ) (offset : ℤ) (ids : KeyTensor) (cs : List PartCells)
    (r : PartitionedQueryAndReplaceResult) : Prop where
  length_cells : cs.length = n
  result_eq : r = { queryAndReplaceTensors cs with
    missingKeys := (cs.flatMap PartCells.missed).map fun c => ids.keys.getD c.index 0 }
  indices_perm : ((allCells cs).map BatchCell.index).Perm (List.range ids.keys.length)
  id_eq : ∀ c ∈ allCells cs, idOf offset c.key = ids.keys.getD c.index 0

namespace Batch

variable {n : ℕ} {offset : ℤ} {ids : KeyTensor} {cs : List PartCells}
  {r : PartitionedQueryAndReplaceResult}

section

variable (h : Batch n offset ids cs r)
include h

lemma foundCnt_eq : foundCnt ids r = (cs.flatMap PartCells.found).length := by
  have hlen := h.indices_perm.length_eq
  simp only [List.length_map, List.length_range, allCells, List.length_append] at hlen
  rw [foundCnt, h.result_eq, List.length_map]
  omega

lemma positions_take : r.positions.take (foundCnt ids r) =
    (cs.flatMap PartCells.found).map BatchCell.position := by
  rw [h.foundCnt_eq, h.result_eq]
  exact take_allCells BatchCell.position

lemma positions_drop : r.positions.drop (foundCnt ids r) =
    (cs.flatMap PartCells.missed).map BatchCell.position := by
  rw [h.foundCnt_eq, h.result_eq]
  exact drop_allCells BatchCell.position

lemma indices_eq : r.indices =
    (allCells cs).map BatchCell.index := by
  rw [h.result_eq]
  rfl

lemma indices_drop : r.indices.drop (foundCnt ids r) =
    (cs.flatMap PartCells.missed).map BatchCell.index := by
  rw [h.foundCnt_eq, h.result_eq]
  exact drop_allCells BatchCell.index

lemma missingKeys_eq : r.missingKeys =
    (cs.flatMap PartCells.missed).map fun c => idOf offset c.key := by
  rw [h.result_eq]
  exact List.map_congr_left fun c hc => (h.id_eq c (List.mem_append_right _ hc)).symm

/-- Policy `p` is given back the pointers that it handed out for its reads. -/
lemma pins_eq {p : ℕ} (hp : p < n) :
    pointersOf (completedBy n (r.pointers.take (foundCnt ids r)) r.foundOffsets p) =
      pinsOf cs p := by
  have hpc : p < cs.length := h.length_cells.symm ▸ hp
  have hc := List.getElem?_eq_getElem hpc
  rw [h.foundCnt_eq, h.result_eq, pinsOf, List.getD_eq_getElem _ _ hpc, completedBy]
  simp only [queryAndReplaceTensors, take_allCells]
  split
  · rename_i hn
    obtain ⟨c, rfl⟩ := List.length_eq_one_iff.1 (h.length_cells.trans hn)
    obtain rfl : p = 0 := by omega
    simp
  · rw [nthSlice_found hc]

lemma reservations_eq {p : ℕ} (hp : p < n) :
    pointersOf (completedBy n (r.pointers.drop (foundCnt ids r)) r.missingOffsets p) =
      reservationsOf cs p := by
  have hpc : p < cs.length := h.length_cells.symm ▸ hp
  have hc := List.getElem?_eq_getElem hpc
  rw [h.foundCnt_eq, h.result_eq, reservationsOf, List.getD_eq_getElem _ _ hpc, completedBy]
  simp only [queryAndReplaceTensors, drop_allCells]
  split
  · rename_i hn
    obtain ⟨c, rfl⟩ := List.length_eq_one_iff.1 (h.length_cells.trans hn)
    obtain rfl : p = 0 := by omega
    simp
  · rw [nthSlice_missed hc]

end

end Batch

/-! ## The output rows -/

section Output

variable {V : Type} {found missed : List BatchCell} {n : ℕ} {row : BatchCell → V}
  {cells : List BatchCell}

lemma eq_of_index (hperm : (cells.map BatchCell.index).Perm (List.range n)) {c d : BatchCell}
    (hc : c ∈ cells) (hd : d ∈ cells) (h : c.index = d.index) : c = d :=
  List.inj_on_of_nodup_map (hperm.nodup_iff.2 List.nodup_range) hc hd h

lemma index_lt (hperm : (cells.map BatchCell.index).Perm (List.range n)) {c : BatchCell}
    (hc : c ∈ cells) : c.index < n :=
  List.mem_range.1 (hperm.subset (List.mem_map_of_mem hc))

/-- **`Query` copies the rows** of the found cells to their indices. -/
theorem exists_query {cache : FeatureCache V}
    (hload : ∀ c ∈ found, load cache.tensor c.position = some (some (row c)))
    (hperm : ((found ++ missed).map BatchCell.index).Perm (List.range n)) :
    ∃ values, cache.query (found.map BatchCell.position)
        ((found ++ missed).map BatchCell.index) n = .ok values ∧ values.length = n ∧
      ∀ c ∈ found, load values c.index = some (some (row c)) := by
  have hrows := loads_map hload
  have hwrites : FeatureCache.rowWrites ((found ++ missed).map BatchCell.index)
      (found.map fun c => some (row c)) = found.map fun c => ((c.index : ℤ), some (row c)) := by
    have hzip : (found.map BatchCell.index ++ missed.map BatchCell.index).zip
        (found.map fun c => some (row c)) =
          (found.map BatchCell.index).zip (found.map fun c => some (row c)) := by
      conv_lhs => rw [← List.append_nil (found.map fun c => some (row c))]
      rw [List.zip_append (by simp), List.zip_nil_right, List.append_nil]
    rw [FeatureCache.rowWrites, List.map_append, hzip, List.zip_map', List.map_map]
    rfl
  obtain ⟨values, hrun, hst⟩ := exists_stored (List.replicate n (none : Option V))
    (found.map fun c => ((c.index : ℤ), some (row c))) (by
      intro w hw
      obtain ⟨c, hc, rfl⟩ := List.mem_map.1 hw
      have := index_lt hperm (List.mem_append_left missed hc)
      rw [List.length_replicate]
      simp only
      omega)
  refine ⟨values, ?_, by rw [hst.length_eq, List.length_replicate], fun c hc => ?_⟩
  · rw [FeatureCache.query, if_pos (by simp), hrows, Option.bind_some, hwrites, hrun]
    rfl
  · refine hst.load_eq (w := ((c.index : ℤ), some (row c))) (List.mem_map.2 ⟨c, hc, rfl⟩) ?_
    intro w hw heq
    obtain ⟨d, hd, rfl⟩ := List.mem_map.1 hw
    rw [eq_of_index hperm (List.mem_append_left missed hd) (List.mem_append_left missed hc)
      (Int.ofNat.inj heq)]

/-- **The missing rows** are put at their indices, next to the found ones. -/
theorem exists_indexPut {values : List (Option V)} (hlen : values.length = n)
    (hperm : ((found ++ missed).map BatchCell.index).Perm (List.range n))
    (hfound : ∀ c ∈ found, load values c.index = some (some (row c))) :
    ∃ values', indexPut values (missed.map BatchCell.index) (missed.map row) = .ok values' ∧
      values'.length = n ∧ ∀ c ∈ found ++ missed, load values' c.index = some (some (row c)) := by
  have hwrites : FeatureCache.rowWrites (missed.map BatchCell.index) ((missed.map row).map some) =
      missed.map fun c => ((c.index : ℤ), some (row c)) := by
    rw [FeatureCache.rowWrites, List.map_map, List.zip_map', List.map_map]
    rfl
  obtain ⟨values', hrun, hst⟩ := exists_stored values
    (missed.map fun c => ((c.index : ℤ), some (row c))) (by
      intro w hw
      obtain ⟨c, hc, rfl⟩ := List.mem_map.1 hw
      have := index_lt hperm (List.mem_append_right found hc)
      simp only
      omega)
  refine ⟨values', ?_, by rw [hst.length_eq, hlen], fun c hc => ?_⟩
  · rw [indexPut, if_pos (by simp), hwrites, hrun]
    rfl
  · rcases List.mem_append.1 hc with hcf | hcm
    · rw [hst.frame, hfound c hcf]
      intro w hw heq
      obtain ⟨d, hd, rfl⟩ := List.mem_map.1 hw
      obtain rfl := eq_of_index hperm (List.mem_append_right found hd) hc (Int.ofNat.inj heq)
      have hnodup := hperm.nodup_iff.2 List.nodup_range
      rw [List.map_append] at hnodup
      exact (List.nodup_append.1 hnodup).2.2 _ (List.mem_map_of_mem hcf) _
        (List.mem_map_of_mem hd) rfl
    · refine hst.load_eq (w := ((c.index : ℤ), some (row c))) (List.mem_map.2 ⟨c, hcm, rfl⟩) ?_
      intro w hw heq
      obtain ⟨d, hd, rfl⟩ := List.mem_map.1 hw
      rw [eq_of_index hperm (List.mem_append_right found hd) hc (Int.ofNat.inj heq)]

/-- A tensor whose rows are known at the indices of all cells. -/
lemma eq_map_of_rows {values : List (Option V)} {ids : List ℤ} {f : ℤ → V}
    (hlen : values.length = ids.length)
    (hperm : (cells.map BatchCell.index).Perm (List.range ids.length))
    (hrow : ∀ c ∈ cells, load values c.index = some (some (f (ids.getD c.index 0)))) :
    values = ids.map fun k => some (f k) := by
  refine List.ext_getElem (by simpa using hlen) fun i h1 h2 => ?_
  have hi : i < ids.length := hlen ▸ h1
  obtain ⟨c, hc, rfl⟩ := List.mem_map.1 (hperm.symm.subset (List.mem_range.2 hi))
  have hload := hrow c hc
  rw [load_natCast, List.getElem?_eq_getElem h1, List.getD_eq_getElem _ _ hi] at hload
  rw [List.getElem_map]
  exact Option.some.inj hload

end Output

/-! ## The invariant of a pipeline -/

variable {r : PartitionedQueryAndReplaceResult} {assign : PartAssignment} {ids : KeyTensor}
  {fuel size n k : ℕ}

section Held

variable {kind : PolicyKind} {s s' : PartitionedCachePolicy kind} {cs : List PartCells}

/-- The found cells point to entries that are pinned. -/
def FoundHeld (s : PartitionedCachePolicy kind) (cs : List PartCells) : Prop :=
  ∀ p, ∀ c ∈ (cs.getD p ⟨[], []⟩).found, ∃ a ∈ pinsOf cs p, s.Points p c a

/-- The missed cells point to entries that are being written, or are skipped. -/
def MissedHeld (s : PartitionedCachePolicy kind) (cs : List PartCells) : Prop :=
  ∀ p, ∀ c ∈ (cs.getD p ⟨[], []⟩).missed, Skipped c ∨ ∃ a ∈ reservationsOf cs p, s.Points p c a

lemma exists_part {f : PartCells → List BatchCell} {c : BatchCell} (hc : c ∈ cs.flatMap f) :
    ∃ p < cs.length, c ∈ f (cs.getD p ⟨[], []⟩) := by
  obtain ⟨part, hpart, hc⟩ := List.mem_flatMap.1 hc
  obtain ⟨p, hp, rfl⟩ := List.mem_iff_getElem.1 hpart
  exact ⟨p, hp, by rwa [List.getD_eq_getElem _ _ hp]⟩

/-- **What `QueryAndReplace` returns** to a pipeline. -/
theorem batch_of_queryAndReplace {offset : ℤ} (hs : s.Inv)
    (h : s.queryAndReplace assign fuel ids offset = .ok r s') :
    ∃ ks groups ls, s.LookedAll ks groups ls s' ∧ s.StepAll s' ∧
      Batch s.numParts offset ids (s.cells ls) r := by
  obtain ⟨ks, ls, hadd, hlook, -, hr⟩ := queryAndReplace_ok hs h
  obtain ⟨ks', results, -, hrun, -⟩ := policies_of_queryAndReplace hs h
  have hlen := length_addOffset hadd
  have hperm := hlook.indices_perm.trans (flatten_partGroups_perm assign hs.numParts_pos ks)
  rw [hlen] at hperm
  refine ⟨ks, _, ls, hlook, stepAll_of_onPolicies (fun _ _ _ _ hcall => .queryAndReplace hcall) hrun,
    ?_, hr, hperm, fun c hc => ?_⟩
  · rw [← hlook.length_traces, cells, List.length_mapIdx]
  · rw [(hlook.cell_key hc).2, idOf_addOffset hadd (index_lt hperm hc)]

end Held

namespace Pipeline

variable {kind : PolicyKind} {V : Type}

/-- **The invariant of a pipeline**, stage by stage. -/
inductive Ok (s : PartitionedCachePolicy kind) (tensor : List (Option V)) (f : ℤ → V)
    (offset : ℤ) : Pipeline V → Prop where
  | issued {ids : KeyTensor} : Ok s tensor f offset (.issued ids)
  | looked {ids : KeyTensor} {r : PartitionedQueryAndReplaceResult} {cs : List PartCells}
      (hb : Batch s.numParts offset ids cs r) (hfound : FoundHeld s cs)
      (hmissed : MissedHeld s cs) : Ok s tensor f offset (.looked ids r)
  | copied {ids : KeyTensor} {r : PartitionedQueryAndReplaceResult} {cs : List PartCells}
      {values : List (Option V)} (hb : Batch s.numParts offset ids cs r)
      (hmissed : MissedHeld s cs) (hlen : values.length = ids.keys.length)
      (hvalues : ∀ c ∈ cs.flatMap PartCells.found,
        load values c.index = some (some (f (idOf offset c.key)))) :
      Ok s tensor f offset (.copied ids r values)
  | readingDone {ids : KeyTensor} {r : PartitionedQueryAndReplaceResult} {cs : List PartCells}
      {values : List (Option V)} (hb : Batch s.numParts offset ids cs r)
      (hmissed : MissedHeld s cs) (hlen : values.length = ids.keys.length)
      (hvalues : ∀ c ∈ cs.flatMap PartCells.found,
        load values c.index = some (some (f (idOf offset c.key)))) :
      Ok s tensor f offset (.readingDone ids r values)
  | fetched {ids : KeyTensor} {r : PartitionedQueryAndReplaceResult} {cs : List PartCells}
      {values : List (Option V)} (hb : Batch s.numParts offset ids cs r)
      (hmissed : MissedHeld s cs) (hlen : values.length = ids.keys.length)
      (hvalues : ∀ c ∈ cs.flatMap PartCells.found,
        load values c.index = some (some (f (idOf offset c.key)))) :
      Ok s tensor f offset (.fetched ids r values (r.missingKeys.map f))
  | written {ids : KeyTensor} {r : PartitionedQueryAndReplaceResult} {cs : List PartCells}
      (hb : Batch s.numParts offset ids cs r) (hmissed : MissedHeld s cs)
      (hfilled : ∀ c ∈ cs.flatMap PartCells.missed, 0 ≤ c.position →
        load tensor c.position = some (some (f (idOf offset c.key)))) :
      Ok s tensor f offset (.written ids r (ids.keys.map fun k => some (f k)))
  | returned {ids : KeyTensor} :
      Ok s tensor f offset (.returned ids (ids.keys.map fun k => some (f k)))

/-- What others hold, the pins `P` and the writes `W`, is where it was. -/
structure Undisturbed (s s' : PartitionedCachePolicy kind) (tensor tensor' : List (Option V))
    (P W : ℕ → Multiset ℕ) : Prop where
  numParts_eq : s'.numParts = s.numParts
  points : ∀ {p c a}, a ∈ P p + W p → s.Points p c a → s'.Points p c a
  rows : ∀ {p c a}, a ∈ W p → s.Points p c a → load tensor' c.position = load tensor c.position

variable {s s' : PartitionedCachePolicy kind} {tensor tensor' : List (Option V)} {f : ℤ → V}
  {offset : ℤ} {P W : ℕ → Multiset ℕ} {cs : List PartCells}

lemma foundHeld_undisturbed (h : FoundHeld s cs) (hu : Undisturbed s s' tensor tensor' P W)
    (hP : ∀ p < s.numParts, pinsOf cs p ≤ P p) : FoundHeld s' cs := by
  intro p c hc
  obtain ⟨a, ha, hpt⟩ := h p c hc
  have hmem := Multiset.mem_of_le (hP p hpt.lt) ha
  exact ⟨a, ha, hu.points (Multiset.mem_add.2 (Or.inl hmem)) hpt⟩

lemma missedHeld_undisturbed (h : MissedHeld s cs) (hu : Undisturbed s s' tensor tensor' P W)
    (hW : ∀ p < s.numParts, reservationsOf cs p ≤ W p) : MissedHeld s' cs := by
  intro p c hc
  refine (h p c hc).imp_right ?_
  rintro ⟨a, ha, hpt⟩
  have hmem := Multiset.mem_of_le (hW p hpt.lt) ha
  exact ⟨a, ha, hu.points (Multiset.mem_add.2 (Or.inr hmem)) hpt⟩

variable {pl pl' : Pipeline V}

/-- **Non-interference**: a pipeline whose holdings are undisturbed stays as it was. -/
theorem Ok.undisturbed (h : pl.Ok s tensor f offset) (hu : Undisturbed s s' tensor tensor' P W)
    (hP : ∀ p, pl.reads s.numParts p ≤ P p) (hW : ∀ p, pl.writes s.numParts p ≤ W p) :
    pl.Ok s' tensor' f offset := by
  cases h with
  | issued => exact .issued
  | looked hb hfound hmissed =>
      refine .looked (hu.numParts_eq ▸ hb) (foundHeld_undisturbed hfound hu fun p hp => ?_)
        (missedHeld_undisturbed hmissed hu fun p hp => ?_)
      · rw [← hb.pins_eq hp]
        exact hP p
      · rw [← hb.reservations_eq hp]
        exact hW p
  | copied hb hmissed hlen hvalues =>
      refine .copied (hu.numParts_eq ▸ hb) (missedHeld_undisturbed hmissed hu fun p hp => ?_) hlen
        hvalues
      rw [← hb.reservations_eq hp]
      exact hW p
  | readingDone hb hmissed hlen hvalues =>
      refine .readingDone (hu.numParts_eq ▸ hb) (missedHeld_undisturbed hmissed hu fun p hp => ?_)
        hlen hvalues
      rw [← hb.reservations_eq hp]
      exact hW p
  | fetched hb hmissed hlen hvalues =>
      refine .fetched (hu.numParts_eq ▸ hb) (missedHeld_undisturbed hmissed hu fun p hp => ?_) hlen
        hvalues
      rw [← hb.reservations_eq hp]
      exact hW p
  | @written ids r cs hb hmissed hfilled =>
      have hres (p : ℕ) (hp : p < s.numParts) : reservationsOf cs p ≤ W p := by
        rw [← hb.reservations_eq hp]
        exact hW p
      refine .written (hu.numParts_eq ▸ hb) (missedHeld_undisturbed hmissed hu hres) ?_
      intro c hc h0
      obtain ⟨p, -, hcp⟩ := exists_part hc
      rcases hmissed p c hcp with hskip | ⟨a, ha, hpt⟩
      · exact absurd hskip.2 (by omega)
      · rw [hu.rows (Multiset.mem_of_le (hres p hpt.lt) ha) hpt]
        exact hfilled c hc h0
  | returned => exact .returned

/-! ## The stages -/

/-- A pipeline that is as it should be, next to others that hold `P` and `W`. -/
structure Own (s : PartitionedCachePolicy kind) (tensor : List (Option V)) (f : ℤ → V)
    (offset : ℤ) (P W : ℕ → Multiset ℕ) (pl : Pipeline V) : Prop where
  rows : s.Rows tensor (fun p => pl.reads s.numParts p + P p)
    (fun p => pl.writes s.numParts p + W p) (fun key => f (idOf offset key))
  ok : pl.Ok s tensor f offset

lemma undisturbed_refl : Undisturbed s s tensor tensor P W := ⟨rfl, fun _ h => h, fun _ _ => rfl⟩

/-- A call on the policies disturbs nobody who holds a part of the ledger. -/
lemma undisturbed_of_stepAll {R R' : ℕ → Multiset ℕ} {val : ℤ → V}
    (h : s.Rows tensor (fun p => R p + P p) (fun p => R' p + W p) val) (hst : s.StepAll s') :
    Undisturbed s s' tensor tensor P W where
  numParts_eq := hst.numParts_eq
  points := by
    intro p c a ha hpt
    refine h.stays hpt ?_ hst
    rcases Multiset.mem_add.1 ha with hm | hm
    · exact Multiset.mem_add.2 (Or.inl (Multiset.mem_add.2 (Or.inr hm)))
    · exact Multiset.mem_add.2 (Or.inr (Multiset.mem_add.2 (Or.inr hm)))
  rows := fun _ _ => rfl

/-- `query_and_replace`: what is found is pinned, what is admitted is reserved. -/
lemma own_looked (h : Own s tensor f offset P W (.issued ids))
    (hrun : s.queryAndReplace assign fuel ids offset = .ok r s') :
    Own s' tensor f offset P W (.looked ids r) ∧ Undisturbed s s' tensor tensor P W := by
  have hs := h.rows.inv
  obtain ⟨ks, groups, ls, hlook, hst, hb⟩ := batch_of_queryAndReplace hs hrun
  have hrows : s.Rows tensor P W fun key => f (idOf offset key) :=
    h.rows.congr (fun p _ => zero_add (P p)) fun p _ => zero_add (W p)
  have hb' : Batch s'.numParts offset ids (s.cells ls) r := hst.numParts_eq.symm ▸ hb
  refine ⟨⟨(hrows.looked hlook).congr (fun p hp => ?_) fun p hp => ?_, .looked hb' ?_ ?_⟩,
    undisturbed_of_stepAll h.rows hst⟩
  · rw [← hb'.pins_eq hp]
    rfl
  · rw [← hb'.reservations_eq hp]
    rfl
  · intro p c hc
    exact hlook.points_found hs hc
  · intro p c hc
    exact hlook.points_missed hs hc

/-- `cache.query`: a row that is found and pinned holds the value of its key. -/
lemma own_copied {ids : KeyTensor} {r : PartitionedQueryAndReplaceResult}
    {cache : FeatureCache V} {values : List (Option V)}
    (h : Own s cache.tensor f offset P W (.looked ids r))
    (hrun : cache.query (r.positions.take (foundCnt ids r)) r.indices ids.keys.length =
      .ok values) : Own s cache.tensor f offset P W (.copied ids r values) := by
  obtain ⟨hrows, hok⟩ := h
  cases hok with
  | @looked _ _ cs hb hfound hmissed =>
      have hload : ∀ c ∈ cs.flatMap PartCells.found,
          load cache.tensor c.position = some (some (f (idOf offset c.key))) := by
        intro c hc
        obtain ⟨p, -, hcp⟩ := exists_part hc
        obtain ⟨a, ha, hpt⟩ := hfound p c hcp
        have hbal := hrows.balanced p
        obtain ⟨-, t, e, ht, -⟩ := id hpt
        refine hrows.load_eq hpt fun hW => (hbal t ht).disjoint a hW ?_
        rw [← hb.pins_eq hpt.lt] at ha
        exact Multiset.mem_add.2 (Or.inl ha)
      obtain ⟨values', hrun', hlen, hvalues⟩ := exists_query hload hb.indices_perm
      rw [hb.positions_take, hb.indices_eq] at hrun
      obtain rfl := Except.ok.inj (hrun'.symm.trans hrun)
      exact ⟨hrows, .copied hb hmissed hlen hvalues⟩

/-- `reading_completed`: the pins are handed back. -/
lemma own_readingDone {values : List (Option V)}
    (h : Own s tensor f offset P W (.copied ids r values))
    (hrun : s.readingCompleted (r.pointers.take (foundCnt ids r)) r.foundOffsets = .ok () s') :
    Own s' tensor f offset P W (.readingDone ids r values) ∧
      Undisturbed s s' tensor tensor P W := by
  obtain ⟨hst, -⟩ := completed_policy hrun
  have hund := undisturbed_of_stepAll h.rows hst
  obtain ⟨hrows, hok⟩ := h
  -- The writes of this pipeline are as undisturbed as those of the others.
  have hself : Undisturbed s s' tensor tensor P fun p =>
      (copied ids r values).writes s.numParts p + W p :=
    undisturbed_of_stepAll (hrows.congr (fun _ _ => rfl) fun p _ => (zero_add _).symm) hst
  cases hok with
  | @copied _ _ cs _ hb hmissed hlen hvalues =>
      refine ⟨⟨(hrows.readingCompleted (fun p hp => rfl) hrun).congr (fun p _ => ?_) fun p _ => ?_,
        .readingDone (hst.numParts_eq.symm ▸ hb) (missedHeld_undisturbed hmissed hself ?_) hlen
          hvalues⟩, hund⟩
      · exact (zero_add (P p)).symm
      · rw [hst.numParts_eq]
        rfl
      · intro p hp
        rw [← hb.reservations_eq hp]
        exact Multiset.le_add_right _ _

/-- `cache.replace`: the missing rows are filled. -/
lemma own_written {cache cache' : FeatureCache V} {values values' : List (Option V)}
    {missingValues : List V}
    (h : Own s cache.tensor f offset P W (.fetched ids r values missingValues))
    (hput : indexPut values (r.indices.drop (foundCnt ids r)) missingValues = .ok values')
    (hrun : cache.replace (r.positions.drop (foundCnt ids r)) missingValues = .ok cache') :
    Own s cache'.tensor f offset P W (.written ids r values') ∧
      Undisturbed s s cache.tensor cache'.tensor P W := by
  obtain ⟨hrows, hok⟩ := h
  cases hok with
  | @fetched _ _ cs _ hb hmissed hlen hvalues =>
      have hmissing : r.missingKeys.map f =
          (cs.flatMap PartCells.missed).map fun c => f (idOf offset c.key) := by
        rw [hb.missingKeys_eq, List.map_map]
        rfl
      have hcells : ∀ c ∈ cs.flatMap PartCells.missed, Skipped c ∨ ∃ p,
          ∃ a ∈ pointersOf (completedBy s.numParts (r.pointers.drop (foundCnt ids r))
            r.missingOffsets p), s.Points p c a := by
        intro c hc
        obtain ⟨p, -, hcp⟩ := exists_part hc
        refine (hmissed p c hcp).imp_right ?_
        rintro ⟨a, ha, hpt⟩
        exact ⟨p, a, by rwa [hb.reservations_eq hpt.lt], hpt⟩
      rw [hmissing] at hput hrun
      rw [hb.indices_drop] at hput
      rw [hb.positions_drop] at hrun
      obtain ⟨cache₁, hrun₁, hrows', hfilled, hframe⟩ := hrows.replace fun c hc =>
        (hcells c hc).imp_right fun ⟨p, a, ha, hpt⟩ =>
          ⟨p, a, Multiset.mem_add.2 (Or.inl ha), hpt⟩
      obtain rfl := Except.ok.inj (hrun₁.symm.trans hrun)
      obtain ⟨values₁, hput₁, hlen₁, hvalues₁⟩ := exists_indexPut hlen hb.indices_perm hvalues
      obtain rfl := Except.ok.inj (hput₁.symm.trans hput)
      have hall : values₁ = ids.keys.map fun k => some (f k) :=
        eq_map_of_rows hlen₁ hb.indices_perm fun c hc => by
          rw [hvalues₁ c hc, hb.id_eq c hc]
      subst hall
      refine ⟨⟨hrows', .written hb hmissed hfilled⟩, rfl, fun _ hpt => hpt, ?_⟩
      intro p c a ha hpt
      refine hframe _ fun d hd heq => ?_
      -- A cell of this pipeline and one of another have different addresses.
      rcases hcells d hd with hskip | ⟨q, b, hb', hpt'⟩
      · have := (hpt.position_range hrows.inv).1
        exact absurd hskip.2 (by omega)
      · obtain ⟨rfl, rfl, -⟩ := hpt'.eq_of_position hrows.inv hpt heq
        obtain ⟨-, t, e, ht, -⟩ := hpt
        have hnodup := (hrows.balanced q t ht).writes_nodup
        exact Multiset.disjoint_left.1 (Multiset.nodup_add.1 hnodup).2.2 hb' ha

/-- `writing_completed`: the rows are published. -/
lemma own_returned {values : List (Option V)}
    (h : Own s tensor f offset P W (.written ids r values))
    (hrun : s.writingCompleted (r.pointers.drop (foundCnt ids r)) r.missingOffsets = .ok () s') :
    Own s' tensor f offset P W (.returned ids values) ∧ Undisturbed s s' tensor tensor P W := by
  obtain ⟨hst, -⟩ := completed_policy hrun
  have hund := undisturbed_of_stepAll h.rows hst
  obtain ⟨hrows, hok⟩ := h
  cases hok with
  | @written _ _ cs hb hmissed hfilled =>
      refine ⟨⟨(hrows.writingCompleted (fun p hp => rfl) ?_ hrun).congr (fun _ _ => rfl) fun p _ =>
        (zero_add (W p)).symm, .returned⟩, hund⟩
      intro p t e ht he hmem
      have hp : p < s.numParts := (List.getElem?_eq_some_iff.1 ht).1
      have hmem : e.addr ∈ reservationsOf cs p := by
        rw [← hb.reservations_eq hp]
        exact hmem
      obtain ⟨c, hc, hptr⟩ := List.mem_map.1 (mem_pointersOf.1 hmem)
      rcases hmissed p c hc with hskip | ⟨a, -, hpt⟩
      · rw [hskip.1] at hptr
        simp at hptr
      · have hrange := (hpt.position_range hrows.inv).1
        obtain ⟨hptr', t', e', ht', he', hea, hkey, hpos⟩ := hpt
        obtain rfl := Option.some.inj (ht'.symm.trans ht)
        have haddr : e'.addr = e.addr := hea.trans (Option.some.inj (hptr'.symm.trans hptr))
        obtain rfl := (hrows.inv.policy p t' ht).1.wellFormed.eq_of_addr he' he haddr
        rw [← hpos, hkey]
        refine hfilled c (List.mem_flatMap.2 ⟨_, List.getElem_mem (hb.length_cells.symm ▸ hp), ?_⟩)
          hrange
        rwa [List.getD_eq_getElem _ _ (hb.length_cells.symm ▸ hp)] at hc

variable {c c' : CpuFeatureCache kind V}

/-- **Step lemma**: a stage keeps the invariant of its pipeline and disturbs nobody else. -/
theorem Own.advance (h : Own c.policy c.cache.tensor f offset P W pl)
    (hrun : pl.advance assign fuel f offset c = .ok pl' c') :
    Own c'.policy c'.cache.tensor f offset P W pl' ∧
      Undisturbed c.policy c'.policy c.cache.tensor c'.cache.tensor P W := by
  cases pl with
  | issued ids =>
      obtain ⟨r, c₁, hcall, hret⟩ := Outcome.bind_eq_ok.1 hrun
      obtain ⟨policy, hpolicy, rfl⟩ := CpuFeatureCache.onPolicy_eq_ok.1 hcall
      obtain ⟨rfl, rfl⟩ := by simpa using hret
      exact own_looked h hpolicy
  | looked ids r =>
      obtain ⟨values, hquery, hret⟩ := Outcome.ofExcept_bind_eq_ok.1 hrun
      obtain ⟨rfl, rfl⟩ := by simpa using hret
      exact ⟨own_copied h hquery, undisturbed_refl⟩
  | copied ids r values =>
      obtain ⟨u, c₁, hcall, hret⟩ := Outcome.bind_eq_ok.1 hrun
      obtain ⟨policy, hpolicy, rfl⟩ := CpuFeatureCache.onPolicy_eq_ok.1 hcall
      obtain ⟨rfl, rfl⟩ := by simpa using hret
      exact own_readingDone h hpolicy
  | readingDone ids r values =>
      obtain ⟨rfl, rfl⟩ := by simpa [advance] using hrun
      obtain ⟨hrows, hok⟩ := h
      cases hok with
      | readingDone hb hmissed hlen hvalues =>
          exact ⟨⟨hrows, .fetched hb hmissed hlen hvalues⟩, undisturbed_refl⟩
  | fetched ids r values missingValues =>
      obtain ⟨values', hput, hrun⟩ := Outcome.ofExcept_bind_eq_ok.1 hrun
      obtain ⟨cache', hreplace, hret⟩ := Outcome.ofExcept_bind_eq_ok.1 hrun
      obtain ⟨rfl, rfl⟩ := by simpa using hret
      exact own_written h hput hreplace
  | written ids r values =>
      obtain ⟨u, c₁, hcall, hret⟩ := Outcome.bind_eq_ok.1 hrun
      obtain ⟨policy, hpolicy, rfl⟩ := CpuFeatureCache.onPolicy_eq_ok.1 hcall
      obtain ⟨rfl, rfl⟩ := by simpa using hret
      exact own_returned h hpolicy
  | returned ids values =>
      obtain ⟨rfl, rfl⟩ := by simpa [advance] using hrun
      exact ⟨h, undisturbed_refl⟩

/-! ## Interleavings -/

/-- What a new cache and any number of pipelines over it come to when their stages return, in
whatever order they are taken.  A pipeline can be issued at any time. -/
inductive Interleaved (assign : PartAssignment) (kind : PolicyKind) (size n : ℕ)
    (fallback : ℤ → V) (offset : ℤ) :
    CpuFeatureCache kind V → Multiset (Pipeline V) → Prop where
  | create {hsize : CpuFeatureCache.cacheSize kind size n < 2 ^ 63} {c : CpuFeatureCache kind V}
      (h : CpuFeatureCache.create kind size n hsize = .ok c) :
      Interleaved assign kind size n fallback offset c 0
  | issue {c : CpuFeatureCache kind V} {pls : Multiset (Pipeline V)} (ids : KeyTensor)
      (hrun : Interleaved assign kind size n fallback offset c pls) :
      Interleaved assign kind size n fallback offset c (.issued ids ::ₘ pls)
  | advance {fuel : ℕ} {c c' : CpuFeatureCache kind V} {pl pl' : Pipeline V}
      {rest : Multiset (Pipeline V)}
      (hrun : Interleaved assign kind size n fallback offset c (pl ::ₘ rest))
      (h : pl.advance assign fuel fallback offset c = .ok pl' c') :
      Interleaved assign kind size n fallback offset c' (pl' ::ₘ rest)

/-- The invariant of a cache and the pipelines over it: the ledger is that of all of them. -/
structure Consistent (s : PartitionedCachePolicy kind) (tensor : List (Option V)) (f : ℤ → V)
    (offset : ℤ) (pls : Multiset (Pipeline V)) : Prop where
  rows : s.Rows tensor (fun p => (pls.map (reads s.numParts p)).sum)
    (fun p => (pls.map (writes s.numParts p)).sum) fun key => f (idOf offset key)
  ok : ∀ pl ∈ pls, pl.Ok s tensor f offset

/-- **Step lemma** for the whole system. -/
theorem Consistent.advance {rest : Multiset (Pipeline V)}
    (h : Consistent c.policy c.cache.tensor f offset (pl ::ₘ rest))
    (hrun : pl.advance assign fuel f offset c = .ok pl' c') :
    Consistent c'.policy c'.cache.tensor f offset (pl' ::ₘ rest) := by
  have hown : Own c.policy c.cache.tensor f offset
      (fun p => (rest.map (reads c.policy.numParts p)).sum)
      (fun p => (rest.map (writes c.policy.numParts p)).sum) pl := by
    refine ⟨h.rows.congr (fun p _ => ?_) (fun p _ => ?_), h.ok pl (Multiset.mem_cons_self _ _)⟩
    · rw [Multiset.map_cons, Multiset.sum_cons]
    · rw [Multiset.map_cons, Multiset.sum_cons]
  obtain ⟨hown', hund⟩ := hown.advance hrun
  refine ⟨hown'.rows.congr (fun p _ => ?_) (fun p _ => ?_), fun q hq => ?_⟩
  · rw [Multiset.map_cons, Multiset.sum_cons, hund.numParts_eq]
  · rw [Multiset.map_cons, Multiset.sum_cons, hund.numParts_eq]
  · rcases Multiset.mem_cons.1 hq with rfl | hq
    · exact hown'.ok
    · refine (h.ok q (Multiset.mem_cons_of_mem hq)).undisturbed hund (fun p => ?_) fun p => ?_
      · exact Multiset.le_sum_of_mem (Multiset.mem_map_of_mem _ hq)
      · exact Multiset.le_sum_of_mem (Multiset.mem_map_of_mem _ hq)

/-- **Run lemma**: every interleaving is consistent. -/
theorem Interleaved.run_consistent {pls : Multiset (Pipeline V)}
    (h : Interleaved assign kind size n f offset c pls) :
    Consistent c.policy c.cache.tensor f offset pls := by
  induction h with
  | create h =>
      refine ⟨(rows_create h _).congr (fun p _ => ?_) fun p _ => ?_, by simp⟩
      · rw [Multiset.map_zero, Multiset.sum_zero]
        rfl
      · rw [Multiset.map_zero, Multiset.sum_zero]
        rfl
  | issue ids _ ih =>
      refine ⟨ih.rows.congr (fun p _ => ?_) fun p _ => ?_, fun pl hpl => ?_⟩
      · rw [Multiset.map_cons, Multiset.sum_cons]
        exact (zero_add _).symm
      · rw [Multiset.map_cons, Multiset.sum_cons]
        exact (zero_add _).symm
      · rcases Multiset.mem_cons.1 hpl with rfl | hpl
        · exact .issued
        · exact ih.ok pl hpl
  | advance _ hrun ih => exact ih.advance hrun

/-- The next `k` stages of a pipeline. -/
def advances (assign : PartAssignment) (fuel : ℕ) (fallback : ℤ → V) (offset : ℤ) :
    ℕ → CpuFeatureCache kind V → Pipeline V → Option (CpuFeatureCache kind V × Pipeline V)
  | 0, c, pl => some (c, pl)
  | k + 1, c, pl =>
    match pl.advance assign fuel fallback offset c with
    | .ok pl' c' => advances assign fuel fallback offset k c' pl'
    | _ => none

lemma Interleaved.advances {rest : Multiset (Pipeline V)}
    (h : Interleaved assign kind size n f offset c (pl ::ₘ rest))
    (hrun : Pipeline.advances assign fuel f offset k c pl = some (c', pl')) :
    Interleaved assign kind size n f offset c' (pl' ::ₘ rest) := by
  induction k generalizing c pl with
  | zero =>
      obtain ⟨rfl, rfl⟩ := by simpa [Pipeline.advances] using hrun
      exact h
  | succ k ih =>
      rw [Pipeline.advances] at hrun
      split at hrun
      · rename_i pl₁ c₁ hstep
        exact ih (h.advance hstep) hrun
      · simp at hrun

end Pipeline

end DglAscend.Graphbolt
