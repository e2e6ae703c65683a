import DglAscend.Ascend.UniformLaunches
import DglAscend.Ascend.UniformScratch

/-!
# When the uniform samplers overflow

The plain launcher does not look at the fanout, and the fused launcher does so only for sampling with
replacement.  Here is exactly which of the launches that they accept write past the buffers.
-/

namespace DglAscend.Ascend

open Aten UniformLaunch

/-! ## The staging of a block -/

namespace Block

variable {b b' : Block} {size : ℕ}

/-- All writes of a block are within its buffers. -/
structure Within (size : ℕ) (b : Block) : Prop where
  ub : b.ub.Within size
  outPtr : ∀ j ∈ b.outPtrWrites, j < metaRows + 1
  pairs : ∀ j ∈ b.pairsWrites, j < 2 * metaRows

/-- There is room for another row. -/
structure Room (b : Block) : Prop where
  outPtr : b.outPtrStaged < metaRows
  pairs : b.pairsStaged < metaRows

/-- Only the buffers of the sampling differ. -/
structure SameStaging (b b' : Block) : Prop where
  outPtrStaged : b'.outPtrStaged = b.outPtrStaged
  outPtrWrites : b'.outPtrWrites = b.outPtrWrites
  pairsStaged : b'.pairsStaged = b.pairsStaged
  pairsWrites : b'.pairsWrites = b.pairsWrites

lemma SameStaging.within (h : SameStaging b b') (hb : b.Within size) (hub : b'.ub.Within size) :
    b'.Within size := by
  refine ⟨hub, ?_, ?_⟩
  · rw [h.outPtrWrites]
    exact hb.outPtr
  · rw [h.pairsWrites]
    exact hb.pairs

lemma stagePtr_within (hb : b.Within size) (hroom : b.outPtrStaged < metaRows + 1) (v : ℕ) :
    (b.stagePtr v).Within size := by
  refine ⟨hb.ub, fun j hj => ?_, hb.pairs⟩
  rcases List.mem_append.1 hj with hj | hj
  · exact hb.outPtr j hj
  · rw [List.mem_singleton.1 hj]
    exact hroom

lemma stagePair_within (hb : b.Within size) (hroom : b.pairsStaged < metaRows) (rid : ℤ) (i : ℕ) :
    (b.stagePair rid i).Within size := by
  refine ⟨hb.ub, hb.outPtr, fun j hj => ?_⟩
  rcases List.mem_append.1 hj with hj | hj
  · exact hb.pairs j hj
  · rw [List.mem_cons, List.mem_singleton] at hj
    omega

lemma flushOutPtr_within (hb : b.Within size) (rowBegin : ℕ) : (b.flushOutPtr rowBegin).Within size :=
  ⟨hb.ub, hb.outPtr, hb.pairs⟩

lemma flushSeedPairs_within (hb : b.Within size) (rowBegin : ℕ) :
    (b.flushSeedPairs rowBegin).Within size :=
  ⟨hb.ub, hb.outPtr, hb.pairs⟩

/-- A full staging is flushed, so there is room again. -/
lemma flushFull_room (b : Block) (rowBegin : ℕ) : (flushFull rowBegin b).Room := by
  have hpos : 0 < metaRows := by decide
  rw [flushFull]
  by_cases hfull : metaRows ≤ b.outPtrStaged
  · rw [if_pos hfull]
    by_cases hfull' : metaRows ≤ (b.flushOutPtr rowBegin).pairsStaged
    · rw [if_pos hfull']
      exact ⟨hpos, hpos⟩
    · rw [if_neg hfull']
      exact ⟨hpos, Nat.not_le.1 hfull'⟩
  · rw [if_neg hfull]
    by_cases hfull' : metaRows ≤ b.pairsStaged
    · rw [if_pos hfull']
      exact ⟨Nat.not_le.1 hfull, hpos⟩
    · rw [if_neg hfull']
      exact ⟨Nat.not_le.1 hfull, Nat.not_le.1 hfull'⟩

lemma flushFull_ub (b : Block) (rowBegin : ℕ) : (flushFull rowBegin b).ub = b.ub := by
  rw [flushFull]
  split_ifs
  · rfl
  · rfl
  · rfl
  · rfl

lemma flushFull_within (hb : b.Within size) (rowBegin : ℕ) : (flushFull rowBegin b).Within size := by
  rw [flushFull]
  split_ifs
  · exact flushSeedPairs_within (flushOutPtr_within hb rowBegin) rowBegin
  · exact flushOutPtr_within hb rowBegin
  · exact flushSeedPairs_within hb rowBegin
  · exact hb

end Block

namespace UniformLaunch

variable {l : UniformLaunch} {b b' : Block} {i outStart rowBegin fuel : ℕ} {is : List ℕ}

/-! ## Rows -/

lemma task_deg_lt (l : UniformLaunch) (i row outPos : ℕ) : (l.task i row outPos).deg < 2 ^ 32 := by
  show l.degree _ < 2 ^ 32
  rw [degree]
  omega

/-- The picks of a row are what the sampler takes from it. -/
lemma task_counts {row outPos : ℕ} (hpos : 0 < (l.task i row outPos).numPicks) :
    Sampler.Counts l.sampler (l.task i row outPos) := by
  have hvalid : l.ridValid (l.rows.getD i 0) = true := by
    by_contra hno
    have hzero : (l.task i row outPos).numPicks = 0 := if_neg hno
    omega
  exact Sampler.counts_of_numPicks (if_pos hvalid) hpos

/-- The picks of seed row `i` fit the window, or all edges are taken. -/
def RowFits (l : UniformLaunch) (i : ℕ) : Prop :=
  0 < (l.task i i 0).numPicks → Sampler.Fits l.sampler (l.task i i 0)

/-- The sampling of seed row `i` ends. -/
def RowEnds (l : UniformLaunch) (i : ℕ) : Prop :=
  0 < (l.task i i 0).numPicks → Sampler.Ends l.sampler (l.task i i 0)

/-! ## A row of a block -/

/-- The arguments of the sampling of a seed row. -/
abbrev seedTask (l : UniformLaunch) (outStart i : ℕ) (b : Block) : RowTask :=
  l.task i i ((outStart + b.offset) % 2 ^ 32)

/-- The buffers before the sampling of a seed row. -/
abbrev seedUb (l : UniformLaunch) (i : ℕ) (b : Block) : Ub := { b.ub with rng := l.rowState i }

lemma sampleSeed_some (hpos : 0 < (l.task i i 0).numPicks) (fuel outStart : ℕ) (b : Block) :
    l.sampleSeed fuel outStart i b =
      match l.sampler.sampleRow (l.seedTask outStart i b) fuel (l.seedUb i b) with
      | .error u => .error { b with ub := u }
      | .ok u =>
          .ok { b with ub := u, offset := (b.offset + (l.seedTask outStart i b).numPicks) % 2 ^ 32 } :=
  if_pos hpos

lemma sampleSeed_none (hnone : ¬ 0 < (l.task i i 0).numPicks) (fuel outStart : ℕ) (b : Block) :
    l.sampleSeed fuel outStart i b = .ok b := if_neg hnone

lemma sampleSeed_same (fuel outStart i : ℕ) (b : Block) :
    Block.SameStaging b (reached (l.sampleSeed fuel outStart i b)) := by
  by_cases hpos : 0 < (l.task i i 0).numPicks
  · rw [sampleSeed_some hpos]
    cases l.sampler.sampleRow (l.seedTask outStart i b) fuel (l.seedUb i b) with
    | error u => exact ⟨rfl, rfl, rfl, rfl⟩
    | ok u => exact ⟨rfl, rfl, rfl, rfl⟩
  · rw [sampleSeed_none hpos]
    exact ⟨rfl, rfl, rfl, rfl⟩

/-- The buffers after the sampling of a seed row. -/
lemma sampleSeed_ub (hpos : 0 < (l.task i i 0).numPicks) (fuel outStart : ℕ) (b : Block) :
    (reached (l.sampleSeed fuel outStart i b)).ub =
      reached (l.sampler.sampleRow (l.seedTask outStart i b) fuel (l.seedUb i b)) := by
  rw [sampleSeed_some hpos]
  cases l.sampler.sampleRow (l.seedTask outStart i b) fuel (l.seedUb i b) with
  | error u => rfl
  | ok u => rfl

lemma sampleSeed_within (hfits : l.RowFits i) (hb : b.Within l.sampler.windowElems)
    (fuel outStart : ℕ) : (reached (l.sampleSeed fuel outStart i b)).Within l.sampler.windowElems := by
  by_cases hpos : 0 < (l.task i i 0).numPicks
  · apply (sampleSeed_same fuel outStart i b).within hb
    rw [sampleSeed_ub hpos]
    exact Sampler.sampleRow_within (a := l.seedTask outStart i b) (task_counts hpos) (hfits hpos)
      (u := l.seedUb i b) ⟨hb.ub.picks, hb.ub.stage⟩ fuel
  · rw [sampleSeed_none hpos]
    exact hb

lemma sampleSeed_kept (fuel outStart i : ℕ) (b : Block) :
    b.ub.pickWrites ⊆ (reached (l.sampleSeed fuel outStart i b)).ub.pickWrites := by
  by_cases hpos : 0 < (l.task i i 0).numPicks
  · rw [sampleSeed_ub hpos]
    exact Sampler.sampleRow_kept _ _ fuel (l.seedUb i b)
  · rw [sampleSeed_none hpos]
    exact List.Subset.refl _

/-- A row that does not fit writes past the scratch. -/
lemma sampleSeed_overflow (hfits : ¬ l.RowFits i) (fuel outStart : ℕ) (b : Block) :
    l.sampler.windowElems ∈ (reached (l.sampleSeed fuel outStart i b)).ub.pickWrites := by
  obtain ⟨hpos, hfits⟩ := Classical.not_imp.1 hfits
  have hmany : l.sampler.windowElems < (l.task i i 0).numPicks := by
    rw [Sampler.Fits, not_or] at hfits
    exact Nat.not_le.1 hfits.2
  rw [sampleSeed_ub hpos]
  exact Sampler.mem_sampleRow (a := l.seedTask outStart i b) hfits fuel _ hmany

/-- A row that fits and ends is sampled with enough steps. -/
lemma sampleSeed_ok (hfits : l.RowFits i) (hends : l.RowEnds i) (outStart : ℕ) (b : Block) :
    ∃ fuel₀ b', ∀ fuel ≥ fuel₀, l.sampleSeed fuel outStart i b = .ok b' := by
  by_cases hpos : 0 < (l.task i i 0).numPicks
  · obtain ⟨es, ⟨fuel₀, u, hok, -⟩, -⟩ := Sampler.emits_of_ends (a := l.seedTask outStart i b)
      (task_counts hpos) hpos (l.task_deg_lt i i _) (hfits hpos) (hends hpos) (l.seedUb i b)
    refine ⟨fuel₀, { b with ub := u, offset := (b.offset + (l.seedTask outStart i b).numPicks) %
      2 ^ 32 }, fun fuel hle => ?_⟩
    rw [sampleSeed_some hpos, Sampler.sampleRow_mono hok hle]
  · exact ⟨0, b, fun fuel _ => sampleSeed_none hpos fuel outStart b⟩

lemma rowEnds_of_ok (hok : l.sampleSeed fuel outStart i b = .ok b') : l.RowEnds i := by
  intro hpos
  rw [sampleSeed_some hpos] at hok
  cases hrow : l.sampler.sampleRow (l.seedTask outStart i b) fuel (l.seedUb i b) with
  | error u =>
      rw [hrow] at hok
      cases hok
  | ok u =>
      exact Sampler.ends_of_ok (a := l.seedTask outStart i b) (task_counts hpos)
        (l.task_deg_lt i i _) hrow

lemma stageSeed_within (hb : b.Within l.sampler.windowElems) (hroom : b.Room) (outStart i : ℕ) :
    (l.stageSeed outStart i b).Within l.sampler.windowElems := by
  have hptr := Block.stagePtr_within hb (hroom.outPtr.trans (Nat.lt_succ_self _))
    ((outStart + b.offset) % 2 ^ 32)
  rw [stageSeed]
  split_ifs
  · exact Block.stagePair_within hptr hroom.pairs _ _
  · exact hptr

lemma stageSeed_ub (outStart i : ℕ) (b : Block) : (l.stageSeed outStart i b).ub = b.ub := by
  rw [stageSeed]
  split_ifs
  · rfl
  · rfl

lemma processRow_eq (l : UniformLaunch) (fuel rowBegin outStart i : ℕ) (b : Block) :
    l.processRow fuel rowBegin outStart b i =
      match l.sampleSeed fuel outStart i (l.stageSeed outStart i b) with
      | .error b => .error b
      | .ok b => .ok (flushFull rowBegin b) := by
  rw [processRow]
  cases l.sampleSeed fuel outStart i (l.stageSeed outStart i b) with
  | error b' => rfl
  | ok b' => rfl

/-- A turn of the loop stays within the buffers and leaves room for the next row. -/
lemma processRow_within (hfits : l.RowFits i) (hb : b.Within l.sampler.windowElems)
    (hroom : b.Room) (fuel rowBegin outStart : ℕ) :
    (reached (l.processRow fuel rowBegin outStart b i)).Within l.sampler.windowElems ∧
      ∀ b', l.processRow fuel rowBegin outStart b i = .ok b' → b'.Room := by
  have hseed := sampleSeed_within hfits (stageSeed_within hb hroom outStart i) fuel outStart
  rw [processRow_eq]
  cases hsample : l.sampleSeed fuel outStart i (l.stageSeed outStart i b) with
  | error b' =>
      rw [hsample] at hseed
      exact ⟨hseed, nofun⟩
  | ok b' =>
      rw [hsample] at hseed
      refine ⟨Block.flushFull_within hseed rowBegin, fun b'' heq => ?_⟩
      injection heq with heq
      subst heq
      exact Block.flushFull_room b' rowBegin

lemma processRow_kept (fuel rowBegin outStart i : ℕ) (b : Block) :
    b.ub.pickWrites ⊆ (reached (l.processRow fuel rowBegin outStart b i)).ub.pickWrites := by
  have hseed := sampleSeed_kept (l := l) fuel outStart i (l.stageSeed outStart i b)
  rw [stageSeed_ub] at hseed
  rw [processRow_eq]
  cases hsample : l.sampleSeed fuel outStart i (l.stageSeed outStart i b) with
  | error b' =>
      rw [hsample] at hseed
      exact hseed
  | ok b' =>
      rw [hsample] at hseed
      show _ ⊆ (flushFull rowBegin b').ub.pickWrites
      rw [Block.flushFull_ub]
      exact hseed

lemma processRow_overflow (hfits : ¬ l.RowFits i) (fuel rowBegin outStart : ℕ) (b : Block) :
    l.sampler.windowElems ∈ (reached (l.processRow fuel rowBegin outStart b i)).ub.pickWrites := by
  have hseed := sampleSeed_overflow hfits fuel outStart (l.stageSeed outStart i b)
  rw [processRow_eq]
  cases hsample : l.sampleSeed fuel outStart i (l.stageSeed outStart i b) with
  | error b' =>
      rw [hsample] at hseed
      exact hseed
  | ok b' =>
      rw [hsample] at hseed
      show _ ∈ (flushFull rowBegin b').ub.pickWrites
      rw [Block.flushFull_ub]
      exact hseed

/-! ## A block of the fused kernel -/

/-- Every row that the block comes to fits. -/
def RowsFit (l : UniformLaunch) : List ℕ → Prop
  | [] => True
  | i :: is => l.RowFits i ∧ (l.RowEnds i → l.RowsFit is)

/-- The loop over rows that fit stays within the buffers. -/
lemma processRows_within (hfits : l.RowsFit is) (hb : b.Within l.sampler.windowElems)
    (hroom : b.Room) (fuel rowBegin outStart : ℕ) :
    (reached (is.foldlM (l.processRow fuel rowBegin outStart) b)).Within l.sampler.windowElems ∧
      ∀ b', is.foldlM (l.processRow fuel rowBegin outStart) b = .ok b' → b'.Room := by
  induction is generalizing b with
  | nil =>
      refine ⟨hb, fun b' heq => ?_⟩
      injection heq with heq
      exact heq ▸ hroom
  | cons i is ih =>
      obtain ⟨hwithin, hnext⟩ := processRow_within hfits.1 hb hroom fuel rowBegin outStart
      rw [List.foldlM_cons]
      cases hrow : l.processRow fuel rowBegin outStart b i with
      | error b' =>
          rw [hrow] at hwithin
          exact ⟨hwithin, nofun⟩
      | ok b' =>
          rw [hrow] at hwithin
          have hends : l.RowEnds i := by
            rw [processRow_eq] at hrow
            cases hsample : l.sampleSeed fuel outStart i (l.stageSeed outStart i b) with
            | error b'' =>
                rw [hsample] at hrow
                cases hrow
            | ok b'' => exact rowEnds_of_ok hsample
          exact ih (hfits.2 hends) hwithin (hnext b' hrow)

lemma processRows_kept (is : List ℕ) (fuel rowBegin outStart : ℕ) (b : Block) :
    b.ub.pickWrites ⊆
      (reached (is.foldlM (l.processRow fuel rowBegin outStart) b)).ub.pickWrites := by
  induction is generalizing b with
  | nil => exact List.Subset.refl _
  | cons i is ih =>
      have hkept := processRow_kept (l := l) fuel rowBegin outStart i b
      rw [List.foldlM_cons]
      cases hrow : l.processRow fuel rowBegin outStart b i with
      | error b' =>
          rw [hrow] at hkept
          exact hkept
      | ok b' =>
          rw [hrow] at hkept
          exact List.Subset.trans hkept (ih b')

/-- The loop comes to the row that does not fit. -/
lemma processRows_overflow (hfits : ¬ l.RowsFit is) (rowBegin outStart : ℕ) (b : Block) :
    ∃ fuel₀, ∀ fuel ≥ fuel₀, l.sampler.windowElems ∈
      (reached (is.foldlM (l.processRow fuel rowBegin outStart) b)).ub.pickWrites := by
  induction is generalizing b with
  | nil => exact absurd trivial hfits
  | cons i is ih =>
      by_cases hrow : l.RowFits i
      · rw [RowsFit, not_and] at hfits
        obtain ⟨hends, hrest⟩ := Classical.not_imp.1 (hfits hrow)
        obtain ⟨fuel₁, b', hok⟩ := sampleSeed_ok hrow hends outStart (l.stageSeed outStart i b)
        obtain ⟨fuel₂, hmem⟩ := ih hrest (flushFull rowBegin b')
        refine ⟨max fuel₁ fuel₂, fun fuel hle => ?_⟩
        rw [List.foldlM_cons, processRow_eq, hok fuel ((le_max_left _ _).trans hle)]
        exact hmem fuel ((le_max_right _ _).trans hle)
      · refine ⟨0, fun fuel _ => ?_⟩
        have hmem := processRow_overflow hrow fuel rowBegin outStart b
        rw [List.foldlM_cons]
        cases hok : l.processRow fuel rowBegin outStart b i with
        | error b' =>
            rw [hok] at hmem
            exact hmem
        | ok b' =>
            rw [hok] at hmem
            exact processRows_kept is fuel rowBegin outStart b' hmem

/-- The rows of a block fit if the first ones that end are followed by one that fits. -/
lemma rowsFit_iff (begin_ n : ℕ) : l.RowsFit (List.range' begin_ n) ↔
    ∀ i, begin_ ≤ i → i < begin_ + n → (∀ j, begin_ ≤ j → j < i → l.RowEnds j) → l.RowFits i := by
  induction n generalizing begin_ with
  | zero =>
      refine ⟨fun _ i hle hlt => ?_, fun _ => trivial⟩
      omega
  | succ n ih =>
      rw [List.range'_succ, RowsFit, ih]
      constructor
      · rintro ⟨hfirst, hrest⟩ i hle hlt hends
        by_cases hi : i = begin_
        · rwa [hi]
        · apply hrest (hends begin_ (le_refl _) (by omega)) i (by omega) (by omega)
          exact fun j hj hji => hends j (by omega) hji
      · intro hall
        refine ⟨hall begin_ (le_refl _) (by omega) fun j hj hji => by omega, ?_⟩
        intro hfirst i hle hlt hends
        apply hall i (by omega) (by omega)
        intro j hj hji
        by_cases hjb : j = begin_
        · rwa [hjb]
        · exact hends j (by omega) hji

/-- The last prefix sum is staged, and what is staged is flushed. -/
def flushRest (rowBegin outStart : ℕ) (b : Block) : Block :=
  let b := (b.stagePtr ((outStart + b.offset) % 2 ^ 32)).flushOutPtr rowBegin
  if 0 < b.pairsStaged then b.flushSeedPairs rowBegin else b

lemma flushRest_ub (rowBegin outStart : ℕ) (b : Block) : (flushRest rowBegin outStart b).ub = b.ub := by
  rw [flushRest]
  split_ifs
  · rfl
  · rfl

lemma flushRest_within {size : ℕ} (hb : b.Within size) (hroom : b.Room) (rowBegin outStart : ℕ) :
    (flushRest rowBegin outStart b).Within size := by
  have hptr := Block.flushOutPtr_within (Block.stagePtr_within hb
    (hroom.outPtr.trans (Nat.lt_succ_self _)) ((outStart + b.offset) % 2 ^ 32)) rowBegin
  rw [flushRest]
  split_ifs
  · exact Block.flushSeedPairs_within hptr rowBegin
  · exact hptr

lemma processFused_eq {rowEnd : ℕ} (hrows : ¬ rowEnd ≤ rowBegin) (u : Ub) :
    l.processFused fuel rowBegin rowEnd outStart u =
      match (List.range' rowBegin (rowEnd - rowBegin)).foldlM (l.processRow fuel rowBegin outStart)
        (Block.start u) with
      | .error b => .error b
      | .ok b => .ok (flushRest rowBegin outStart b) := by
  rw [processFused, if_neg hrows]
  cases (List.range' rowBegin (rowEnd - rowBegin)).foldlM (l.processRow fuel rowBegin outStart)
    (Block.start u) with
  | error b => rfl
  | ok b => rfl

/-- **A block of the fused kernel** stays within its buffers, however far it gets, exactly when every
row that it comes to fits. -/
theorem processFused_within_iff (rowBegin rowEnd outStart : ℕ) {u : Ub} (hu : u.Within l.sampler.windowElems) :
    (∀ fuel, (reached (l.processFused fuel rowBegin rowEnd outStart u)).Within
        l.sampler.windowElems) ↔
      ∀ i, rowBegin ≤ i → i < rowEnd → (∀ j, rowBegin ≤ j → j < i → l.RowEnds j) → l.RowFits i := by
  have hstart : (Block.start u).Within l.sampler.windowElems := ⟨hu, nofun, nofun⟩
  have hpos : 0 < metaRows := by decide
  have hroom : (Block.start u).Room := ⟨hpos, hpos⟩
  by_cases hidle : rowEnd ≤ rowBegin
  · refine ⟨fun _ i hle hlt => by omega, fun _ fuel => ?_⟩
    rw [processFused, if_pos hidle]
    exact hstart
  · have hrows := rowsFit_iff (l := l) rowBegin (rowEnd - rowBegin)
    rw [Nat.add_sub_cancel' (Nat.not_le.1 hidle).le] at hrows
    rw [← hrows]
    constructor
    · intro hwithin
      by_contra hfits
      obtain ⟨fuel, hmem⟩ := processRows_overflow hfits rowBegin outStart (Block.start u)
      replace hmem := hmem fuel (le_refl _)
      have hub := (hwithin fuel).ub.picks l.sampler.windowElems
      rw [processFused_eq hidle] at hub
      cases hrun : (List.range' rowBegin (rowEnd - rowBegin)).foldlM
          (l.processRow fuel rowBegin outStart) (Block.start u) with
      | error b' =>
          rw [hrun] at hub hmem
          exact lt_irrefl _ (hub hmem)
      | ok b' =>
          rw [hrun] at hub hmem
          replace hub : _ ∈ (flushRest rowBegin outStart b').ub.pickWrites → _ := hub
          rw [flushRest_ub] at hub
          exact lt_irrefl _ (hub hmem)
    · intro hfits fuel
      obtain ⟨hwithin, hlast⟩ := processRows_within hfits hstart hroom fuel rowBegin outStart
      rw [processFused_eq hidle]
      cases hrun : (List.range' rowBegin (rowEnd - rowBegin)).foldlM
          (l.processRow fuel rowBegin outStart) (Block.start u) with
      | error b' =>
          rw [hrun] at hwithin
          exact hwithin
      | ok b' =>
          rw [hrun] at hwithin
          exact flushRest_within hwithin (hlast b' hrun) rowBegin outStart

/-! ## A block of the plain kernel -/

/-- The rows that the plain kernel samples in UB have no more picks than the window holds. -/
def RowFitsPlain (l : UniformLaunch) (i : ℕ) : Prop :=
  (l.task i 0 0).deg ≤ l.sampler.windowElems → (l.task i 0 0).numPicks ≤ l.sampler.windowElems

variable {x : Ub × ℕ × List (ℕ × ℕ)}

/-- The arguments of the sampling of a seed row. -/
abbrev plainTask (l : UniformLaunch) (outStart i : ℕ) (x : Ub × ℕ × List (ℕ × ℕ)) : RowTask :=
  l.task i (l.rows.getD i 0).toNat ((outStart + x.2.1) % 2 ^ 32)

lemma processRowPlain_ub (l : UniformLaunch) (outStart i : ℕ) (x : Ub × ℕ × List (ℕ × ℕ)) :
    (l.processRowPlain outStart x i).1 =
      if 0 < (l.task i 0 0).numPicks then
        l.sampleRowPlain (l.plainTask outStart i x) { x.1 with rng := l.rowState i }
      else x.1 := by
  by_cases hpos : 0 < (l.task i 0 0).numPicks
  · have heq : l.processRowPlain outStart x i = _ := if_pos hpos
    rw [heq, if_pos hpos]
  · have heq : l.processRowPlain outStart x i = _ := if_neg hpos
    rw [heq, if_neg hpos]

lemma sampleRowPlain_small {t : RowTask} (hsmall : t.deg ≤ l.sampler.windowElems) (u : Ub) :
    l.sampleRowPlain t u = l.sampler.sampleRowThroughUb t u := if_pos hsmall

lemma sampleRowPlain_large {t : RowTask} (hlarge : ¬ t.deg ≤ l.sampler.windowElems) (u : Ub) :
    l.sampleRowPlain t u = l.sampleRowDirectGm t u := if_neg hlarge

lemma processRowPlain_writes {n : ℕ} (hn : (l.task i 0 0).deg ≤ l.sampler.windowElems →
    (l.task i 0 0).numPicks ≤ n) (outStart : ℕ) (x : Ub × ℕ × List (ℕ × ℕ)) :
    Ub.Writes n n x.1 (l.processRowPlain outStart x i).1 := by
  rw [processRowPlain_ub]
  by_cases hpos : 0 < (l.task i 0 0).numPicks
  · rw [if_pos hpos]
    set u : Ub := { x.1 with rng := l.rowState i } with hu
    have hsame : Ub.Writes n n x.1 u := ⟨List.Subset.refl _, fun _ => Or.inl, fun _ => Or.inl⟩
    apply hsame.trans
    by_cases hsmall : (l.task i 0 0).deg ≤ l.sampler.windowElems
    · rw [sampleRowPlain_small (t := l.plainTask outStart i x) hsmall]
      exact (Sampler.sampleRowThroughUb_writes l.sampler _ u).mono (hn hsmall) (hn hsmall)
    · rw [sampleRowPlain_large (t := l.plainTask outStart i x) hsmall]
      exact ⟨List.Subset.refl _, fun _ => Or.inl, fun _ => Or.inl⟩
  · rw [if_neg hpos]
    exact Ub.Writes.refl x.1

lemma processRowPlain_kept (l : UniformLaunch) (outStart i : ℕ) (x : Ub × ℕ × List (ℕ × ℕ)) :
    x.1.pickWrites ⊆ (l.processRowPlain outStart x i).1.pickWrites :=
  (processRowPlain_writes (fun _ => le_refl (l.task i 0 0).numPicks) outStart x).kept

/-- A row in UB with too many picks writes past the scratch. -/
lemma processRowPlain_overflow (hfits : ¬ l.RowFitsPlain i) (outStart : ℕ)
    (x : Ub × ℕ × List (ℕ × ℕ)) :
    l.sampler.windowElems ∈ (l.processRowPlain outStart x i).1.pickWrites := by
  obtain ⟨hsmall, hmany⟩ := Classical.not_imp.1 hfits
  rw [Nat.not_le] at hmany
  rw [processRowPlain_ub, if_pos (Nat.zero_lt_of_lt hmany),
    sampleRowPlain_small (t := l.plainTask outStart i x) hsmall]
  exact (Sampler.stage_writes (n := 0) l.sampler _ _).kept
    (Sampler.mem_choose l.sampler (l.plainTask outStart i x) _ hmany)

lemma processRowsPlain_kept (l : UniformLaunch) (is : List ℕ) (outStart : ℕ) (x : Ub × ℕ × List (ℕ × ℕ)) :
    x.1.pickWrites ⊆ (is.foldl (l.processRowPlain outStart) x).1.pickWrites := by
  induction is generalizing x with
  | nil => exact List.Subset.refl _
  | cons i is ih => exact List.Subset.trans (l.processRowPlain_kept outStart i x) (ih _)

/-- The loop stays within the buffers exactly when all its rows fit. -/
lemma processRowsPlain_within_iff (is : List ℕ) (outStart : ℕ) {x : Ub × ℕ × List (ℕ × ℕ)}
    (hx : x.1.Within l.sampler.windowElems) :
    (is.foldl (l.processRowPlain outStart) x).1.Within l.sampler.windowElems ↔
      ∀ i ∈ is, l.RowFitsPlain i := by
  induction is generalizing x with
  | nil => exact ⟨fun _ => nofun, fun _ => hx⟩
  | cons i is ih =>
      rw [List.foldl_cons, List.forall_mem_cons]
      by_cases hfits : l.RowFitsPlain i
      · have hnext := (processRowPlain_writes hfits outStart x).within hx (le_refl _) (le_refl _)
        rw [ih hnext]
        exact ⟨fun hrest => ⟨hfits, hrest⟩, fun h => h.2⟩
      · refine ⟨fun hwithin => ?_, fun h => absurd h.1 hfits⟩
        have hmem := l.processRowsPlain_kept is outStart _
          (processRowPlain_overflow hfits outStart x)
        exact absurd (hwithin.picks _ hmem) (lt_irrefl _)

/-- **A block of the plain kernel** stays within its buffers exactly when its rows fit. -/
theorem processPlain_within_iff (rowBegin rowEnd outStart : ℕ) {u : Ub} (hu : u.Within l.sampler.windowElems) :
    (l.processPlain rowBegin rowEnd outStart u).1.Within l.sampler.windowElems ↔
      ∀ i, rowBegin ≤ i → i < rowEnd → l.RowFitsPlain i := by
  by_cases hidle : rowEnd ≤ rowBegin
  · rw [processPlain, if_pos hidle]
    exact ⟨fun _ i hle hlt => by omega, fun _ => hu⟩
  · have hub : (l.processPlain rowBegin rowEnd outStart u).1 =
        ((List.range' rowBegin (rowEnd - rowBegin)).foldl (l.processRowPlain outStart)
          (u, 0, [])).1 := by
      rw [processPlain, if_neg hidle]
      split_ifs
      · rfl
      · rfl
    rw [hub, processRowsPlain_within_iff (x := (u, 0, [])) _ outStart hu]
    constructor
    · intro hall i hle hlt
      apply hall i
      rw [List.mem_range'_1]
      omega
    · intro hall i hi
      rw [List.mem_range'_1] at hi
      exact hall i hi.1 (by omega)

end UniformLaunch

/-! ## Launches -/

namespace UniformCall

variable {c : UniformCall} {d : Device}

/-- No index that the plain kernel writes is past its buffers. -/
def SafePlain (c : UniformCall) (d : Device) : Prop :=
  ∀ xs, c.csrRowWiseSamplingUniform d = .ok xs → ∀ x ∈ xs, x.1.Within (c.window d)

/-- No index that the fused kernel writes is past its buffers, however far the cores get. -/
def SafeFused (c : UniformCall) (d : Device) : Prop :=
  ∀ fuel bs, c.csrRowWiseSamplingUniformFused d fuel = .ok bs →
    ∀ b ∈ bs, (reached b).Within (c.windowFused d)

/-- The plain launcher accepts the call and starts the kernel. -/
structure LaunchesPlain (c : UniformCall) : Prop where
  something : c.nothing = false
  size_le : c.maxOutput ≤ c.maxId
  size_ne : c.maxOutput ≠ 0

/-- The fused launcher accepts the call and starts the kernel. -/
structure LaunchesFused (c : UniformCall) (d : Device) : Prop extends LaunchesPlain c where
  mapping : c.mapSeedNodes → c.mappingBits = c.csr.bits
  fanout_le : c.replaces → c.fanout ≤ c.windowFused d
  rows_lt : c.rows.length < 2 ^ 32
  csr_lt : c.csr.numRows < 2 ^ 32

/-- With replacement, a row in UB is not asked for more picks than the window holds. -/
def FitsPlain (c : UniformCall) (W : ℕ) : Prop :=
  c.replaces → ∀ i < c.numRows, let rid := c.rows.getD i 0
    (c.launch W).ridValid rid → 0 < (c.launch W).degree rid → (c.launch W).degree rid ≤ W →
      c.fanout ≤ W

/-- Without replacement, no row that a core comes to has more edges than the fanout and the fanout is
more than the window holds. -/
def FitsFused (c : UniformCall) (d : Device) : Prop :=
  let l := c.launch (c.windowFused d)
  let bound := (Prep.rowSplit c.picks d.coresFused_pos).bound
  c.selectAll = false → c.replaces = false → ∀ p < d.coresFused, ∀ i, InSlot bound p i →
    (∀ j, bound p ≤ j → j < i → l.RowEnds j) →
      l.ridValid (c.rows.getD i 0) → c.fanout < l.degree (c.rows.getD i 0) →
        c.fanout ≤ c.windowFused d

lemma fresh_within (d : Device) (block size : ℕ) : (d.fresh block).Within size := ⟨nofun, nofun⟩

lemma launch_rows_getD (c : UniformCall) (W : ℕ) {i : ℕ} (hi : i < c.numRows) :
    (c.launch W).rows.getD i 0 = c.rows.getD i 0 := by
  show (c.rows.take c.numRows).getD i 0 = _
  rw [List.getD_eq_getElem?_getD, List.getElem?_take_of_lt hi, ← List.getD_eq_getElem?_getD]

lemma task_numPicks (c : UniformCall) (W : ℕ) {i : ℕ} (hi : i < c.numRows) (row outPos : ℕ) :
    ((c.launch W).task i row outPos).numPicks =
      if (c.launch W).ridValid (c.rows.getD i 0) then
        (c.launch W).sampler.numPicks c.fanout ((c.launch W).degree (c.rows.getD i 0))
      else 0 := by
  show (c.launch W).rowPicks ((c.launch W).rows.getD i 0) = _
  rw [launch_rows_getD c W hi]
  rfl

lemma task_deg (c : UniformCall) (W : ℕ) {i : ℕ} (hi : i < c.numRows) (row outPos : ℕ) :
    ((c.launch W).task i row outPos).deg = (c.launch W).degree (c.rows.getD i 0) := by
  show (c.launch W).degree ((c.launch W).rows.getD i 0) = _
  rw [launch_rows_getD c W hi]

lemma selectAll_of_replaces (hrep : c.replaces = true) : c.selectAll = false := by
  rw [replaces, Bool.and_eq_true, Bool.not_eq_true'] at hrep
  exact hrep.2

/-- The picks of a valid row with replacement. -/
lemma numPicks_replaces {W deg : ℕ} (hrep : c.replaces = true) (hdeg : 0 < deg) :
    (c.launch W).sampler.numPicks c.fanout deg = c.fanout := by
  rw [Sampler.numPicks, if_pos hdeg]
  show (if c.selectAll = true then deg else if c.replaces = true then c.fanout else _) = _
  rw [selectAll_of_replaces hrep, hrep, if_neg Bool.false_ne_true, if_pos rfl]

lemma numPicks_le {W deg : ℕ} (hrep : c.replaces = false) :
    (c.launch W).sampler.numPicks c.fanout deg ≤ deg := by
  rw [Sampler.numPicks]
  split_ifs with hdeg hall hrep'
  · exact le_refl deg
  · have hno : c.replaces = true := hrep'
    rw [hrep] at hno
    cases hno
  · exact min_le_left _ _
  · exact Nat.zero_le _

lemma fitsPlain_iff (c : UniformCall) (W : ℕ) :
    c.FitsPlain W ↔ ∀ i < c.numRows, (c.launch W).RowFitsPlain i := by
  constructor
  · intro hfits i hi hsmall
    rw [task_deg c W hi] at hsmall
    rw [task_numPicks c W hi]
    replace hsmall : (c.launch W).degree (c.rows.getD i 0) ≤ W := hsmall
    show _ ≤ W
    by_cases hvalid : (c.launch W).ridValid (c.rows.getD i 0) = true
    · rw [if_pos hvalid]
      by_cases hrep : c.replaces = true
      · by_cases hdeg : 0 < (c.launch W).degree (c.rows.getD i 0)
        · rw [numPicks_replaces hrep hdeg]
          exact hfits hrep i hi hvalid hdeg hsmall
        · rw [Sampler.numPicks, if_neg hdeg]
          exact Nat.zero_le W
      · exact (numPicks_le (Bool.eq_false_of_not_eq_true hrep)).trans hsmall
    · rw [if_neg hvalid]
      exact Nat.zero_le W
  · intro hall hrep i hi rid hvalid hdeg hsmall
    have hfits := hall i hi
    rw [RowFitsPlain, task_deg c W hi, task_numPicks c W hi, if_pos hvalid,
      numPicks_replaces hrep hdeg] at hfits
    exact hfits hsmall

/-- The picks of a row without replacement when not all edges are asked for. -/
lemma numPicks_min {W deg : ℕ} (hall : c.selectAll = false) (hrep : c.replaces = false)
    (hdeg : 0 < deg) : (c.launch W).sampler.numPicks c.fanout deg = min deg c.fanout := by
  rw [Sampler.numPicks, if_pos hdeg]
  show (if c.selectAll = true then deg else if c.replaces = true then c.fanout else _) = _
  rw [hall, hrep, if_neg Bool.false_ne_true, if_neg Bool.false_ne_true]

/-- When a row fits, if the launcher has seen to sampling with replacement. -/
lemma rowFits_iff {W i : ℕ} (hi : i < c.numRows) (hfan : c.replaces = true → c.fanout ≤ W) :
    (c.launch W).RowFits i ↔ (c.selectAll = false → c.replaces = false →
      (c.launch W).ridValid (c.rows.getD i 0) = true →
        c.fanout < (c.launch W).degree (c.rows.getD i 0) → c.fanout ≤ W) := by
  have hpicks := task_numPicks c W hi i 0
  have hdeg := task_deg c W hi i 0
  constructor
  · intro hfits hall hrep hvalid hlt
    rw [if_pos hvalid, numPicks_min hall hrep (Nat.zero_lt_of_lt hlt), min_eq_right hlt.le] at hpicks
    by_cases hzero : c.fanout = 0
    · rw [hzero]
      exact Nat.zero_le W
    · rcases hfits (by rw [hpicks]; exact Nat.pos_of_ne_zero hzero) with htakes | hle
      · -- The row has more edges than picks.
        rw [Sampler.takesAll, hpicks, hdeg] at htakes
        replace htakes : (c.selectAll || (!c.replaces && decide (c.fanout = _))) = true := htakes
        rw [hall, hrep, Bool.false_or, Bool.not_false, Bool.true_and, decide_eq_true_eq] at htakes
        exact absurd htakes hlt.ne
      · rwa [hpicks] at hle
  · intro hsmall hpos
    have hvalid : (c.launch W).ridValid (c.rows.getD i 0) = true := by
      by_contra hno
      rw [hpicks, if_neg hno] at hpos
      exact lt_irrefl 0 hpos
    have hdegpos := (task_counts hpos).deg_pos
    rw [hdeg] at hdegpos
    rw [if_pos hvalid] at hpicks
    by_cases hall : c.selectAll = true
    · left
      show (c.selectAll || _) = true
      rw [hall, Bool.true_or]
    · by_cases hrep : c.replaces = true
      · right
        rw [hpicks, numPicks_replaces hrep hdegpos]
        exact hfan hrep
      · rw [Bool.not_eq_true] at hall hrep
        rw [numPicks_min hall hrep hdegpos] at hpicks
        by_cases hlt : c.fanout < (c.launch W).degree (c.rows.getD i 0)
        · right
          rw [hpicks]
          exact (min_le_right _ _).trans (hsmall hall hrep hvalid hlt)
        · left
          rw [min_eq_left (Nat.not_lt.1 hlt)] at hpicks
          rw [Sampler.takesAll, hpicks, hdeg]
          show (c.selectAll || (!c.replaces && decide (_ = _))) = true
          rw [hall, hrep, decide_eq_true rfl]
          rfl

/-- What the plain launcher returns when it starts the kernel. -/
lemma plain_launches (h : c.LaunchesPlain) (d : Device) :
    c.csrRowWiseSamplingUniform d = .ok ((List.range d.cores).map fun block =>
      (c.launch (c.window d)).processPlain ((balancedSplit c.picks d.cores_pos).bound block)
        ((balancedSplit c.picks d.cores_pos).bound (block + 1))
        ((c.picks.take ((balancedSplit c.picks d.cores_pos).bound block)).sum % 2 ^ 32)
        (d.fresh block)) := by
  rw [csrRowWiseSamplingUniform, if_neg (by rw [h.something]; exact Bool.false_ne_true),
    if_neg (Nat.not_lt.2 h.size_le), if_neg h.size_ne]

/-- The plain launcher returns nothing or starts the kernel. -/
lemma plain_ok {xs : List (Ub × ℕ × List (ℕ × ℕ))} (hok : c.csrRowWiseSamplingUniform d = .ok xs) :
    xs = [] ∨ c.LaunchesPlain := by
  rw [csrRowWiseSamplingUniform] at hok
  split_ifs at hok with h1 h2 h3
  · injection hok with hok
    exact Or.inl hok.symm
  · injection hok with hok
    exact Or.inl hok.symm
  · exact Or.inr ⟨Bool.eq_false_of_not_eq_true h1, Nat.not_lt.1 h2, h3⟩

lemma safePlain_iff (c : UniformCall) (d : Device) :
    c.SafePlain d ↔ (c.LaunchesPlain → c.FitsPlain (c.window d)) := by
  have hblock (block : ℕ) := processPlain_within_iff (l := c.launch (c.window d))
    ((balancedSplit c.picks d.cores_pos).bound block)
    ((balancedSplit c.picks d.cores_pos).bound (block + 1))
    ((c.picks.take ((balancedSplit c.picks d.cores_pos).bound block)).sum % 2 ^ 32)
    (fresh_within d block (c.window d))
  constructor
  · intro hsafe hlaunch
    rw [fitsPlain_iff]
    intro i hi
    rw [← length_picks] at hi
    obtain ⟨block, hlt, hin⟩ := (balancedSplit c.picks d.cores_pos).exists_block hi
    have hwithin := hsafe _ (plain_launches hlaunch d) _
      (List.mem_map_of_mem (List.mem_range.2 hlt))
    exact (hblock block).1 hwithin i hin.1 hin.2
  · intro hfits xs hok x hx
    rcases plain_ok hok with rfl | hlaunch
    · cases hx
    · rw [plain_launches hlaunch d] at hok
      injection hok with hok
      subst hok
      obtain ⟨block, hlt, rfl⟩ := List.mem_map.1 hx
      apply (hblock block).2
      intro i hle hi
      have hrow := (balancedSplit c.picks d.cores_pos).lt (List.mem_range.1 hlt) ⟨hle, hi⟩
      rw [length_picks] at hrow
      exact (fitsPlain_iff c (c.window d)).1 (hfits hlaunch) i hrow

/-- What the fused launcher returns when it starts the kernel. -/
lemma fused_launches (h : c.LaunchesFused d) (fuel : ℕ) :
    c.csrRowWiseSamplingUniformFused d fuel = .ok ((List.range d.coresFused).map fun block =>
      (c.launch (c.windowFused d)).processFused fuel
        ((Prep.rowSplit c.picks d.coresFused_pos).bound block)
        ((Prep.rowSplit c.picks d.coresFused_pos).bound (block + 1))
        ((Prep.startsLocal c.picks d.coresFused).getD block 0) (d.fresh block)) := by
  have hmapping : ¬ (c.mapSeedNodes = true ∧ c.mappingBits ≠ c.csr.bits) :=
    fun hno => hno.2 (h.mapping hno.1)
  have hfanout : ¬ (c.replaces = true ∧ c.windowFused d < c.fanout) :=
    fun hno => absurd (h.fanout_le hno.1) (Nat.not_le.2 hno.2)
  rw [csrRowWiseSamplingUniformFused, if_neg hmapping,
    if_neg (by rw [h.something]; exact Bool.false_ne_true), if_neg hfanout,
    if_neg (Nat.not_lt.2 h.size_le), if_neg (Nat.not_le.2 h.rows_lt), if_neg (Nat.not_le.2 h.csr_lt),
    if_neg h.size_ne]

/-- The fused launcher returns nothing or starts the kernel. -/
lemma fused_ok {fuel : ℕ} {bs : List (Except Block Block)}
    (hok : c.csrRowWiseSamplingUniformFused d fuel = .ok bs) : bs = [] ∨ c.LaunchesFused d := by
  rw [csrRowWiseSamplingUniformFused] at hok
  split_ifs at hok with h1 h2 h3 h4 h5 h6 h7
  · injection hok with hok
    exact Or.inl hok.symm
  · injection hok with hok
    exact Or.inl hok.symm
  · refine Or.inr ⟨⟨Bool.eq_false_of_not_eq_true h2, Nat.not_lt.1 h4, h7⟩, fun hmap => ?_,
      fun hrep => ?_, Nat.not_le.1 h5, Nat.not_le.1 h6⟩
    · by_contra hne
      exact h1 ⟨hmap, hne⟩
    · exact Nat.not_lt.1 fun hlt => h3 ⟨hrep, hlt⟩

lemma safeFused_iff (c : UniformCall) (d : Device) :
    c.SafeFused d ↔ (c.LaunchesFused d → c.FitsFused d) := by
  have hblock (block : ℕ) := processFused_within_iff (l := c.launch (c.windowFused d))
    ((Prep.rowSplit c.picks d.coresFused_pos).bound block)
    ((Prep.rowSplit c.picks d.coresFused_pos).bound (block + 1))
    ((Prep.startsLocal c.picks d.coresFused).getD block 0)
    (fresh_within d block (c.windowFused d))
  have hrow {block i : ℕ} (hlt : block < d.coresFused)
      (hin : InSlot (Prep.rowSplit c.picks d.coresFused_pos).bound block i) : i < c.numRows :=
    ((Prep.rowSplit c.picks d.coresFused_pos).lt hlt hin).trans_eq c.length_picks
  constructor
  · intro hsafe hlaunch hall hrep block hlt i hin hends
    have hwithin (fuel : ℕ) := hsafe fuel _ (fused_launches hlaunch fuel) _
      (List.mem_map_of_mem (List.mem_range.2 hlt))
    have hfits := (hblock block).1 hwithin i hin.1 hin.2 hends
    exact (rowFits_iff (hrow hlt hin) hlaunch.fanout_le).1 hfits hall hrep
  · intro hfits fuel bs hok b hb
    rcases fused_ok hok with rfl | hlaunch
    · cases hb
    · rw [fused_launches hlaunch fuel] at hok
      injection hok with hok
      subst hok
      obtain ⟨block, hlt, rfl⟩ := List.mem_map.1 hb
      rw [List.mem_range] at hlt
      apply (hblock block).2
      intro i hle hi hends
      apply (rowFits_iff (hrow hlt ⟨hle, hi⟩) hlaunch.fanout_le).2
      exact fun hall hrep => hfits hlaunch hall hrep block hlt i ⟨hle, hi⟩ hends

/-- **No scratch overflows** in the plain sampler exactly when rows that are sampled in UB with
replacement are asked for no more picks than the window holds, and in the fused sampler exactly when
rows that are sampled without replacement are. -/
theorem scratch_safe_iff (c : UniformCall) (d : Device) :
    (c.SafePlain d ↔ (c.LaunchesPlain → c.FitsPlain (c.window d))) ∧
      (c.SafeFused d ↔ (c.LaunchesFused d → c.FitsFused d)) :=
  ⟨safePlain_iff c d, safeFused_iff c d⟩

/-- A device with 40 cores and 192 KB of UB, of which 2 KB are reserved. -/
def device910B : Device where
  cores := 40
  ubAvailable := 192 * 1024 - 2 * 1024
  memory := fun _ => (fun _ => 0, fun _ => (0, 0, 0))
  cores_pos := by decide

/-- 2000 picks from a row of `deg` edges. -/
def manyPicks (deg : ℕ) (replace : Bool) : UniformCall where
  csr :=
    { bits := 64, numRows := 1, numCols := 1, indptr := [0, deg], indices := List.replicate deg 0,
      data := [], sorted := true }
  rows := [0]
  numSamples := 2000
  replace := replace
  mapSeedNodes := false
  mappingBits := 0
  seed := 0
  outside := fun _ => 0

/-- The plain sampler draws 2000 picks of one edge into 1520 places, and the fused sampler keeps 2000
of 3000 edges in 1471 places. -/
theorem scratch_overflows :
    ¬ (manyPicks 1 true).SafePlain device910B ∧ ¬ (manyPicks 3000 false).SafeFused device910B := by
  constructor
  · rw [safePlain_iff]
    intro hsafe
    have hfits := hsafe ⟨by decide, by decide, by decide⟩
    exact absurd (hfits (by decide) 0 (by decide) (by decide) (by decide) (by decide)) (by decide)
  · rw [safeFused_iff]
    intro hsafe
    have hfits := hsafe ⟨⟨by decide, by decide, by decide⟩, by decide, by decide, by decide, by decide⟩
    obtain ⟨block, hlt, hin⟩ := (Prep.rowSplit (manyPicks 3000 false).picks
      device910B.coresFused_pos).exists_block (i := 0) (by decide)
    exact absurd (hfits (by decide) (by decide) block hlt 0 hin (fun j _ hj => absurd hj (Nat.not_lt_zero j))
      (by decide) (by decide)) (by decide)

end UniformCall

end DglAscend.Ascend
