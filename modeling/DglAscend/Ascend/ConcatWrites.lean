import DglAscend.Ascend.ConcatCores

/-!
# What the cores write

A core whose search ends at the input of its first chunk copies its share, input by input.  So the output
is written once exactly if the shares have no overflow and the searches end.
-/

namespace DglAscend.Ascend

open Aten

variable {α : Type}

namespace ConcatPlan

variable {P : ConcatPlan} {ins : List (NDArray α)} (h : P.Fits ins) (blocks : ℕ) {i x stop : ℕ}

omit h in
lemma launch_input (hi : i < ins.length) : (P.launch ins blocks).input i = P.desc ins i := by
  show ((List.range ins.length).map (P.desc ins)).getD i _ = _
  rw [List.getD_eq_getElem _ _ (by rwa [List.length_map, List.length_range]), List.getElem_map,
    List.getElem_range]

include h

lemma Fits.chunks_lt : P.chunks ins < 2 ^ 32 := (chunks_le h.chunkElems ins).trans_lt h.small

/-- The inputs end where the next ones begin. -/
lemma Fits.inputEnd_eq (hi : i < ins.length) :
    (P.launch ins blocks).inputEnd (P.desc ins i) = P.chunkBase ins (i + 1) := by
  have hle : P.chunkBase ins (i + 1) ≤ P.chunkBase ins ins.length :=
    boundary_mono (fun p hp => chunkBase_le hp) hi le_rfl
  have hlt := h.chunks_lt
  rw [chunkBase_length] at hle
  have hsucc := chunkBase_succ (P := P) hi
  show u32 (P.chunkBase ins i + u32 (P.outer * (P.desc ins i).chunksPerSeg)) = _
  rw [u32_eq (show P.outer * (P.desc ins i).chunksPerSeg < 2 ^ 32 by omega), ← hsucc, u32_eq (by omega)]

lemma Fits.copyInput_eq (hi : i < ins.length) (hbase : P.chunkBase ins i ≤ x) (hlt : x < stop)
    (ws : List (ℕ × Option α)) : (P.launch ins blocks).copyInput stop (x, ws) (P.desc ins i) =
      (max x (min stop (P.chunkBase ins (i + 1))),
        ws ++ (List.range' x (min stop (P.chunkBase ins (i + 1)) - x)).flatMap (P.task ins blocks)) := by
  have hcopy : (List.range' x (min stop (P.chunkBase ins (i + 1)) - x)).flatMap
      ((P.launch ins blocks).copyChunk (P.desc ins i)) =
        (List.range' x (min stop (P.chunkBase ins (i + 1)) - x)).flatMap (P.task ins blocks) := by
    apply List.flatMap_congr
    intro q hq
    have hq := List.mem_range'_1.1 hq
    exact (task_eq hi ⟨by omega, by omega⟩ blocks).symm
  have hstart : (if x < (P.desc ins i).chunkBase then (P.desc ins i).chunkBase else x) = x :=
    if_neg (Nat.not_lt.2 hbase)
  rw [← hcopy, ConcatLaunch.copyInput, if_neg (not_not.2 hlt)]
  simp only [hstart, h.inputEnd_eq blocks hi]

/-- The loop over the inputs copies the chunks up to the end of the share. -/
lemma Fits.copyInputs_eq (hstop : stop ≤ P.chunks ins) (m i x : ℕ) (hm : i + m = ins.length)
    (hx : P.chunkBase ins i ≤ x ∨ stop ≤ x) (ws : List (ℕ × Option α)) :
    (((P.launch ins blocks).inputs.drop i).foldl ((P.launch ins blocks).copyInput stop) (x, ws)).2 =
      ws ++ (List.range' x (stop - x)).flatMap (P.task ins blocks) := by
  induction m generalizing i x ws with
  | zero =>
      have hnil : (P.launch ins blocks).inputs.drop i = [] := by
        apply List.drop_of_length_le
        show ((List.range ins.length).map (P.desc ins)).length ≤ i
        rw [List.length_map, List.length_range]
        omega
      have hend : stop - x = 0 := by
        obtain rfl : i = ins.length := hm
        rw [chunkBase_length] at hx
        omega
      rw [hnil, hend]
      exact (List.append_nil ws).symm
  | succ m ih =>
      have hi : i < ins.length := by omega
      have hcons : (P.launch ins blocks).inputs.drop i =
          P.desc ins i :: (P.launch ins blocks).inputs.drop (i + 1) := by
        have hlen : i < ((List.range ins.length).map (P.desc ins)).length := by
          rwa [List.length_map, List.length_range]
        show ((List.range ins.length).map (P.desc ins)).drop i = _
        rw [List.drop_eq_getElem_cons hlen, List.getElem_map, List.getElem_range]
        rfl
      rw [hcons, List.foldl_cons]
      by_cases hlt : x < stop
      · rw [h.copyInput_eq blocks hi (by omega) hlt, ih (i + 1) _ (by omega) (by omega),
          List.append_assoc, ← List.flatMap_append]
        have hsplit := List.range'_append_1 (s := x) (m := min stop (P.chunkBase ins (i + 1)) - x)
          (n := stop - max x (min stop (P.chunkBase ins (i + 1))))
        rw [show x + (min stop (P.chunkBase ins (i + 1)) - x) =
            max x (min stop (P.chunkBase ins (i + 1))) by omega,
          show min stop (P.chunkBase ins (i + 1)) - x +
            (stop - max x (min stop (P.chunkBase ins (i + 1)))) = stop - x by omega] at hsplit
        rw [hsplit]
      · have hskip : (P.launch ins blocks).copyInput stop (x, ws) (P.desc ins i) = (x, ws) := if_pos hlt
        rw [hskip]
        exact ih (i + 1) x (by omega) (Or.inr (Nat.not_lt.1 hlt)) ws

omit h in
lemma share_eq (b : ℕ) : share (P.chunks ins) ((P.chunks ins + blocks - 1) / blocks) b =
    List.range' ((P.launch ins blocks).startChunk b)
      ((P.launch ins blocks).endChunk b - (P.launch ins blocks).startChunk b) := rfl

/-- The search looks for the input of the first chunk. -/
lemma Fits.stepsTo {i start : ℕ} (hi : i < ins.length) (hstart : InSlot (P.chunkBase ins) i start) :
    StepsTo ins.length i ((P.launch ins blocks).bisect start) := by
  intro s hs
  have hmono : ∀ p < ins.length, P.chunkBase ins p ≤ P.chunkBase ins (p + 1) := fun p hp => chunkBase_le hp
  have hiff : (P.launch ins blocks).inputEnd ((P.launch ins blocks).input (midpoint s)) ≤ start ↔
      midpoint s < i := by
    rw [launch_input blocks hs, h.inputEnd_eq blocks hs]
    constructor
    · intro hle
      by_contra hge
      have hbase : P.chunkBase ins (i + 1) ≤ P.chunkBase ins (midpoint s + 1) :=
        boundary_mono hmono (by omega) hs
      have hin := hstart.2
      omega
    · intro hlt
      exact (boundary_mono hmono hlt hi.le).trans hstart.1
  show (if (P.launch ins blocks).inputEnd ((P.launch ins blocks).input (midpoint s)) ≤ start then _
    else _) = _
  by_cases hlt : midpoint s < i
  · rw [if_pos (hiff.2 hlt), if_pos hlt]
    rfl
  · rw [if_neg fun hle => hlt (hiff.1 hle), if_neg hlt]
    rfl

variable {ws : List (ℕ × Option α)}

/-- A core that returns has written its share. -/
lemma Fits.run_eq {fuel b : ℕ} (hrun : (P.launch ins blocks).run fuel b = .ok ws) :
    ws = (share (P.chunks ins) ((P.chunks ins + blocks - 1) / blocks) b).flatMap (P.task ins blocks) := by
  rw [share_eq]
  by_cases hempty : (P.launch ins blocks).endChunk b ≤ (P.launch ins blocks).startChunk b
  · rw [ConcatLaunch.run, if_pos hempty] at hrun
    rw [Nat.sub_eq_zero_of_le hempty, ← Except.ok.inj hrun]
    rfl
  · have hend : (P.launch ins blocks).endChunk b ≤ P.chunks ins := Nat.min_le_right _ _
    obtain ⟨i, -, hi, hin⟩ := exists_inSlot (b := P.chunkBase ins) (Nat.zero_le ins.length)
      (w := (P.launch ins blocks).startChunk b) (by rw [chunkBase_zero]; exact Nat.zero_le _)
      (by rw [chunkBase_length]; omega)
    rw [ConcatLaunch.run, if_neg hempty] at hrun
    obtain ⟨s, hs, hrest⟩ := bind_eq_ok_iff.1 hrun
    have hfound := search_found hi (h.stepsTo blocks hi hin) hs
    have hcopies := h.copyInputs_eq blocks hend (ins.length - i) i ((P.launch ins blocks).startChunk b)
      (by omega) (Or.inl hin.1) []
    rw [← hfound] at hcopies
    exact (Except.ok.inj hrest).symm.trans hcopies

/-- A core that has a chunk returns exactly if its search ends. -/
lemma Fits.run_returns_iff {b i : ℕ}
    (hb : (P.launch ins blocks).startChunk b < (P.launch ins blocks).endChunk b) (hi : i < ins.length)
    (hin : InSlot (P.chunkBase ins) i ((P.launch ins blocks).startChunk b)) :
    (∃ fuel ws, (P.launch ins blocks).run fuel b = .ok ws) ↔ Reaches ins.length i := by
  rw [← search_returns_iff hi (h.stepsTo blocks hi hin)]
  constructor
  · rintro ⟨fuel, ws, hrun⟩
    rw [ConcatLaunch.run, if_neg (Nat.not_le.2 hb)] at hrun
    obtain ⟨s, hs, -⟩ := bind_eq_ok_iff.1 hrun
    exact ⟨fuel, s, hs⟩
  · rintro ⟨fuel, s, hs⟩
    have hrun : (P.launch ins blocks).run fuel b = .ok (((P.launch ins blocks).inputs.drop s.1).foldl
        ((P.launch ins blocks).copyInput ((P.launch ins blocks).endChunk b))
        ((P.launch ins blocks).startChunk b, [])).2 := by
      rw [ConcatLaunch.run, if_neg (Nat.not_le.2 hb)]
      exact bind_eq_ok_iff.2 ⟨s, hs, rfl⟩
    exact ⟨fuel, _, hrun⟩

omit h in
lemma run_mono {fuel fuel' b : ℕ} (hrun : (P.launch ins blocks).run fuel b = .ok ws)
    (hle : fuel ≤ fuel') : (P.launch ins blocks).run fuel' b = .ok ws := by
  rw [ConcatLaunch.run] at hrun ⊢
  split_ifs at hrun ⊢ with hempty
  · exact hrun
  · obtain ⟨s, hs, hrest⟩ := bind_eq_ok_iff.1 hrun
    exact bind_eq_ok_iff.2 ⟨s, whileLoop_mono hs hle, hrest⟩

/-- **When the cores return**, and what they have written together. -/
lemma Fits.returns_iff : (P.launch ins blocks).Returns ws ↔
    (∀ b < blocks, (P.launch ins blocks).startChunk b < (P.launch ins blocks).endChunk b →
      ∀ i < ins.length, InSlot (P.chunkBase ins) i ((P.launch ins blocks).startChunk b) →
        Reaches ins.length i) ∧
      ws = ((List.range blocks).flatMap
        (share (P.chunks ins) ((P.chunks ins + blocks - 1) / blocks))).flatMap (P.task ins blocks) := by
  constructor
  · rintro ⟨fuel, parts, hparts, rfl⟩
    obtain ⟨hlen, hall⟩ := (mapM_range_eq_ok_iff []).1 hparts
    refine ⟨fun b hb hlt i hi hin => (h.run_returns_iff blocks hlt hi hin).1 ⟨fuel, _, hall b hb⟩, ?_⟩
    have hpart : parts = (List.range blocks).map fun b =>
        (share (P.chunks ins) ((P.chunks ins + blocks - 1) / blocks) b).flatMap (P.task ins blocks) := by
      apply List.ext_getElem
      · rw [List.length_map, List.length_range]
        exact hlen
      · intro b hb hb'
        rw [List.getElem_map, List.getElem_range, ← List.getD_eq_getElem _ [] hb]
        exact h.run_eq blocks (hall b (hlen ▸ hb))
    rw [hpart, List.flatMap_assoc]
    rfl
  · rintro ⟨hreach, rfl⟩
    have hex (b : ℕ) : ∃ fuel, b < blocks → (P.launch ins blocks).run fuel b =
        .ok ((share (P.chunks ins) ((P.chunks ins + blocks - 1) / blocks) b).flatMap
          (P.task ins blocks)) := by
      by_cases hb : b < blocks
      · by_cases hlt : (P.launch ins blocks).startChunk b < (P.launch ins blocks).endChunk b
        · have hend : (P.launch ins blocks).endChunk b ≤ P.chunks ins := Nat.min_le_right _ _
          obtain ⟨i, -, hi, hin⟩ := exists_inSlot (b := P.chunkBase ins) (Nat.zero_le ins.length)
            (w := (P.launch ins blocks).startChunk b) (by rw [chunkBase_zero]; exact Nat.zero_le _)
            (by rw [chunkBase_length]; omega)
          obtain ⟨fuel, ws, hrun⟩ := (h.run_returns_iff blocks hlt hi hin).2 (hreach b hb hlt i hi hin)
          exact ⟨fuel, fun _ => hrun.trans (congrArg _ (h.run_eq blocks hrun))⟩
        · refine ⟨0, fun _ => ?_⟩
          rw [ConcatLaunch.run, if_pos (Nat.not_lt.1 hlt), share_eq,
            Nat.sub_eq_zero_of_le (Nat.not_lt.1 hlt)]
          rfl
      · exact ⟨0, fun hlt => absurd hlt hb⟩
    choose fuel hfuel using hex
    refine ⟨((List.range blocks).map fuel).sum, _, mapM_ok fun b hb =>
      run_mono blocks (hfuel b (List.mem_range.1 hb)) ?_, ?_⟩
    · exact List.single_le_sum (fun _ _ => Nat.zero_le _) _ (List.mem_map_of_mem hb)
    · rw [List.flatMap_assoc]
      rfl

lemma Fits.task_ne_nil {q : ℕ} (hq : q < P.chunks ins) : P.task ins blocks q ≠ [] := by
  obtain ⟨i, -, hi, hin⟩ := exists_inSlot (b := P.chunkBase ins) (Nat.zero_le ins.length) (w := q)
    (by rw [chunkBase_zero]; exact Nat.zero_le _) (by rwa [chunkBase_length])
  have hcps := h.desc_chunksPerSeg_pos hi
  have hnum : q = P.chunkBase ins i + (q - P.chunkBase ins i) / (P.desc ins i).chunksPerSeg *
      (P.desc ins i).chunksPerSeg + (q - P.chunkBase ins i) % (P.desc ins i).chunksPerSeg := by
    have hdiv := Nat.div_add_mod' (q - P.chunkBase ins i) (P.desc ins i).chunksPerSeg
    have hbase := hin.1
    omega
  have hseg : (q - P.chunkBase ins i) / (P.desc ins i).chunksPerSeg < P.outer := by
    rw [Nat.div_lt_iff_lt_mul hcps]
    have hsucc := chunkBase_succ (P := P) hi
    have hbase := hin.1
    have hend := hin.2
    omega
  have hk := Nat.mod_lt (q - P.chunkBase ins i) hcps
  rw [task_eq hi hin blocks, hnum, h.copyChunk_eq hi blocks hseg hk, Ne, List.map_eq_nil_iff,
    List.range'_eq_nil_iff]
  have hlt := h.chunk_lt hk
  have hpos := h.chunkElems
  omega

end ConcatPlan

/-! ## When the output is written once -/

/-- When the cores write the output of a launch once: no share that is taken ends at `2 ^ 32` or behind it,
no core begins there, and the search of every core that has a chunk comes to its input. -/
def CoresFit (arrays : List (NDArray α)) (shape : List ℕ) (axis : ℕ) (t : ConcatType) (reported : ℤ) : Prop :=
  let P := concatPlan shape axis t
  let ins := P.inputs arrays
  let total := P.chunks arrays
  let blocks := concatBlocks total reported
  let perCore := (total + blocks - 1) / blocks
  SharesFit total blocks perCore ∧ ∀ b i, b * perCore < total → i < ins.length →
    InSlot (P.chunkBase ins) i (b * perCore) → Reaches ins.length i

namespace Concatenable

variable {arrays : List (NDArray α)} {shape : List ℕ} {axis : ℕ} (h : Concatenable arrays shape axis)
  (t : ConcatType)
include h

lemma fits (hprod : shape.prod ≠ 0) (hlt : shape.prod < 2 ^ 32) :
    (concatPlan shape axis t).Fits ((concatPlan shape axis t).inputs arrays) where
  chunkElems := t.chunkElems_pos
  outer := by
    rw [h.prod_eq t] at hprod
    exact Nat.pos_of_ne_zero (mul_ne_zero_iff.1 hprod).1
  small := by
    rw [ConcatPlan.width_inputs, ← h.prod_eq t]
    exact hlt
  nonempty := fun _ ha => ConcatPlan.segElems_pos ha
  data := fun _ ha => h.data_length t (List.mem_filter.1 ha).1

/-- A launch writes the output once exactly if the cores fit. -/
lemma writes_iff (hprod : shape.prod ≠ 0) (hlt : shape.prod < 2 ^ 32) (reported : ℤ) :
    WritesConcatenation arrays shape axis (some ((concatPlan shape axis t).launch
      ((concatPlan shape axis t).inputs arrays)
        (concatBlocks ((concatPlan shape axis t).chunks arrays) reported))) ↔
      CoresFit arrays shape axis t reported := by
  have hpos := h.chunks_pos t hprod
  have hfits := h.fits t hprod hlt
  have hchunks := ConcatPlan.chunks_inputs (P := concatPlan shape axis t) t.chunkElems_pos arrays
  have htotal := hfits.chunks_lt
  have hfill := hfits.fills (concatBlocks ((concatPlan shape axis t).chunks arrays) reported)
  have hconcat := h.isConcatenation t
  have hblocks : 0 < concatBlocks ((concatPlan shape axis t).chunks arrays) reported ∧
      concatBlocks ((concatPlan shape axis t).chunks arrays) reported ≤
        (concatPlan shape axis t).chunks arrays := by
    rw [concatBlocks]
    omega
  rw [ConcatPlan.segmentElements_eq fun a ha => h.data_length t ha] at hfill
  rw [CoresFit]
  generalize concatBlocks ((concatPlan shape axis t).chunks arrays) reported = blocks at *
  rw [← hchunks] at hpos hblocks ⊢
  generalize (concatPlan shape axis t).inputs arrays = ins at *
  generalize concatPlan shape axis t = P at *
  have hperCore : 0 < (P.chunks ins + blocks - 1) / blocks := Nat.div_pos (by omega) hblocks.1
  have hcover : P.chunks ins ≤ blocks * ((P.chunks ins + blocks - 1) / blocks) := by
    have hrest := Nat.lt_div_mul_add hblocks.1 (a := P.chunks ins + blocks - 1)
    rw [Nat.mul_comm] at hrest
    omega
  constructor
  · rintro ⟨out, hout, ws, hreturns, hwritten⟩
    obtain ⟨hreach, rfl⟩ := (hfits.returns_iff blocks).1 hreturns
    have hlen : (out.map some).length = ((P.concatenated arrays).map some).length := by
      rw [List.length_map, List.length_map]
      exact hout.length.trans hconcat.length.symm
    have hperm := hfill.tasks_perm (fun q hq => hfits.task_ne_nil blocks hq) (fun q hq => by
      obtain ⟨b, -, hq⟩ := List.mem_flatMap.1 hq
      have hq := (mem_share.1 hq).2
      omega) hwritten hlen
    have hshares := (shares_perm_iff hpos htotal hblocks.1 hblocks.2).1 hperm
    refine ⟨hshares, fun b i hb hi hin => ?_⟩
    have hend := hshares.taken hperCore hb
    rw [Nat.succ_mul] at hend
    have hstart : u32 (b * ((P.chunks ins + blocks - 1) / blocks)) =
        b * ((P.chunks ins + blocks - 1) / blocks) := u32_eq (by omega)
    have hnext : u32 (b * ((P.chunks ins + blocks - 1) / blocks) + (P.chunks ins + blocks - 1) / blocks) =
        b * ((P.chunks ins + blocks - 1) / blocks) + (P.chunks ins + blocks - 1) / blocks := u32_eq hend
    have hbelow : b < blocks := by
      by_contra hge
      have hmul : blocks * ((P.chunks ins + blocks - 1) / blocks) ≤
          b * ((P.chunks ins + blocks - 1) / blocks) := Nat.mul_le_mul_right _ (Nat.not_lt.1 hge)
      omega
    refine hreach b hbelow ?_ i hi ?_
    · show u32 (b * ((P.chunks ins + blocks - 1) / blocks)) < min (u32 (u32 (b *
        ((P.chunks ins + blocks - 1) / blocks)) + (P.chunks ins + blocks - 1) / blocks)) (P.chunks ins)
      rw [hstart, hnext]
      omega
    · show InSlot _ i (u32 (b * ((P.chunks ins + blocks - 1) / blocks)))
      rw [hstart]
      exact hin
  · rintro ⟨hshares, hreach⟩
    refine ⟨P.concatenated arrays, hconcat, _, (hfits.returns_iff blocks).2 ⟨fun b hb hlt' i hi hin => ?_,
      rfl⟩, ?_⟩
    · have hmul : b * ((P.chunks ins + blocks - 1) / blocks) ≤
          (blocks - 1) * ((P.chunks ins + blocks - 1) / blocks) := Nat.mul_le_mul_right _ (by omega)
      have hstart : u32 (b * ((P.chunks ins + blocks - 1) / blocks)) =
          b * ((P.chunks ins + blocks - 1) / blocks) := u32_eq (hmul.trans_lt hshares.2)
      change InSlot _ i (u32 (b * ((P.chunks ins + blocks - 1) / blocks))) at hin
      change u32 (b * ((P.chunks ins + blocks - 1) / blocks)) < min _ (P.chunks ins) at hlt'
      rw [hstart] at hin hlt'
      exact hreach b i (hlt'.trans_le (Nat.min_le_right _ _)) hi hin
    · rw [hshares.covers hperCore hcover]
      exact hfill

end Concatenable

/-- **The output is written once** exactly if it is empty or the cores fit. -/
theorem concatND_writes_iff {arrays : List (NDArray α)} {shape : List ℕ} {axis : ℕ}
    (h : Concatenable arrays shape axis) (t : ConcatType) (reported : ℤ) {call : Option (ConcatLaunch α)}
    (hcall : concatND arrays shape axis t reported = .ok call) :
    WritesConcatenation arrays shape axis call ↔
      shape.prod = 0 ∨ CoresFit arrays shape axis t reported := by
  by_cases hprod : shape.prod = 0
  · rw [concatND, if_pos hprod] at hcall
    obtain rfl := Except.ok.inj hcall
    have hconcat := h.isConcatenation t
    refine iff_of_true ⟨_, hconcat, ?_⟩ (Or.inl hprod)
    exact List.eq_nil_of_length_eq_zero (hconcat.length.trans hprod)
  · have hlt : shape.prod < 2 ^ 32 := by
      by_contra hge
      rw [concatND, if_neg hprod, if_pos hge] at hcall
      cases hcall
    have hlen : arrays.length ≤ 2 ^ 32 - 1 := by
      by_contra hgt
      rw [concatND, if_neg hprod, if_neg (not_not.2 hlt), if_pos hgt] at hcall
      cases hcall
    rw [h.concatND_eq t hprod hlt hlen reported] at hcall
    obtain rfl := Except.ok.inj hcall
    rw [or_iff_right hprod]
    exact h.writes_iff t hprod hlt reported

/-! ## Two launches -/

/-- An array with one and an array with two columns. -/
def columns : List (NDArray ℕ) := [⟨[2, 1], [1, 4]⟩, ⟨[2, 2], [2, 3, 5, 6]⟩]

lemma columns_concatenable : Concatenable columns [2, 3] 1 where
  axis_lt := by decide
  shapes := by decide
  sum := rfl
  data := by decide

/-- Each of the four chunks goes to a core. -/
theorem concatND_writes_columns : ∃ call, concatND columns [2, 3] 1 .f32 48 = .ok call ∧
    WritesConcatenation columns [2, 3] 1 call := by
  refine ⟨_, rfl, (concatND_writes_iff columns_concatenable .f32 48 rfl).2 (Or.inr ⟨?_, ?_⟩)⟩
  · constructor
    · decide
    · decide
  · intro b i _ hi _
    exact reaches_of_le (by decide) hi

/-- A column of `n` elements. -/
def longColumn (n : ℕ) : NDArray ℕ := ⟨[n, 1], List.replicate n 7⟩

lemma longColumn_concatenable (n : ℕ) : Concatenable [longColumn n] [n, 1] 1 where
  axis_lt := Nat.one_lt_two
  shapes a ha := by
    obtain rfl := List.mem_singleton.1 ha
    rfl
  sum := rfl
  data a ha := by
    obtain rfl := List.mem_singleton.1 ha
    show (List.replicate n 7).length = [n, 1].prod
    rw [List.length_replicate, List.prod_cons, List.prod_singleton, Nat.mul_one]

/-- **A column of `2 ^ 32 - 1` elements is not written**: the share of the last of 48 cores ends behind
`2 ^ 32`, and the core writes nothing. -/
theorem concatND_column_lost : ∃ call,
    concatND [longColumn (2 ^ 32 - 1)] [2 ^ 32 - 1, 1] 1 .f16 48 = .ok call ∧
      ¬ WritesConcatenation [longColumn (2 ^ 32 - 1)] [2 ^ 32 - 1, 1] 1 call := by
  have h := longColumn_concatenable (2 ^ 32 - 1)
  have hprod : [2 ^ 32 - 1, 1].prod = 2 ^ 32 - 1 := by norm_num
  have hchunks : (concatPlan [2 ^ 32 - 1, 1] 1 .f16).chunks [longColumn (2 ^ 32 - 1)] = 2 ^ 32 - 1 := rfl
  refine ⟨_, h.concatND_eq .f16 (by rw [hprod]; norm_num) (by rw [hprod]; norm_num) (by
    rw [List.length_singleton]; norm_num) 48, ?_⟩
  rw [h.writes_iff .f16 (by rw [hprod]; norm_num) (by rw [hprod]; norm_num) 48, CoresFit, hchunks]
  rintro ⟨⟨hlast, -⟩, -⟩
  have hblocks : concatBlocks (2 ^ 32 - 1) 48 = 48 := rfl
  rw [hblocks] at hlast
  norm_num at hlast

end DglAscend.Ascend
