import DglAscend.Lib.KeyedSums
import DglAscend.Lib.StdAlgorithms
import DglAscend.Lib.SumTree
import Mathlib.Data.Nat.Log

/-!
# Choosing at random

`RandomEngine::Choice` and `RandomEngine::UniformChoice` of `choice.cc`, with the tree sampler of
`sample_utils.h`.  The numbers that the engine draws are an argument.
-/

namespace DglAscend.Random

/-- Why a choice does not come to an end: a check, an access outside an array, or the engine has no
number left. -/
inductive Stop
  | raised
  | outOfBounds
  | drawing
  deriving DecidableEq, Repr

/-! ## `Choice` -/

/-- `num_leafs`, the least power of two that is not less. -/
def numLeafs (n : ℕ) : ℕ := 2 ^ Nat.clog 2 n

/-- `RandomEngine::Choice`; `none` is `-1`, for a tree without a weight. -/
def choice (us : List ℚ) (prob : List ℚ) (replace : Bool) : Except Stop (List (Option ℕ)) :=
  if replace = false ∧ prob.length < us.length then .error .raised
  else .ok (drawLeaves (numLeafs prob.length) replace us (buildTree (numLeafs prob.length) prob))

/-! ## `UniformChoice` -/

/-- `RandInt(population)` until `num` different numbers are there. -/
def drawDistinct (population num : ℕ) : List ℕ → List ℕ → Except Stop (List ℕ)
  | [], chosen => if chosen.length = num then .ok chosen else .error .drawing
  | d :: ds, chosen =>
    if chosen.length = num then .ok chosen
    else drawDistinct population num ds (insertKey chosen (d % population))

/-- `std::swap(seq[i], seq[j])` -/
def swapAt (seq : List ℕ) (i j : ℕ) : List ℕ :=
  (seq.set i (seq.getD j 0)).set j (seq.getD i 0)

/-- The loop that swaps `seq[i]` with `seq[RandInt(i, population)]`, for the next `num` places. -/
def swapLoop (population : ℕ) : ℕ → ℕ → List ℕ → List ℕ → Except Stop (List ℕ)
  | 0, _, _, seq => .ok seq
  | _ + 1, _, [], _ => .error .drawing
  | num + 1, i, d :: ds, seq =>
    swapLoop population num (i + 1) ds (swapAt seq i (i + d % (population - i)))

/-- `RandomEngine::UniformChoice`. -/
def uniformChoice (ints : List ℕ) (setOrder : AnyOrder ℕ) (num population : ℕ) (replace : Bool) :
    Except Stop (List ℕ) :=
  if replace then
    if ints.length < num then .error .drawing
    else if population = 0 ∧ num ≠ 0 then .error .raised
    else .ok ((ints.take num).map (· % population))
  else if population < num then .error .raised
  else if num < population / 10 then
    if num ≠ 0 ∧ num < 64 then drawDistinct population num ints []
    else (drawDistinct population num ints []).map setOrder.run
  else (swapLoop population num 0 ints (List.range population)).map (List.take num)

/-! ## What is chosen -/

/-- Some places are picked among those that are allowed: as many different ones as there are, up to
`num`, or `num` times any of them. -/
structure ValidPick (allowed : List Bool) (num : ℕ) (replace : Bool) (picked : List (Option ℕ)) :
    Prop where
  places : ∀ k ∈ picked.reduceOption, allowed.getD k false = true
  once : replace = false → picked.reduceOption.Nodup ∧
    picked.reduceOption.length = min num (allowed.count true)
  again : replace = true →
    picked.reduceOption.length = if allowed.count true = 0 then 0 else num

variable {population num : ℕ} {replace : Bool}

lemma ValidPick.place_lt {allowed : List Bool} {picked : List (Option ℕ)}
    (h : ValidPick allowed num replace picked) {k : ℕ} (hk : k ∈ picked.reduceOption) :
    k < allowed.length := by
  by_contra hge
  have hplace := h.places k hk
  rw [List.getD_eq_default _ _ (Nat.not_lt.1 hge)] at hplace
  cases hplace

lemma numLeafs_pos (n : ℕ) : 0 < numLeafs n := Nat.two_pow_pos _

lemma le_numLeafs (n : ℕ) : n ≤ numLeafs n := Nat.le_pow_clog (by omega) n

/-- The leaves that can be drawn are the places with a weight. -/
lemma mem_drawable_buildTree {prob : List ℚ} {k : ℕ} :
    k ∈ drawable (numLeafs prob.length) (buildTree (numLeafs prob.length) prob) ↔
      (prob.map fun x => decide (0 < x)).getD k false = true := by
  rw [mem_drawable, buildTree_leaf _ (numLeafs_pos _)]
  by_cases hk : k < prob.length
  · rw [List.getD_eq_getElem _ _ hk, List.getD_eq_getElem _ _ (by rwa [List.length_map]),
      List.getElem_map, decide_eq_true_iff]
    exact ⟨fun h => h.2, fun h => ⟨hk.trans_le (le_numLeafs _), h⟩⟩
  · rw [List.getD_eq_default _ _ (Nat.not_lt.1 hk),
      List.getD_eq_default _ _ (by rw [List.length_map]; exact Nat.not_lt.1 hk)]
    exact ⟨fun h => absurd h.2 (lt_irrefl 0), nofun⟩

/-- A set of the places that hold `true` is as large as their number. -/
lemma card_eq_count {allowed : List Bool} {s : Finset ℕ}
    (hs : ∀ k, k ∈ s ↔ allowed.getD k false = true) : s.card = allowed.count true := by
  have hlist : (List.range allowed.length).map (allowed.getD · false) = allowed := by
    apply List.ext_getElem
    · rw [List.length_map, List.length_range]
    · intro k hk hk'
      rw [List.getElem_map, List.getElem_range, List.getD_eq_getElem _ _ hk']
  have hset : s = ((List.range allowed.length).filter fun k => allowed.getD k false).toFinset := by
    ext k
    rw [List.mem_toFinset, List.mem_filter, List.mem_range, hs]
    refine ⟨fun h => ⟨?_, h⟩, fun h => h.2⟩
    by_contra hk
    rw [List.getD_eq_default _ _ (Nat.not_lt.1 hk)] at h
    cases h
  have hcount : allowed.count true =
      (List.range allowed.length).countP fun k => allowed.getD k false := by
    conv_lhs => rw [← hlist]
    rw [List.count_eq_countP, List.countP_map]
    exact List.countP_congr fun k _ => by simp
  rw [hset, List.toFinset_card_of_nodup (List.nodup_range.filter _), hcount,
    List.countP_eq_length_filter]

/-- **`Choice`** picks among the places with a positive probability, when no number is `0`. -/
theorem choice_valid {us prob : List ℚ} (hus : ∀ u ∈ us, 0 < u ∧ u ≤ 1) (hprob : ∀ x ∈ prob, 0 ≤ x)
    (hlen : replace = false → us.length ≤ prob.length) :
    ∃ picked, choice us prob replace = .ok picked ∧ picked.length = us.length ∧
      ValidPick (prob.map fun x => decide (0 < x)) us.length replace picked := by
  have hsums := sums_buildTree (numLeafs_pos prob.length) hprob
  have hcard : (drawable (numLeafs prob.length) (buildTree (numLeafs prob.length) prob)).card =
      (prob.map fun x => decide (0 < x)).count true := card_eq_count fun _ => mem_drawable_buildTree
  refine ⟨_, if_neg ?_, length_drawLeaves _ _ _ _, ?_, ?_, ?_⟩
  · rintro ⟨hreplace, hlt⟩
    exact absurd (hlen hreplace) (Nat.not_le.2 hlt)
  · intro k hk
    cases replace with
    | true => exact mem_drawable_buildTree.1 ((hsums.drawLeaves_replace hus).1 k hk)
    | false => exact mem_drawable_buildTree.1 ((hsums.drawLeaves_once hus).2.1 k hk)
  · rintro rfl
    obtain ⟨hnodup, -, hlen⟩ := hsums.drawLeaves_once hus
    rw [hcard] at hlen
    exact ⟨hnodup, hlen⟩
  · rintro rfl
    have hlen := (hsums.drawLeaves_replace hus).2
    rwa [hcard] at hlen

/-! ## Different numbers -/

lemma drawDistinct_spec (hpos : 0 < population) {ds chosen : List ℕ} (hnodup : chosen.Nodup)
    (hlt : ∀ k ∈ chosen, k < population) (hle : chosen.length ≤ num)
    (henough : num ≤ ((ds.map (· % population)).foldl insertKey chosen).length) :
    ∃ out, drawDistinct population num ds chosen = .ok out ∧ out.Nodup ∧ out.length = num ∧
      ∀ k ∈ out, k < population := by
  induction ds generalizing chosen with
  | nil =>
      have heq : chosen.length = num := le_antisymm hle henough
      exact ⟨chosen, if_pos heq, hnodup, heq, hlt⟩
  | cons d ds ih =>
      rw [drawDistinct]
      by_cases heq : chosen.length = num
      · exact ⟨chosen, if_pos heq, hnodup, heq, hlt⟩
      · rw [if_neg heq]
        refine ih (nodup_insertKey hnodup _) (fun k hk => ?_) ?_ henough
        · rcases mem_insertKey.1 hk with hk | rfl
          · exact hlt k hk
          · exact Nat.mod_lt _ hpos
        · rw [insertKey]
          split
          · exact hle
          · rw [List.length_append, List.length_singleton]
            omega

lemma swapAt_perm {seq : List ℕ} {i j : ℕ} (hi : i < seq.length) (hj : j < seq.length) :
    (swapAt seq i j).Perm seq := by
  rw [swapAt, List.getD_eq_getElem _ _ hi, List.getD_eq_getElem _ _ hj]
  exact List.set_set_perm hi hj

lemma swapLoop_spec {num i : ℕ} {ds seq : List ℕ} (hlen : seq.length = population)
    (hnum : i + num ≤ population) (henough : num ≤ ds.length) :
    ∃ out, swapLoop population num i ds seq = .ok out ∧ out.Perm seq := by
  induction num generalizing i ds seq with
  | zero => exact ⟨seq, by rw [swapLoop], .refl _⟩
  | succ num ih =>
      cases ds with
      | nil => exact absurd henough (by simp)
      | cons d ds =>
          have hmod := Nat.mod_lt d (show 0 < population - i by omega)
          have hperm : (swapAt seq i (i + d % (population - i))).Perm seq :=
            swapAt_perm (by omega) (by omega)
          obtain ⟨out, hout, houtperm⟩ := ih (hperm.length_eq.trans hlen) (show i + 1 + num ≤ _ by omega)
            (Nat.le_of_succ_le_succ henough)
          exact ⟨out, hout, houtperm.trans hperm⟩

/-- The engine has numbers for `num` draws below `population`, and for `num` different ones. -/
structure Plenty (ints : List ℕ) (num population : ℕ) : Prop where
  length : num ≤ ints.length
  distinct : num ≤ population → num ≤ (keySet (ints.map (· % population))).length

/-- **`UniformChoice`** picks among all places. -/
theorem uniformChoice_valid {ints : List ℕ} (setOrder : AnyOrder ℕ) (hpos : 0 < population)
    (hlen : replace = false → num ≤ population) (hplenty : Plenty ints num population) :
    ∃ picked, uniformChoice ints setOrder num population replace = .ok picked ∧
      picked.length = num ∧
      ValidPick (List.replicate population true) num replace (picked.map some) := by
  have hcount : (List.replicate population true).count true = population :=
    List.count_replicate_self
  have hreduce (l : List ℕ) : (l.map some).reduceOption = l := by
    induction l with
    | nil => rfl
    | cons a l ih => rw [List.map_cons, List.reduceOption_cons_of_some, ih]
  have hvalid : ∀ picked : List ℕ, (∀ k ∈ picked, k < population) → picked.length = num →
      (replace = false → picked.Nodup) →
        ValidPick (List.replicate population true) num replace (picked.map some) := by
    intro picked hlt hpicked hnodup
    refine ⟨fun k hk => ?_, fun hreplace => ?_, fun _ => ?_⟩
    · rw [hreduce] at hk
      rw [List.getD_eq_getElem _ _ (by rw [List.length_replicate]; exact hlt k hk),
        List.getElem_replicate]
    · rw [hreduce, hcount, hpicked, Nat.min_eq_left (hlen hreplace)]
      exact ⟨hnodup hreplace, rfl⟩
    · rw [hreduce, hcount, if_neg hpos.ne', hpicked]
  cases replace with
  | true =>
      have htake : ((ints.take num).map (· % population)).length = num := by
        rw [List.length_map, List.length_take, Nat.min_eq_left hplenty.length]
      refine ⟨(ints.take num).map (· % population), ?_, htake, hvalid _ (fun k hk => ?_) htake nofun⟩
      · rw [uniformChoice, if_pos rfl, if_neg (Nat.not_lt.2 hplenty.length),
          if_neg fun h => hpos.ne' h.1]
      · obtain ⟨d, -, rfl⟩ := List.mem_map.1 hk
        exact Nat.mod_lt _ hpos
  | false =>
      have hnum := hlen rfl
      rw [uniformChoice, if_neg Bool.false_ne_true, if_neg (Nat.not_lt.2 hnum)]
      obtain ⟨out, hout, hnodup, houtlen, hlt⟩ := drawDistinct_spec hpos List.nodup_nil nofun
        num.zero_le (hplenty.distinct hnum)
      by_cases hfew : num < population / 10
      · rw [if_pos hfew, hout]
        by_cases hlinear : num ≠ 0 ∧ num < 64
        · rw [if_pos hlinear]
          exact ⟨out, rfl, houtlen, hvalid out hlt houtlen fun _ => hnodup⟩
        · rw [if_neg hlinear]
          have hperm := setOrder.perm out
          exact ⟨setOrder.run out, rfl, hperm.length_eq.trans houtlen,
            hvalid _ (fun k hk => hlt k (hperm.mem_iff.1 hk)) (hperm.length_eq.trans houtlen)
              fun _ => hperm.nodup_iff.2 hnodup⟩
      · rw [if_neg hfew]
        obtain ⟨seq, hseq, hperm⟩ := swapLoop_spec (i := 0) (List.length_range (n := population))
          (by omega) hplenty.length
        have htake : (seq.take num).length = num := by
          rw [List.length_take, hperm.length_eq, List.length_range, Nat.min_eq_left hnum]
        rw [hseq]
        refine ⟨seq.take num, rfl, htake, hvalid _ (fun k hk => ?_) htake fun _ => ?_⟩
        · exact List.mem_range.1 (hperm.mem_iff.1 (List.mem_of_mem_take hk))
        · exact (hperm.nodup_iff.2 List.nodup_range).sublist (List.take_sublist _ _)

end DglAscend.Random
