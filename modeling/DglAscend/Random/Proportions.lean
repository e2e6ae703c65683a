import DglAscend.Lib.ProportionalDraws
import DglAscend.Random.Choice

/-!
# In proportion to the probabilities

`RandomEngine::Choice` over real numbers.  After any draws the next one is in proportion to what the
draws before it have left of the probabilities (`choiceOf_proportional`).
-/

namespace DglAscend.Random

open MeasureTheory Set

section Draws

variable {K : Type*} [Field K] [LinearOrder K]

/-- `RandomEngine::Choice` with probabilities of any kind. -/
def choiceOf (us prob : List K) (replace : Bool) : Except Stop (List (Option ℕ)) :=
  if replace = false ∧ prob.length < us.length then .error .raised
  else .ok (drawLeaves (numLeafs prob.length) replace us (buildTree (numLeafs prob.length) prob))

/-- What the draws have left of the probabilities. -/
def remaining (prob : List K) (replace : Bool) (drawn : List (Option ℕ)) (j : ℕ) : K :=
  if replace = false ∧ some j ∈ drawn then 0 else prob.getD j 0

end Draws

/-- The leaves of a tree hold the remaining probabilities. -/
lemma sum_remaining {prob : List ℝ} (replace : Bool) (drawn : List (Option ℕ)) :
    ∑ i ∈ Finset.range (numLeafs prob.length), remaining prob replace drawn i =
      ∑ i ∈ Finset.range prob.length, remaining prob replace drawn i := by
  refine (Finset.sum_subset (Finset.range_subset_range.2 (le_numLeafs _)) fun i _ hi => ?_).symm
  rw [Finset.mem_range, not_lt] at hi
  rw [remaining, List.getD_eq_default _ _ hi, ite_self]

/-- **The next draw**: nothing once all is drawn, and else a category with the share of its probability
in all that is left. -/
theorem choiceOf_proportional {prob us : List ℝ} {replace : Bool} {drawn : List (Option ℕ)}
    (hprob : ∀ x ∈ prob, 0 ≤ x) (hlen : replace = false → us.length < prob.length)
    (hdrawn : choiceOf us prob replace = .ok drawn) :
    if ∑ i ∈ Finset.range prob.length, remaining prob replace drawn i = 0 then
      ∀ u, choiceOf (us ++ [u]) prob replace = .ok (drawn ++ [none])
    else ∀ j < prob.length,
      volume {u | u ∈ Ico (0 : ℝ) 1 ∧ choiceOf (us ++ [u]) prob replace = .ok (drawn ++ [some j])} =
        ENNReal.ofReal (remaining prob replace drawn j /
          ∑ i ∈ Finset.range prob.length, remaining prob replace drawn i) := by
  set leaves := numLeafs prob.length with hleaves
  set tree := treeAfter leaves replace us (buildTree leaves prob) with htree
  have hstart : Sums leaves (buildTree leaves prob) := sums_buildTree (numLeafs_pos _) hprob
  obtain ⟨hsums, hleaf⟩ := hstart.after_drawLeaves replace us
  rw [← htree] at hsums hleaf
  have hcheck : ¬(replace = false ∧ prob.length < us.length) := fun h => by
    have := hlen h.1
    omega
  rw [choiceOf, if_neg hcheck] at hdrawn
  have hdrawn := Except.ok.inj hdrawn
  have hnext (u : ℝ) : choiceOf (us ++ [u]) prob replace = .ok (drawn ++ [(drawLeaf leaves replace u tree).1]) := by
    have hcheck' : ¬(replace = false ∧ prob.length < (us ++ [u]).length) := fun h => by
      have := hlen h.1
      have := h.2
      rw [List.length_append, List.length_singleton] at this
      omega
    rw [choiceOf, if_neg hcheck', drawLeaves_append, hdrawn, drawLeaves, drawLeaves]
  have hremaining : ∀ j < leaves, tree (leaves + j) = remaining prob replace drawn j := by
    intro j hj
    rw [hleaf j hj, hdrawn, buildTree_leaf prob (numLeafs_pos _)]
    rfl
  have hsum : ∑ i ∈ Finset.range leaves, tree (leaves + i) =
      ∑ i ∈ Finset.range prob.length, remaining prob replace drawn i := by
    rw [← sum_remaining]
    exact Finset.sum_congr rfl fun i hi => hremaining i (Finset.mem_range.1 hi)
  have hroot : ∑ i ∈ Finset.range leaves, tree (leaves + i) = tree 1 := hsums.sum_leaves
  rw [hsum] at hroot
  split_ifs with hzero
  · intro u
    rw [hnext, drawLeaf, if_pos (by rw [← hroot, hzero])]
  · intro j hj
    have hj' : j < leaves := hj.trans_le (le_numLeafs _)
    have hpos : 0 < tree 1 := by
      refine lt_of_le_of_ne (hsums.node_nonneg le_rfl (by omega)) ?_
      rw [← hroot]
      exact Ne.symm hzero
    have hdraw : Proportional leaves (fun i => tree (leaves + i)) fun u =>
        descend leaves tree (u * tree 1) leaves 1 0 - leaves := hsums.proportional hpos
    have hlaw := hdraw.law j hj'
    rw [hremaining j hj', hsum] at hlaw
    rw [← hlaw]
    congr 1
    ext u
    simp only [mem_ofPred_eq, hnext, drawLeaf, if_neg hpos.not_ge]
    simp

/-- The category with the weight 3 is drawn, and then the last one of what is left. -/
lemma choiceOf_proportional_two :
    volume {u | u ∈ Ico (0 : ℝ) 1 ∧
      choiceOf ([1 / 4] ++ [u]) [1, 3, 4] false = .ok ([some 1] ++ [some 2])} =
      ENNReal.ofReal (4 / 5) := by
  have hnodes : numLeafs [(1 : ℝ), 3, 4].length = 4 := by decide
  have hdrawn : choiceOf [1 / 4] [(1 : ℝ), 3, 4] false = .ok [some 1] := by
    rw [choiceOf, hnodes]
    norm_num [drawLeaves, drawLeaf, descend, buildTree, sumUp, Function.update]
  have hlaw := @choiceOf_proportional [(1 : ℝ), 3, 4] [1 / 4] false [some 1] (by simp)
    (fun _ => by simp) hdrawn
  have hsum : ∑ i ∈ Finset.range [(1 : ℝ), 3, 4].length, remaining [(1 : ℝ), 3, 4] false [some 1] i =
      5 := by
    norm_num [Finset.sum_range_succ, remaining]
  rw [hsum, if_neg (OfNat.ofNat_ne_zero 5)] at hlaw
  rw [hlaw 2 (by simp)]
  simp [remaining]

end DglAscend.Random
