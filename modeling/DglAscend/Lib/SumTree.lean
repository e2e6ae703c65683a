import Mathlib.Algebra.Order.Field.Basic
import Mathlib.Data.Finset.Card
import Mathlib.Data.List.GetD
import Mathlib.Data.List.ReduceOption
import Mathlib.Tactic.Linarith

/-!
# Drawing from a tree of sums

The nodes of a tree are numbered from the root `1`, the children of node `i` are `2 i` and `2 i + 1`,
and the nodes from `leaves` on are the leaves.  A node holds the weight of the leaves below it.  A draw
walks down to a leaf, and a draw without replacement then clears the leaf and adds up the nodes on
the way to the root again.
-/

namespace DglAscend

lemma getD_nonneg {K : Type*} [Zero K] [Preorder K] {weights : List K} (h : ∀ x ∈ weights, 0 ≤ x)
    (i : ℕ) : 0 ≤ weights.getD i 0 := by
  by_cases hi : i < weights.length
  · rw [List.getD_eq_getElem _ _ hi]
    exact h _ (List.getElem_mem hi)
  · rw [List.getD_eq_default _ _ (Nat.not_lt.1 hi)]

variable {K : Type*} [Field K] [LinearOrder K]

/-! ## The tree -/

/-- The nodes below `k + 1`, from the last one to the root. -/
def sumUp : ℕ → (ℕ → K) → ℕ → K
  | 0, w => w
  | i + 1, w => sumUp i (Function.update w (i + 1) (w (2 * (i + 1)) + w (2 * (i + 1) + 1)))

/-- The tree of some weights. -/
def buildTree (leaves : ℕ) (weights : List K) : ℕ → K :=
  sumUp (leaves - 1) fun i => if leaves ≤ i then weights.getD (i - leaves) 0 else 0

/-- The walk from a node to a leaf. -/
def descend (leaves : ℕ) (w : ℕ → K) (p : K) : ℕ → ℕ → K → ℕ
  | 0, cur, _ => cur
  | fuel + 1, cur, accum =>
    if leaves ≤ cur then cur
    else if p > accum + w (2 * cur) ∧ w (2 * cur + 1) > 0 then
      descend leaves w p fuel (2 * cur + 1) (accum + w (2 * cur))
    else descend leaves w p fuel (2 * cur) accum

/-- A leaf is cleared and the nodes above it are added up again. -/
def clearLeaf (leaves : ℕ) : ℕ → ℕ → (ℕ → K) → ℕ → K
  | 0, _, w => w
  | fuel + 1, cur, w =>
    if cur = 0 then w
    else clearLeaf leaves fuel (cur / 2)
      (Function.update w cur (if leaves ≤ cur then 0 else w (2 * cur) + w (2 * cur + 1)))

/-- A leaf gets a weight and the nodes above it are added up again. -/
def setLeaf (leaves : ℕ) : ℕ → ℕ → K → (ℕ → K) → ℕ → K
  | 0, _, _, w => w
  | fuel + 1, cur, x, w =>
    if cur = 0 then w
    else setLeaf leaves fuel (cur / 2) x
      (Function.update w cur (if leaves ≤ cur then x else w (2 * cur) + w (2 * cur + 1)))

/-- One draw, with a number from `0` to `1`. -/
def drawLeaf (leaves : ℕ) (replace : Bool) (u : K) (w : ℕ → K) : Option ℕ × (ℕ → K) :=
  if w 1 ≤ 0 then (none, w)
  else
    let cur := descend leaves w (u * w 1) leaves 1 0
    (some (cur - leaves), if replace then w else clearLeaf leaves (cur + 1) cur w)

/-- Some draws, one after the other. -/
def drawLeaves (leaves : ℕ) (replace : Bool) : List K → (ℕ → K) → List (Option ℕ)
  | [], _ => []
  | u :: us, w =>
    (drawLeaf leaves replace u w).1 :: drawLeaves leaves replace us (drawLeaf leaves replace u w).2

/-- Every node holds the sum of its children, except perhaps one. -/
def SumsExcept (leaves node : ℕ) (w : ℕ → K) : Prop :=
  ∀ i, 1 ≤ i → i < leaves → i ≠ node → w i = w (2 * i) + w (2 * i + 1)

/-- Every node holds the sum of its children, and the leaves are weights. -/
structure Sums (leaves : ℕ) (w : ℕ → K) : Prop where
  pos : 0 < leaves
  sum : ∀ i, 1 ≤ i → i < leaves → w i = w (2 * i) + w (2 * i + 1)
  nonneg : ∀ i, leaves ≤ i → i < 2 * leaves → 0 ≤ w i

/-- The leaves that can be drawn. -/
def drawable (leaves : ℕ) (w : ℕ → K) : Finset ℕ :=
  (Finset.range leaves).filter fun i => 0 < w (leaves + i)

variable {leaves k : ℕ} {w : ℕ → K}

lemma mem_drawable : k ∈ drawable leaves w ↔ k < leaves ∧ 0 < w (leaves + k) := by
  rw [drawable, Finset.mem_filter, Finset.mem_range]

/-! ## Building -/

variable {k i : ℕ}

omit [LinearOrder K] in
lemma sumUp_of_lt (w : ℕ → K) (hi : k < i) : sumUp k w i = w i := by
  induction k generalizing w with
  | zero => rfl
  | succ k ih =>
      rw [sumUp, ih _ (by omega)]
      exact Function.update_of_ne (by omega) _ _

omit [LinearOrder K] in
lemma sumUp_sum (h : ∀ i, k < i → i < leaves → w i = w (2 * i) + w (2 * i + 1)) (hi : 1 ≤ i)
    (hlt : i < leaves) : sumUp k w i = sumUp k w (2 * i) + sumUp k w (2 * i + 1) := by
  induction k generalizing w with
  | zero => exact h i hi hlt
  | succ k ih =>
      refine ih fun j hj hjlt => ?_
      have hleft : 2 * j ≠ k + 1 := by omega
      have hright : 2 * j + 1 ≠ k + 1 := by omega
      rw [Function.update_of_ne hleft, Function.update_of_ne hright]
      by_cases hjk : j = k + 1
      · rw [hjk, Function.update_self]
      · rw [Function.update_of_ne hjk]
        exact h j (by omega) hjlt

omit [LinearOrder K] in
lemma buildTree_leaf (weights : List K) (hpos : 0 < leaves) :
    buildTree leaves weights (leaves + k) = weights.getD k 0 := by
  rw [buildTree, sumUp_of_lt _ (by omega), if_pos (by omega), Nat.add_sub_cancel_left]

lemma sums_buildTree {weights : List K} (hpos : 0 < leaves) (hnonneg : ∀ x ∈ weights, 0 ≤ x) :
    Sums leaves (buildTree leaves weights) where
  pos := hpos
  sum i hi hlt := by
    refine sumUp_sum (fun j hj hjlt => ?_) hi hlt
    omega
  nonneg i hi hlt := by
    obtain ⟨k, rfl⟩ := Nat.exists_eq_add_of_le hi
    rw [buildTree_leaf _ hpos]
    by_cases hk : k < weights.length
    · rw [List.getD_eq_getElem _ _ hk]
      exact hnonneg _ (List.getElem_mem hk)
    · rw [List.getD_eq_default _ _ (Nat.not_lt.1 hk)]

/-! ## Walking down -/

variable [IsStrictOrderedRing K] {leaves : ℕ} {w : ℕ → K}

lemma Sums.node_nonneg (h : Sums leaves w) (hi : 1 ≤ i) (hlt : i < 2 * leaves) : 0 ≤ w i := by
  induction hn : 2 * leaves - i using Nat.strong_induction_on generalizing i with
  | _ n ih =>
      by_cases hleaf : leaves ≤ i
      · exact h.nonneg i hleaf hlt
      · have hleft := ih (2 * leaves - 2 * i) (by omega) (by omega) (by omega) rfl
        have hright := ih (2 * leaves - (2 * i + 1)) (by omega) (by omega) (by omega) rfl
        rw [h.sum i hi (by omega)]
        exact add_nonneg hleft hright

lemma Sums.le_root (h : Sums leaves w) (hi : 1 ≤ i) (hlt : i < 2 * leaves) : w i ≤ w 1 := by
  induction i using Nat.strong_induction_on with
  | _ i ih =>
      by_cases hone : i = 1
      · rw [hone]
      · have hparent := ih (i / 2) (by omega) (by omega) (by omega)
        have hsum := h.sum (i / 2) (by omega) (by omega)
        have hleft := h.node_nonneg (i := 2 * (i / 2)) (by omega) (by omega)
        have hright := h.node_nonneg (i := 2 * (i / 2) + 1) (by omega) (by omega)
        rcases Nat.even_or_odd' i with ⟨k, rfl | rfl⟩
        · have hk : 2 * k / 2 = k := by omega
          rw [hk] at hparent hsum hright
          linarith
        · have hk : (2 * k + 1) / 2 = k := by omega
          rw [hk] at hparent hsum hleft
          linarith

variable {fuel cur : ℕ}

omit [IsStrictOrderedRing K] in
lemma descend_range {p accum : K} (hlt : cur < 2 * leaves) (hcur : 1 ≤ cur)
    (hfuel : leaves ≤ cur + fuel) :
    leaves ≤ descend leaves w p fuel cur accum ∧ descend leaves w p fuel cur accum < 2 * leaves := by
  induction fuel generalizing cur accum with
  | zero => exact ⟨hfuel, hlt⟩
  | succ fuel ih =>
      rw [descend]
      by_cases hleaf : leaves ≤ cur
      · rw [if_pos hleaf]
        exact ⟨hleaf, hlt⟩
      · rw [if_neg hleaf]
        split
        · exact ih (by omega) (by omega) (by omega)
        · exact ih (by omega) (by omega) (by omega)

lemma Sums.descend_pos (h : Sums leaves w) {p accum : K} (fuel : ℕ) (hcur : 1 ≤ cur)
    (hfuel : leaves ≤ cur + fuel) (hlow : accum < p) (hhigh : p ≤ accum + w cur) :
    0 < w (descend leaves w p fuel cur accum) := by
  induction fuel generalizing cur accum with
  | zero =>
      show 0 < w cur
      linarith
  | succ fuel ih =>
      rw [descend]
      by_cases hleaf : leaves ≤ cur
      · rw [if_pos hleaf]
        linarith
      · have hsum := h.sum cur hcur (by omega)
        rw [if_neg hleaf]
        by_cases hright : p > accum + w (2 * cur) ∧ w (2 * cur + 1) > 0
        · rw [if_pos hright]
          exact ih (by omega) (by omega) hright.1 (by linarith)
        · -- a number above the left subtree lies in the right one, which then has a weight
          have hleft : p ≤ accum + w (2 * cur) := by
            by_contra hgt
            exact hright ⟨not_le.1 hgt, by linarith [not_le.1 hgt]⟩
          rw [if_neg hright]
          exact ih (by omega) (by omega) hlow hleft

/-- The number `0` leads to the first leaf, whatever its weight. -/
lemma Sums.descend_zero (h : Sums (2 ^ k) w) (fuel : ℕ) {d : ℕ} (hd : d ≤ k)
    (hfuel : 2 ^ k ≤ 2 ^ d + fuel) : descend (2 ^ k) w 0 fuel (2 ^ d) 0 = 2 ^ k := by
  have hpow : 2 ^ d ≤ 2 ^ k := Nat.pow_le_pow_right two_pos hd
  induction fuel generalizing d with
  | zero => exact le_antisymm hpow hfuel
  | succ fuel ih =>
      rw [descend]
      by_cases hleaf : 2 ^ k ≤ 2 ^ d
      · rw [if_pos hleaf]
        exact le_antisymm hpow hleaf
      · have hlt : d < k := (Nat.pow_lt_pow_iff_right one_lt_two).1 (Nat.not_le.1 hleaf)
        have hone : 1 ≤ 2 ^ d := Nat.one_le_two_pow
        have hnext : 2 * 2 ^ d = 2 ^ (d + 1) := (pow_succ' 2 d).symm
        have hle : 2 ^ (d + 1) ≤ 2 ^ k := Nat.pow_le_pow_right two_pos hlt
        have hleft : 0 ≤ w (2 * 2 ^ d) := h.node_nonneg (by omega) (by omega)
        rw [if_neg hleaf, if_neg fun hright => not_lt.2 hleft (by simpa using hright.1), hnext]
        exact ih hlt (by omega) hle

/-! ## A new weight for a leaf -/

omit [LinearOrder K] [IsStrictOrderedRing K] in
lemma clearLeaf_eq_setLeaf (fuel cur : ℕ) (w : ℕ → K) :
    clearLeaf leaves fuel cur w = setLeaf leaves fuel cur 0 w := by
  induction fuel generalizing cur w with
  | zero => rfl
  | succ fuel ih => rw [clearLeaf, setLeaf, ih]

omit [LinearOrder K] [IsStrictOrderedRing K] in
lemma setLeaf_of_ge (hcur : cur < leaves) (hi : leaves ≤ i) (x : K) (w : ℕ → K) :
    setLeaf leaves fuel cur x w i = w i := by
  induction fuel generalizing cur w with
  | zero => rfl
  | succ fuel ih =>
      rw [setLeaf]
      by_cases hzero : cur = 0
      · rw [if_pos hzero]
      · rw [if_neg hzero, ih (by omega)]
        exact Function.update_of_ne (by omega) _ _

omit [LinearOrder K] [IsStrictOrderedRing K] in
/-- The node that was written is added up, and then its parent is the one that may be wrong. -/
lemma sumsExcept_setLeaf (hcur : cur < leaves) (hfuel : cur < fuel) {x : K}
    (h : SumsExcept leaves cur w) : SumsExcept leaves 0 (setLeaf leaves fuel cur x w) := by
  induction fuel generalizing cur w with
  | zero => omega
  | succ fuel ih =>
      rw [setLeaf]
      by_cases hzero : cur = 0
      · rw [if_pos hzero]
        exact hzero ▸ h
      · rw [if_neg hzero, if_neg (Nat.not_le.2 hcur)]
        refine ih (by omega) (by omega) fun j hj hjlt hne => ?_
        have hleft : 2 * j ≠ cur := by omega
        have hright : 2 * j + 1 ≠ cur := by omega
        rw [Function.update_of_ne hleft, Function.update_of_ne hright]
        by_cases hjc : j = cur
        · rw [hjc, Function.update_self]
        · rw [Function.update_of_ne hjc]
          exact h j hj hjlt hjc

section SetLeaf

omit [LinearOrder K] [IsStrictOrderedRing K]

variable {k : ℕ} (hpos : 0 < leaves) (hk : k < leaves) (x : K)
include hpos

lemma setLeaf_leaf : setLeaf leaves (leaves + k + 1) (leaves + k) x w =
    setLeaf leaves (leaves + k) ((leaves + k) / 2) x (Function.update w (leaves + k) x) := by
  rw [setLeaf, if_neg (by omega), if_pos (Nat.le_add_right _ _)]

include hk

/-- The sums are right again after a leaf got a weight. -/
lemma SumsExcept.setLeaf (h : SumsExcept leaves 0 w) :
    SumsExcept leaves 0 (setLeaf leaves (leaves + k + 1) (leaves + k) x w) := by
  rw [setLeaf_leaf hpos]
  refine sumsExcept_setLeaf (by omega) (by omega) fun j hj hjlt hne => ?_
  rw [Function.update_of_ne (by omega), Function.update_of_ne (by omega),
    Function.update_of_ne (by omega)]
  exact h j hj hjlt (by omega)

lemma setLeaf_add {j : ℕ} (hj : j < leaves) :
    setLeaf leaves (leaves + k + 1) (leaves + k) x w (leaves + j) =
      if j = k then x else w (leaves + j) := by
  by_cases hone : leaves = 1
  · -- the only leaf is the root
    obtain rfl : j = 0 := by omega
    obtain rfl : k = 0 := by omega
    subst hone
    rfl
  rw [setLeaf_leaf hpos, setLeaf_of_ge (by omega) (Nat.le_add_right _ _)]
  by_cases hjk : j = k
  · rw [hjk, Function.update_self, if_pos rfl]
  · rw [Function.update_of_ne (by omega), if_neg hjk]

end SetLeaf

omit [IsStrictOrderedRing K] in
lemma Sums.setLeaf (h : Sums leaves w) (hk : k < leaves) {x : K} (hx : 0 ≤ x) :
    Sums leaves (setLeaf leaves (leaves + k + 1) (leaves + k) x w) where
  pos := h.pos
  sum i hi hlt := SumsExcept.setLeaf h.pos hk x (fun j hj hjlt _ => h.sum j hj hjlt) i hi hlt (by omega)
  nonneg i hi hlt := by
    obtain ⟨j, rfl⟩ := Nat.exists_eq_add_of_le hi
    rw [setLeaf_add h.pos hk x (by omega)]
    split
    · exact hx
    · exact h.nonneg _ hi hlt

omit [IsStrictOrderedRing K] in
lemma Sums.clearLeaf (h : Sums leaves w) (hk : k < leaves) :
    Sums leaves (clearLeaf leaves (leaves + k + 1) (leaves + k) w) ∧
      ∀ j < leaves, DglAscend.clearLeaf leaves (leaves + k + 1) (leaves + k) w (leaves + j) =
        if j = k then 0 else w (leaves + j) := by
  rw [clearLeaf_eq_setLeaf]
  exact ⟨h.setLeaf hk le_rfl, fun j hj => setLeaf_add h.pos hk 0 hj⟩

/-! ## Drawing -/

/-- Without a weight at the root no leaf can be drawn. -/
lemma Sums.drawable_eq_empty (h : Sums leaves w) (hroot : w 1 ≤ 0) : drawable leaves w = ∅ := by
  refine Finset.eq_empty_of_forall_notMem fun k hk => ?_
  obtain ⟨hk, hpos⟩ := mem_drawable.1 hk
  have hpos' := h.pos
  have hle := h.le_root (i := leaves + k) (by omega) (by omega)
  exact absurd (hpos.trans_le hle) (not_lt.2 hroot)

lemma Sums.drawLeaf_spec (h : Sums leaves w) (hroot : ¬w 1 ≤ 0) {u : K} (hu : 0 < u) (hu' : u ≤ 1)
    (replace : Bool) : ∃ k ∈ drawable leaves w, drawLeaf leaves replace u w =
      (some k, if replace then w else DglAscend.clearLeaf leaves (leaves + k + 1) (leaves + k) w) := by
  have hpos := h.pos
  have hroot' := not_le.1 hroot
  have hlow : 0 < u * w 1 := mul_pos hu hroot'
  have hhigh : u * w 1 ≤ 0 + w 1 := by
    rw [zero_add]
    exact mul_le_of_le_one_left hroot'.le hu'
  have hweight : 0 < w (descend leaves w (u * w 1) leaves 1 0) :=
    h.descend_pos leaves le_rfl (by omega) hlow hhigh
  obtain ⟨hge, hlt⟩ : leaves ≤ descend leaves w (u * w 1) leaves 1 0 ∧
      descend leaves w (u * w 1) leaves 1 0 < 2 * leaves :=
    descend_range (by omega) le_rfl (by omega)
  obtain ⟨k, hk⟩ := Nat.exists_eq_add_of_le hge
  rw [hk] at hlt hweight
  refine ⟨k, mem_drawable.2 ⟨by omega, hweight⟩, ?_⟩
  rw [drawLeaf, if_neg hroot, hk]
  show (some (leaves + k - leaves), _) = _
  rw [Nat.add_sub_cancel_left]

omit [IsStrictOrderedRing K] in
lemma Sums.drawable_clearLeaf (h : Sums leaves w) (hk : k < leaves) :
    drawable leaves (DglAscend.clearLeaf leaves (leaves + k + 1) (leaves + k) w) =
      (drawable leaves w).erase k := by
  ext j
  rw [Finset.mem_erase, mem_drawable, mem_drawable]
  constructor
  · rintro ⟨hj, hpos⟩
    rw [(h.clearLeaf hk).2 j hj] at hpos
    by_cases hjk : j = k
    · rw [if_pos hjk] at hpos
      exact absurd hpos (lt_irrefl 0)
    · rw [if_neg hjk] at hpos
      exact ⟨hjk, hj, hpos⟩
  · rintro ⟨hjk, hj, hpos⟩
    rw [(h.clearLeaf hk).2 j hj, if_neg hjk]
    exact ⟨hj, hpos⟩

omit [IsStrictOrderedRing K] in
lemma length_drawLeaves (leaves : ℕ) (replace : Bool) (us : List K) (w : ℕ → K) :
    (drawLeaves leaves replace us w).length = us.length := by
  induction us generalizing w with
  | nil => rfl
  | cons u us ih => rw [drawLeaves, List.length_cons, ih, List.length_cons]

/-- **Draws without replacement** are as many different leaves as there are with a weight. -/
theorem Sums.drawLeaves_once (h : Sums leaves w) {us : List K} (hus : ∀ u ∈ us, 0 < u ∧ u ≤ 1) :
    (drawLeaves leaves false us w).reduceOption.Nodup ∧
      (∀ k ∈ (drawLeaves leaves false us w).reduceOption, k ∈ drawable leaves w) ∧
      (drawLeaves leaves false us w).reduceOption.length =
        min us.length (drawable leaves w).card := by
  induction us generalizing w with
  | nil => exact ⟨List.nodup_nil, nofun, (Nat.zero_min _).symm⟩
  | cons u us ih =>
      have hus' : ∀ u ∈ us, 0 < u ∧ u ≤ 1 := fun u hu => hus u (List.mem_cons_of_mem _ hu)
      rw [drawLeaves]
      by_cases hroot : w 1 ≤ 0
      · have hdraw : drawLeaf leaves false u w = (none, w) := if_pos hroot
        obtain ⟨hnodup, hmem, hlen⟩ := ih h hus'
        rw [hdraw, List.reduceOption_cons_of_none]
        refine ⟨hnodup, hmem, ?_⟩
        rw [hlen, h.drawable_eq_empty hroot, Finset.card_empty, Nat.min_zero, Nat.min_zero]
      · obtain ⟨hu, hu'⟩ := hus u List.mem_cons_self
        obtain ⟨k, hk, hdraw⟩ := h.drawLeaf_spec hroot hu hu' false
        have hlt := (mem_drawable.1 hk).1
        have hdraw : drawLeaf leaves false u w =
            (some k, DglAscend.clearLeaf leaves (leaves + k + 1) (leaves + k) w) := hdraw
        obtain ⟨hnodup, hmem, hlen⟩ := ih (h.clearLeaf hlt).1 hus'
        rw [h.drawable_clearLeaf hlt] at hmem hlen
        rw [hdraw, List.reduceOption_cons_of_some]
        refine ⟨List.nodup_cons.2 ⟨fun hin => ?_, hnodup⟩, fun j hj => ?_, ?_⟩
        · exact (Finset.mem_erase.1 (hmem k hin)).1 rfl
        · rcases List.mem_cons.1 hj with rfl | hj
          · exact hk
          · exact (Finset.mem_erase.1 (hmem j hj)).2
        · have hcard := Finset.card_pos.2 ⟨k, hk⟩
          rw [List.length_cons, hlen, Finset.card_erase_of_mem hk, List.length_cons]
          omega

/-- **Draws with replacement** are leaves with a weight, if there is one. -/
theorem Sums.drawLeaves_replace (h : Sums leaves w) {us : List K} (hus : ∀ u ∈ us, 0 < u ∧ u ≤ 1) :
    (∀ k ∈ (drawLeaves leaves true us w).reduceOption, k ∈ drawable leaves w) ∧
      (drawLeaves leaves true us w).reduceOption.length =
        if (drawable leaves w).card = 0 then 0 else us.length := by
  induction us with
  | nil => exact ⟨nofun, (ite_self 0).symm⟩
  | cons u us ih =>
      have hus' : ∀ u ∈ us, 0 < u ∧ u ≤ 1 := fun u hu => hus u (List.mem_cons_of_mem _ hu)
      obtain ⟨hmem, hlen⟩ := ih hus'
      rw [drawLeaves]
      by_cases hroot : w 1 ≤ 0
      · have hdraw : drawLeaf leaves true u w = (none, w) := if_pos hroot
        have hempty : (drawable leaves w).card = 0 := by
          rw [h.drawable_eq_empty hroot, Finset.card_empty]
        rw [if_pos hempty] at hlen ⊢
        rw [hdraw, List.reduceOption_cons_of_none]
        exact ⟨hmem, hlen⟩
      · obtain ⟨hu, hu'⟩ := hus u List.mem_cons_self
        obtain ⟨k, hk, hdraw⟩ := h.drawLeaf_spec hroot hu hu' true
        have hdraw : drawLeaf leaves true u w = (some k, w) := hdraw
        have hsome : (drawable leaves w).card ≠ 0 := (Finset.card_pos.2 ⟨k, hk⟩).ne'
        rw [if_neg hsome] at hlen ⊢
        rw [hdraw, List.reduceOption_cons_of_some]
        refine ⟨fun j hj => ?_, by rw [List.length_cons, hlen, List.length_cons]⟩
        rcases List.mem_cons.1 hj with rfl | hj
        · exact hk
        · exact hmem j hj

end DglAscend
