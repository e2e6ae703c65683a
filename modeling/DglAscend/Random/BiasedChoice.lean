import DglAscend.Lib.Loops
import DglAscend.Random.TreeSampler

/-!
# Biased choice

`RandomEngine::BiasedChoice` of `choice.cc`: a tag is drawn from a tree of the weights of the tags, and
then a node of the tag, without replacement until the node is a new one.  The numbers of `Uniform`
and of `RandInt` are two arguments.
-/

namespace DglAscend.Random

open TreeSampler

/-- `tag_num_nodes` -/
def tagNodes (split : List ℤ) (tag : ℕ) : ℤ := split.getD (tag + 1) 0 - split.getD tag 0

/-- `prob`, the weights of the tags. -/
def tagProb (split : List ℤ) (bias : List ℚ) : List ℚ :=
  (List.range bias.length).map fun tag => tagNodes split tag * bias.getD tag 0

/-- `RandInt(upper)` -/
def randInt (upper : ℤ) (ints : List ℕ) : Except Stop (ℤ × List ℕ) :=
  if upper ≤ 0 then .error .raised
  else match ints with
    | [] => .error .drawing
    | d :: rest => .ok (d % upper, rest)

/-- The draws with replacement. -/
def biasedAgain (split : List ℤ) : List ℚ → List ℕ → TreeSampler → Except Stop (List ℤ)
  | [], _, _ => .ok []
  | u :: us, ints, s =>
    match (s.draw true u).1 with
    | none => .error .outOfBounds
    | some tag =>
      if tag + 1 < split.length then do
        let (node, rest) ← randInt (tagNodes split tag) ints
        let out ← biasedAgain split us rest (s.draw true u).2
        return (node + split.getD tag 0) :: out
      else .error .outOfBounds

/-- `RandInt(size)` until the node is a new one. -/
def insertNode (size : ℤ) (selected : List ℤ) : List ℕ → Except Stop (ℤ × List ℕ)
  | [] => if selected.length < size then .error .drawing else .error .raised
  | d :: rest =>
    if selected.length < size then
      if d % size ∈ selected then insertNode size selected rest else .ok (d % size, rest)
    else .error .raised

/-- The draws without replacement. -/
def biasedOnce (split : List ℤ) :
    List ℚ → List ℕ → TreeSampler → List (List ℤ) → Except Stop (List ℤ)
  | [], _, _, _ => .ok []
  | u :: us, ints, s, selected =>
    match (s.draw false u).1 with
    | none => .error .outOfBounds
    | some tag =>
      if tag + 1 < split.length then do
        let (node, rest) ← insertNode (tagNodes split tag) (selected.getD tag []) ints
        let out ← biasedOnce split us rest (s.draw false u).2
          (selected.set tag (node :: selected.getD tag []))
        return (node + split.getD tag 0) :: out
      else .error .outOfBounds

/-- The sampler of the tags. -/
def tagSampler (split : List ℤ) (bias : List ℚ) (replace : Bool) : TreeSampler :=
  .ofProb (tagProb split bias) (if replace then none else some bias)

/-- `BiasedChoice` -/
def biasedChoice (us : List ℚ) (ints : List ℕ) (split : List ℤ) (bias : List ℚ) (replace : Bool) :
    Except Stop (List ℤ) :=
  if replace then biasedAgain split us ints (tagSampler split bias true)
  else if ((List.range bias.length).map (tagNodes split)).sum < us.length then .error .raised
  else biasedOnce split us ints (tagSampler split bias false) (List.replicate bias.length [])

/-! ## What is chosen -/

/-- The tags lie one behind the other, and their biases are weights. -/
structure Tags (split : List ℤ) (bias : List ℚ) : Prop where
  length : split.length = bias.length + 1
  sorted : split.Pairwise (· ≤ ·)
  nonneg : ∀ b ∈ bias, 0 ≤ b

/-- A position of a tag. -/
def InTag (split : List ℤ) (tag : ℕ) (x : ℤ) : Prop :=
  split.getD tag 0 ≤ x ∧ x < split.getD (tag + 1) 0

/-- A position of a tag of positive bias. -/
def InBiased (split : List ℤ) (bias : List ℚ) (x : ℤ) : Prop :=
  ∃ tag < bias.length, 0 < bias.getD tag 0 ∧ InTag split tag x

/-- The tags of positive bias. -/
def biased (bias : List ℚ) : Finset ℕ := (Finset.range bias.length).filter (0 < bias.getD · 0)

/-- The positions are as many as are wanted, in tags of positive bias and between the ends of the
tags, and different without replacement. -/
structure ValidBiased (split : List ℤ) (bias : List ℚ) (num : ℕ) (replace : Bool) (out : List ℤ) :
    Prop where
  length : out.length = num
  tags : ∀ x ∈ out, InBiased split bias x
  ends : ∀ x ∈ out, split.getD 0 0 ≤ x ∧ x < split.getD bias.length 0
  once : replace = false → out.Nodup

/-- The numbers hit every node of every tag. -/
def Covers (split : List ℤ) (ints : List ℕ) : Prop :=
  ∀ tag, tag + 1 < split.length → ∀ node, 0 ≤ node → node < tagNodes split tag →
    ∃ d ∈ ints, (d : ℤ) % tagNodes split tag = node

/-- The engine hits every node of every tag again and again, as often as a choice needs. -/
def Plentiful (split : List ℤ) : ℕ → List ℕ → Prop
  | 0, _ => True
  | num + 1, ints => ∃ block rest, ints = block ++ rest ∧ Covers split block ∧ Plentiful split num rest

variable {split : List ℤ} {bias : List ℚ} {tag tag' : ℕ} {x : ℤ}

lemma Tags.mono (h : Tags split bias) {i j : ℕ} (hij : i ≤ j) (hj : j ≤ bias.length) :
    split.getD i 0 ≤ split.getD j 0 := by
  have hlen := h.length
  rw [List.getD_eq_getElem _ _ (by omega), List.getD_eq_getElem _ _ (by omega)]
  rcases hij.eq_or_lt with rfl | hlt
  · exact le_rfl
  · exact List.pairwise_iff_getElem.1 h.sorted i j _ _ hlt

lemma Tags.tagNodes_nonneg (h : Tags split bias) (htag : tag < bias.length) :
    0 ≤ tagNodes split tag := Int.sub_nonneg_of_le (h.mono (Nat.le_succ tag) htag)

lemma Tags.inTag_unique (h : Tags split bias) (hlt : tag < bias.length) (hlt' : tag' < bias.length)
    (htag : InTag split tag x) (htag' : InTag split tag' x) : tag = tag' := by
  obtain ⟨hlow, hhigh⟩ := htag
  obtain ⟨hlow', hhigh'⟩ := htag'
  rcases Nat.lt_trichotomy tag tag' with hcmp | hcmp | hcmp
  · have hmono : split.getD (tag + 1) 0 ≤ split.getD tag' 0 := h.mono hcmp hlt'.le
    omega
  · exact hcmp
  · have hmono : split.getD (tag' + 1) 0 ≤ split.getD tag 0 := h.mono hcmp hlt.le
    omega

/-- The positions of tags lie between the ends. -/
lemma Tags.ends (h : Tags split bias) (hx : InBiased split bias x) :
    split.getD 0 0 ≤ x ∧ x < split.getD bias.length 0 := by
  obtain ⟨tag, hlt, -, hlow, hhigh⟩ := hx
  exact ⟨(h.mono (Nat.zero_le tag) hlt.le).trans hlow, hhigh.trans_le (h.mono hlt le_rfl)⟩

variable {size node : ℤ}

lemma inTag_add (hlow : 0 ≤ node) (hhigh : node < tagNodes split tag) :
    InTag split tag (node + split.getD tag 0) := by
  rw [tagNodes] at hhigh
  exact ⟨by omega, by omega⟩

/-- A node of a tag at a position of positive bias shows the bias of the tag. -/
lemma Tags.bias_pos (h : Tags split bias) (htag : tag < bias.length) (hlow : 0 ≤ node)
    (hhigh : node < tagNodes split tag) (hx : InBiased split bias (node + split.getD tag 0)) :
    0 < bias.getD tag 0 := by
  obtain ⟨tag', hlt', hbias, hin⟩ := hx
  rwa [h.inTag_unique htag hlt' (inTag_add hlow hhigh) hin]

/-! ## The sampler of the tags -/

lemma length_tagProb (split : List ℤ) (bias : List ℚ) : (tagProb split bias).length = bias.length := by
  rw [tagProb, List.length_map, List.length_range]

lemma getD_tagProb (htag : tag < bias.length) :
    (tagProb split bias).getD tag 0 = tagNodes split tag * bias.getD tag 0 := by
  rw [List.getD_eq_getElem _ _ (by rwa [length_tagProb])]
  simp only [tagProb, List.getElem_map, List.getElem_range]

lemma Tags.tagProb_nonneg (h : Tags split bias) : ∀ p ∈ tagProb split bias, 0 ≤ p := by
  intro p hp
  obtain ⟨tag, htag, rfl⟩ := List.mem_map.1 hp
  exact mul_nonneg (Int.cast_nonneg (h.tagNodes_nonneg (List.mem_range.1 htag)))
    (getD_nonneg h.nonneg tag)

/-- The nodes of the tags are the candidates of the sampler. -/
lemma Tags.stocked (h : Tags split bias) : (tagSampler split bias false).Stocked bias.length
    (bias.getD · 0) (fun tag => if tag < bias.length then (tagNodes split tag).toNat else 0) := by
  have hcount (tag : ℕ) (htag : tag < (tagProb split bias).length) :
      (tagProb split bias).getD tag 0 = ((tagNodes split tag).toNat : ℕ) * bias.getD tag 0 := by
    rw [length_tagProb] at htag
    have hsize : (((tagNodes split tag).toNat : ℕ) : ℤ) = tagNodes split tag :=
      Int.toNat_of_nonneg (h.tagNodes_nonneg htag)
    rw [getD_tagProb htag, ← hsize]
    rfl
  have hstock := stocked_some h.tagProb_nonneg hcount
  rwa [length_tagProb] at hstock

/-- The number of candidates in tags of positive bias. -/
lemma Tags.left_eq (h : Tags split bias) : (left bias.length (bias.getD · 0)
    (fun tag => if tag < bias.length then (tagNodes split tag).toNat else 0) : ℤ) =
      ∑ tag ∈ biased bias, tagNodes split tag := by
  rw [left, Nat.cast_sum]
  refine Finset.sum_congr rfl fun tag htag => ?_
  have hlt := Finset.mem_range.1 (Finset.mem_filter.1 htag).1
  rw [if_pos hlt, Int.toNat_of_nonneg (h.tagNodes_nonneg hlt)]

/-! ## With replacement -/

/-- With replacement a tag with a weight is one candidate. -/
lemma Tags.stocked_again (h : Tags split bias) : (tagSampler split bias true).Stocked bias.length
    ((tagProb split bias).getD · 0) (fun tag => if 0 < (tagProb split bias).getD tag 0 then 1 else 0) := by
  have hstock := stocked_none h.tagProb_nonneg
  rwa [length_tagProb] at hstock

lemma Tags.tagProb_pos (h : Tags split bias) (htag : tag < bias.length) :
    0 < (tagProb split bias).getD tag 0 ↔ 0 < tagNodes split tag ∧ 0 < bias.getD tag 0 := by
  rw [getD_tagProb htag]
  constructor
  · intro hpos
    have hnodes : (0 : ℚ) < tagNodes split tag := by
      refine lt_of_le_of_ne (Int.cast_nonneg (h.tagNodes_nonneg htag)) fun hzero => ?_
      rw [← hzero, zero_mul] at hpos
      exact lt_irrefl 0 hpos
    exact ⟨Int.cast_pos.1 hnodes, (mul_pos_iff_of_pos_left hnodes).1 hpos⟩
  · rintro ⟨hnodes, hbias⟩
    exact mul_pos (Int.cast_pos.2 hnodes) hbias

variable {ints rest : List ℕ}

lemma randInt_ok {upper node : ℤ} (hok : randInt upper ints = .ok (node, rest)) :
    0 < upper ∧ 0 ≤ node ∧ node < upper := by
  unfold randInt at hok
  split at hok
  · cases hok
  · rename_i hupper
    have hupper := not_le.1 hupper
    cases ints with
    | nil => cases hok
    | cons d ints =>
        cases hok
        exact ⟨hupper, Int.emod_nonneg _ hupper.ne', Int.emod_lt_of_pos _ hupper⟩

lemma biasedAgain_cons_ok {u : ℚ} {us : List ℚ} {s : TreeSampler} {out : List ℤ}
    (hok : biasedAgain split (u :: us) ints s = .ok out) : ∃ tag node rest out',
      (s.draw true u).1 = some tag ∧ tag + 1 < split.length ∧
        randInt (tagNodes split tag) ints = .ok (node, rest) ∧
          biasedAgain split us rest (s.draw true u).2 = .ok out' ∧
            out = (node + split.getD tag 0) :: out' := by
  rw [biasedAgain] at hok
  cases hdraw : (s.draw true u).1 with
  | none =>
      rw [hdraw] at hok
      cases hok
  | some tag =>
      rw [hdraw] at hok
      simp only at hok
      split at hok
      · rename_i htag
        obtain ⟨⟨node, rest⟩, hint, hok⟩ := bind_eq_ok_iff.1 hok
        obtain ⟨out', hrest, hok⟩ := bind_eq_ok_iff.1 hok
        exact ⟨tag, node, rest, out', rfl, htag, hint, hrest, (Except.ok.inj hok).symm⟩
      · cases hok

section Again

variable {s : TreeSampler} {us : List ℚ} {ints : List ℕ} {out : List ℤ} (h : Tags split bias)
  (hs : s.Stocked bias.length ((tagProb split bias).getD · 0)
    (fun tag => if 0 < (tagProb split bias).getD tag 0 then 1 else 0))
  (hus : ∀ u ∈ us, 0 ≤ u ∧ u < 1)
include h hs hus

lemma Tags.biasedAgain_ok (hints : us.length ≤ ints.length) (hroot : 0 < left bias.length
      ((tagProb split bias).getD · 0) (fun tag => if 0 < (tagProb split bias).getD tag 0 then 1 else 0))
    (hbelow : EachDraw true NotBelow s us) : ∃ out, biasedAgain split us ints s = .ok out ∧
      out.length = us.length ∧ ∀ x ∈ out, InBiased split bias x := by
  induction us generalizing s ints with
  | nil => exact ⟨[], rfl, rfl, nofun⟩
  | cons u us ih =>
      obtain ⟨tag, s', hdraw, -, htag, -, hunit, hnext⟩ :=
        hs.draw true (hus u List.mem_cons_self) (hs.root_pos hroot) hbelow.1
      obtain ⟨hnodes, hbias⟩ := (h.tagProb_pos htag).1 hunit
      have hrest := hbelow.2
      rw [hdraw] at hrest
      cases ints with
      | nil => exact absurd hints (Nat.not_succ_le_zero _)
      | cons d ints =>
          obtain ⟨out, hout, hlen, hmem⟩ := ih hnext (fun u hu => hus u (List.mem_cons_of_mem _ hu))
            (Nat.le_of_succ_le_succ hints) hrest
          have hin := inTag_add (Int.emod_nonneg d hnodes.ne') (Int.emod_lt_of_pos d hnodes)
          refine ⟨(d % tagNodes split tag + split.getD tag 0) :: out, ?_, ?_, ?_⟩
          · rw [biasedAgain, hdraw]
            simp only
            rw [if_pos (by rw [h.length]; omega), randInt, if_neg (not_le.2 hnodes)]
            show (biasedAgain split us ints s').bind _ = _
            rw [hout]
            rfl
          · rw [List.length_cons, hlen, List.length_cons]
          · rintro x hx
            rcases List.mem_cons.1 hx with rfl | hx
            · exact ⟨tag, htag, hbias, hin⟩
            · exact hmem x hx

lemma Tags.eachDraw_of_biasedAgain (hout : biasedAgain split us ints s = .ok out)
    (hmem : ∀ x ∈ out, InBiased split bias x) : EachDraw true NotBelow s us := by
  induction us generalizing s ints out with
  | nil => trivial
  | cons u us ih =>
      obtain ⟨tag, node, rest, out', hdraw, htag, hint, hrest, rfl⟩ := biasedAgain_cons_ok hout
      obtain ⟨hnodes, hlow, hhigh⟩ := randInt_ok hint
      have hlt : tag < bias.length := by
        rw [h.length] at htag
        omega
      have hunit := (h.tagProb_pos hlt).2
        ⟨hnodes, h.bias_pos hlt hlow hhigh (hmem _ List.mem_cons_self)⟩
      obtain ⟨hbelow, hnext⟩ := hs.draw_of_stock true (hus u List.mem_cons_self) hdraw hlt
        (by rw [if_pos hunit]; exact one_pos) hunit
      exact ⟨hbelow, ih hnext (fun u hu => hus u (List.mem_cons_of_mem _ hu)) hrest
        fun x hx => hmem x (List.mem_cons_of_mem _ hx)⟩

end Again

/-! ## Without replacement -/

variable {selected : List ℤ}

lemma insertNode_ok (hok : insertNode size selected ints = .ok (node, rest)) :
    selected.length < size ∧ 0 ≤ node ∧ node < size ∧ node ∉ selected := by
  induction ints with
  | nil =>
      rw [insertNode] at hok
      split at hok <;> cases hok
  | cons d ints ih =>
      rw [insertNode] at hok
      split at hok
      · rename_i hlt
        split at hok
        · exact ih hok
        · rename_i hnew
          have hsize : 0 < size := lt_of_le_of_lt (Int.natCast_nonneg _) hlt
          cases hok
          exact ⟨hlt, Int.emod_nonneg _ hsize.ne', Int.emod_lt_of_pos _ hsize, hnew⟩
      · cases hok

/-- The loop ends within numbers that hit a new node. -/
lemma exists_insertNode (hlt : selected.length < size) (more : List ℕ) {block : List ℕ}
    (hnew : ∃ d ∈ block, (d : ℤ) % size ∉ selected) : ∃ node suffix,
      insertNode size selected (block ++ more) = .ok (node, suffix ++ more) := by
  induction block with
  | nil =>
      obtain ⟨d, hd, -⟩ := hnew
      exact absurd hd List.not_mem_nil
  | cons d block ih =>
      rw [List.cons_append, insertNode, if_pos hlt]
      by_cases hd : (d : ℤ) % size ∈ selected
      · rw [if_pos hd]
        obtain ⟨d', hd', hnew⟩ := hnew
        rcases List.mem_cons.1 hd' with rfl | hd'
        · exact absurd hd hnew
        · exact ih ⟨d', hd', hnew⟩
      · rw [if_neg hd]
        exact ⟨_, block, rfl⟩

/-- A list shorter than a range misses a number of the range. -/
lemma exists_not_mem (hlt : selected.length < size) :
    ∃ node, 0 ≤ node ∧ node < size ∧ node ∉ selected := by
  have hcard : selected.toFinset.card < (Finset.Ico 0 size).card := by
    have hle := selected.toFinset_card_le
    rw [Int.card_Ico]
    omega
  obtain ⟨node, hnode, hnew⟩ := Finset.exists_mem_notMem_of_card_lt_card hcard
  obtain ⟨hlow, hhigh⟩ := Finset.mem_Ico.1 hnode
  exact ⟨node, hlow, hhigh, fun hin => hnew (List.mem_toFinset.2 hin)⟩

lemma Plentiful.append_left {num : ℕ} (h : Plentiful split num ints) (front : List ℕ) :
    Plentiful split num (front ++ ints) := by
  cases num with
  | zero => trivial
  | succ num =>
      obtain ⟨block, rest, rfl, hcovers, hrest⟩ := h
      refine ⟨front ++ block, rest, (List.append_assoc _ _ _).symm, ?_, hrest⟩
      intro tag htag node hlow hhigh
      obtain ⟨d, hd, heq⟩ := hcovers tag htag node hlow hhigh
      exact ⟨d, List.mem_append_right _ hd, heq⟩

/-- The nodes of a tag that are not selected are the candidates that are left. -/
structure Selected (split : List ℤ) (bias : List ℚ) (stock : ℕ → ℕ) (selected : List (List ℤ)) :
    Prop where
  length : selected.length = bias.length
  stock : ∀ tag < bias.length, (stock tag : ℤ) + (selected.getD tag []).length = tagNodes split tag

lemma getD_set {α : Type*} {l : List α} {i : ℕ} (hi : i < l.length) (a : α) (j : ℕ) (d : α) :
    (l.set i a).getD j d = if j = i then a else l.getD j d := by
  by_cases hji : j = i
  · rw [if_pos hji, hji, List.getD_eq_getElem _ _ (by rwa [List.length_set]), List.getElem_set_self]
  · rw [if_neg hji, List.getD_eq_getElem?_getD, List.getD_eq_getElem?_getD,
      List.getElem?_set_ne (Ne.symm hji)]

lemma Selected.insert {stock : ℕ → ℕ} {selected : List (List ℤ)}
    (h : Selected split bias stock selected) (htag : tag < bias.length) (hstock : 0 < stock tag)
    (node : ℤ) : Selected split bias (take stock tag)
      (selected.set tag (node :: selected.getD tag [])) where
  length := (List.length_set).trans h.length
  stock t ht := by
    have hold := h.stock t ht
    rw [getD_set (by rwa [h.length]), take]
    by_cases htt : t = tag
    · rw [if_pos htt, htt, Function.update_self, List.length_cons]
      rw [htt] at hold
      omega
    · rw [if_neg htt, Function.update_of_ne htt]
      exact hold

lemma biasedOnce_cons_ok {u : ℚ} {us : List ℚ} {s : TreeSampler} {selected : List (List ℤ)}
    {out : List ℤ} (hok : biasedOnce split (u :: us) ints s selected = .ok out) :
    ∃ tag node rest out',
      (s.draw false u).1 = some tag ∧ tag + 1 < split.length ∧
        insertNode (tagNodes split tag) (selected.getD tag []) ints = .ok (node, rest) ∧
          biasedOnce split us rest (s.draw false u).2
            (selected.set tag (node :: selected.getD tag [])) = .ok out' ∧
              out = (node + split.getD tag 0) :: out' := by
  rw [biasedOnce] at hok
  cases hdraw : (s.draw false u).1 with
  | none =>
      rw [hdraw] at hok
      cases hok
  | some tag =>
      rw [hdraw] at hok
      simp only at hok
      split at hok
      · rename_i htag
        obtain ⟨⟨node, rest⟩, hint, hok⟩ := bind_eq_ok_iff.1 hok
        obtain ⟨out', hrest, hok⟩ := bind_eq_ok_iff.1 hok
        exact ⟨tag, node, rest, out', rfl, htag, hint, hrest, (Except.ok.inj hok).symm⟩
      · cases hok

section Once

variable {s : TreeSampler} {stock : ℕ → ℕ} {us : List ℚ} {ints : List ℕ} {selected : List (List ℤ)}
  {out : List ℤ} (h : Tags split bias) (hs : s.Stocked bias.length (bias.getD · 0) stock)
  (hsel : Selected split bias stock selected) (hus : ∀ u ∈ us, 0 ≤ u ∧ u < 1)
include h hs hsel hus

lemma Tags.biasedOnce_ok (hleft : us.length ≤ left bias.length (bias.getD · 0) stock)
    (hbelow : EachDraw false NotBelow s us) (hplenty : Plentiful split us.length ints) :
    ∃ out, biasedOnce split us ints s selected = .ok out ∧ out.length = us.length ∧ out.Nodup ∧
      ∀ x ∈ out, ∃ tag < bias.length, 0 < bias.getD tag 0 ∧ InTag split tag x ∧
        x - split.getD tag 0 ∉ selected.getD tag [] := by
  induction us generalizing s stock ints selected with
  | nil => exact ⟨[], rfl, rfl, List.nodup_nil, nofun⟩
  | cons u us ih =>
      obtain ⟨tag, s', hdraw, -, htag, hstock, hunit, hnext⟩ :=
        hs.draw false (hus u List.mem_cons_self) (hs.root_pos (Nat.zero_lt_of_lt hleft)) hbelow.1
      have htake : left bias.length (bias.getD · 0) (take stock tag) + 1 =
          left bias.length (bias.getD · 0) stock := left_take htag hunit hstock
      have hrest := hbelow.2
      rw [hdraw] at hrest
      obtain ⟨block, more, rfl, hcovers, hmore⟩ := hplenty
      have hlen := h.length
      have hroom : (selected.getD tag []).length < tagNodes split tag := by
        have hsum := hsel.stock tag htag
        omega
      -- a node that is left is hit by the next numbers
      obtain ⟨node, hlow, hhigh, hnew⟩ := exists_not_mem hroom
      obtain ⟨d, hd, rfl⟩ := hcovers tag (by omega) node hlow hhigh
      obtain ⟨node, suffix, hinsert⟩ := exists_insertNode hroom more ⟨d, hd, hnew⟩
      obtain ⟨-, hlow, hhigh, hnew⟩ := insertNode_ok hinsert
      obtain ⟨out, hout, houtlen, hnodup, hmem⟩ := ih hnext (hsel.insert htag hstock node)
        (fun u hu => hus u (List.mem_cons_of_mem _ hu))
        (by rw [List.length_cons] at hleft; simp only [Bool.false_eq_true, if_false]; omega) hrest
        (hmore.append_left suffix)
      have hin := inTag_add hlow hhigh
      have hset := getD_set (i := tag) (l := selected) (by rwa [hsel.length])
        (node :: selected.getD tag [])
      refine ⟨(node + split.getD tag 0) :: out, ?_, ?_, List.nodup_cons.2 ⟨fun hx => ?_, hnodup⟩, ?_⟩
      · rw [biasedOnce, hdraw]
        simp only
        rw [if_pos (by omega)]
        exact bind_eq_ok_iff.2 ⟨_, hinsert, bind_eq_ok_iff.2 ⟨_, hout, rfl⟩⟩
      · rw [List.length_cons, houtlen, List.length_cons]
      · obtain ⟨tag', htag', -, hin', hnew'⟩ := hmem _ hx
        obtain rfl := h.inTag_unique htag htag' hin hin'
        rw [hset, if_pos rfl, Int.add_sub_cancel] at hnew'
        exact hnew' List.mem_cons_self
      · intro x hx
        rcases List.mem_cons.1 hx with rfl | hx
        · exact ⟨tag, htag, hunit, hin, by rwa [Int.add_sub_cancel]⟩
        · obtain ⟨tag', htag', hbias', hin', hnew'⟩ := hmem x hx
          refine ⟨tag', htag', hbias', hin', fun hold => hnew' ?_⟩
          rw [hset]
          split
          · rename_i heq
            rw [← heq]
            exact List.mem_cons_of_mem _ hold
          · exact hold

/-- A choice among tags of positive bias had no `0` below the first weight. -/
lemma Tags.eachDraw_of_biasedOnce (hout : biasedOnce split us ints s selected = .ok out)
    (hmem : ∀ x ∈ out, InBiased split bias x) : EachDraw false NotBelow s us := by
  induction us generalizing s stock ints selected out with
  | nil => trivial
  | cons u us ih =>
      obtain ⟨tag, node, rest, out', hdraw, htag, hinsert, hrest, rfl⟩ := biasedOnce_cons_ok hout
      obtain ⟨hroom, hlow, hhigh, -⟩ := insertNode_ok hinsert
      have hlt : tag < bias.length := by
        rw [h.length] at htag
        omega
      have hstock : 0 < stock tag := by
        have hsum := hsel.stock tag hlt
        omega
      obtain ⟨hbelow, hnext⟩ := hs.draw_of_stock false (hus u List.mem_cons_self) hdraw hlt hstock
        (h.bias_pos hlt hlow hhigh (hmem _ List.mem_cons_self))
      exact ⟨hbelow, ih hnext (hsel.insert hlt hstock node)
        (fun u hu => hus u (List.mem_cons_of_mem _ hu)) hrest
        fun x hx => hmem x (List.mem_cons_of_mem _ hx)⟩

end Once

/-! ## The whole choice -/

/-- There are nodes of positive bias: as many as are wanted, or one with replacement. -/
def EnoughNodes (split : List ℤ) (bias : List ℚ) (num : ℕ) (replace : Bool) : Prop :=
  (if replace then 1 else num : ℕ) ≤ ∑ tag ∈ biased bias, tagNodes split tag

/-- The engine has the numbers that a choice needs. -/
def EnoughNumbers (split : List ℤ) (num : ℕ) (replace : Bool) (ints : List ℕ) : Prop :=
  if replace then num ≤ ints.length else Plentiful split num ints

section Whole

variable {us : List ℚ} {ints : List ℕ} (h : Tags split bias) (hus : ∀ u ∈ us, 0 ≤ u ∧ u < 1)
include h

/-- All nodes are at least those of positive bias. -/
lemma Tags.sum_biased_le : ∑ tag ∈ biased bias, tagNodes split tag ≤
    ((List.range bias.length).map (tagNodes split)).sum := by
  rw [← List.sum_toFinset _ List.nodup_range, List.toFinset_range]
  refine Finset.sum_le_sum_of_subset_of_nonneg (Finset.filter_subset _ _) fun tag htag _ => ?_
  exact h.tagNodes_nonneg (Finset.mem_range.1 htag)

/-- One node of positive bias is enough to draw with replacement. -/
lemma Tags.left_again_pos (hnodes : 0 < ∑ tag ∈ biased bias, tagNodes split tag) :
    0 < left bias.length ((tagProb split bias).getD · 0)
      (fun tag => if 0 < (tagProb split bias).getD tag 0 then 1 else 0) := by
  obtain ⟨tag, htag, hne⟩ := Finset.exists_ne_zero_of_sum_ne_zero hnodes.ne'
  obtain ⟨hlt, hbias⟩ := Finset.mem_filter.1 htag
  have hlt := Finset.mem_range.1 hlt
  have hpos := (h.tagProb_pos hlt).2 ⟨lt_of_le_of_ne (h.tagNodes_nonneg hlt) (Ne.symm hne), hbias⟩
  refine Finset.sum_pos' (fun _ _ => Nat.zero_le _) ⟨tag, ?_, ?_⟩
  · exact Finset.mem_filter.2 ⟨Finset.mem_range.2 hlt, hpos⟩
  · rw [if_pos hpos]
    exact one_pos

include hus

/-- **`BiasedChoice`** is valid exactly if no number of the tags is a `0` below the first weight. -/
theorem Tags.biasedChoice_iff {replace : Bool} (hnodes : EnoughNodes split bias us.length replace)
    (hints : EnoughNumbers split us.length replace ints) :
    (∃ out, biasedChoice us ints split bias replace = .ok out ∧
      ValidBiased split bias us.length replace out) ↔
        EachDraw replace NotBelow (tagSampler split bias replace) us := by
  cases replace with
  | true =>
      have hchoice : biasedChoice us ints split bias true =
        biasedAgain split us ints (tagSampler split bias true) := rfl
      rw [hchoice]
      constructor
      · rintro ⟨out, hout, hvalid⟩
        exact h.eachDraw_of_biasedAgain h.stocked_again hus hout hvalid.tags
      · intro hbelow
        obtain ⟨out, hout, hlen, hmem⟩ := h.biasedAgain_ok h.stocked_again hus hints
          (h.left_again_pos (lt_of_lt_of_le Int.one_pos hnodes)) hbelow
        exact ⟨out, hout, hlen, hmem, fun x hx => h.ends (hmem x hx), nofun⟩
  | false =>
      have hchoice : biasedChoice us ints split bias false =
          biasedOnce split us ints (tagSampler split bias false) (List.replicate bias.length []) :=
        if_neg (not_lt.2 (hnodes.trans h.sum_biased_le))
      have hsel : Selected split bias
          (fun tag => if tag < bias.length then (tagNodes split tag).toNat else 0)
          (List.replicate bias.length []) := by
        refine ⟨List.length_replicate, fun tag htag => ?_⟩
        rw [if_pos htag, Int.toNat_of_nonneg (h.tagNodes_nonneg htag),
          List.getD_eq_getElem _ _ (by rwa [List.length_replicate]), List.getElem_replicate,
          List.length_nil, Nat.cast_zero, add_zero]
      rw [hchoice]
      constructor
      · rintro ⟨out, hout, hvalid⟩
        exact h.eachDraw_of_biasedOnce h.stocked hsel hus hout hvalid.tags
      · intro hbelow
        have hleft : us.length ≤ left bias.length (bias.getD · 0)
            (fun tag => if tag < bias.length then (tagNodes split tag).toNat else 0) := by
          have hsum : ((us.length : ℕ) : ℤ) ≤ _ := hnodes.trans h.left_eq.ge
          exact_mod_cast hsum
        obtain ⟨out, hout, hlen, hnodup, hmem⟩ := h.biasedOnce_ok h.stocked hsel hus hleft hbelow hints
        have htags : ∀ x ∈ out, InBiased split bias x := by
          intro x hx
          obtain ⟨tag, htag, hbias, hin, -⟩ := hmem x hx
          exact ⟨tag, htag, hbias, hin⟩
        exact ⟨out, hout, hlen, htags, fun x hx => h.ends (htags x hx), fun _ => hnodup⟩

end Whole

/-- **Weighted choice.**  The tree keeps its sums; and the draws of a sampler, of `Choice` without
replacement and of `BiasedChoice` are what they should be exactly if no number drawn is `0` while the
first category has no weight. -/
theorem weightedChoice_iff (replace : Bool) (us : List ℚ) (hus : ∀ u ∈ us, 0 ≤ u ∧ u < 1)
    (prob : List ℚ) (decrease : Option (List ℚ)) (split : List ℤ) (bias : List ℚ) (ints : List ℕ) :
    ((∀ x ∈ prob, 0 ≤ x) → PerCandidate prob decrease →
      ((ofProb prob decrease).afterDraws replace us).Adds ∧
        (EachDraw replace (fun s u => s.DrawsAvailable prob.length replace u) (ofProb prob decrease) us ↔
          EachDraw replace NotBelow (ofProb prob decrease) us)) ∧
    ((∀ x ∈ prob, 0 ≤ x) → us.length ≤ prob.countP (fun x => 0 < x) →
      ((∃ picks : List ℕ, choice us prob false = .ok (picks.map some) ∧ picks.Nodup ∧
        ∀ t ∈ picks, t < prob.length ∧ 0 < prob.getD t 0) ↔
          EachDraw false NotBelow (ofProb prob none) us)) ∧
    (Tags split bias → EnoughNodes split bias us.length replace →
      EnoughNumbers split us.length replace ints →
        ((∃ out, biasedChoice us ints split bias replace = .ok out ∧
          ValidBiased split bias us.length replace out) ↔
            EachDraw replace NotBelow (tagSampler split bias replace) us)) :=
  ⟨fun hprob hdecrease =>
      ⟨adds_afterDraws prob decrease replace us, eachDraw_ofProb_iff replace hprob hdecrease hus⟩,
    fun hprob henough => choice_once_iff hprob hus henough,
    fun h hnodes hints => h.biasedChoice_iff hus hnodes hints⟩

lemma tags_two : Tags [0, 2, 3] [1, 0] := ⟨rfl, by decide, by decide⟩

lemma covers_two : Covers [0, 2, 3] [0, 1] := by
  intro tag htag node hlow hhigh
  have htag : tag < 2 := Nat.lt_of_succ_lt_succ htag
  interval_cases tag
  · have hhigh : node < 2 := hhigh
    interval_cases node
    · exact ⟨0, by decide, by decide⟩
    · exact ⟨1, by decide, by decide⟩
  · have hhigh : node < 1 := hhigh
    interval_cases node
    exact ⟨0, by decide, by decide⟩

lemma enoughNodes_two : EnoughNodes [0, 2, 3] [1, 0] 2 false := by
  show ((2 : ℕ) : ℤ) ≤ ∑ tag ∈ (Finset.range 2).filter fun tag => (0 : ℚ) < [1, 0].getD tag 0,
    tagNodes [0, 2, 3] tag
  decide +kernel

theorem weightedChoice_twoTags : ∃ out,
    biasedChoice [1 / 2, 1 / 3] [0, 1, 0, 1] [0, 2, 3] [1, 0] false = .ok out ∧
      ValidBiased [0, 2, 3] [1, 0] 2 false out :=
  ((weightedChoice_iff false [1 / 2, 1 / 3]
    (by rw [List.forall_mem_cons, List.forall_mem_singleton]; norm_num) [] none [0, 2, 3] [1, 0]
    [0, 1, 0, 1]).2.2 tags_two enoughNodes_two
      ⟨[0, 1], [0, 1], rfl, covers_two, [0, 1], [], rfl, covers_two, trivial⟩).2
        ⟨fun _ => .inl (by norm_num), fun _ => .inl (by norm_num), trivial⟩

/-- The number `0` draws a category without a weight, and draws it again. -/
theorem not_drawsAvailable_zero :
    ¬DrawsAvailable 2 false (ofProb [0, 1] none) 0 ∧
      choice [0, 0] [0, 1, 1] false = .ok [some 0, some 0] := by
  refine ⟨fun havail => ?_, by decide +kernel⟩
  obtain ⟨t, -, hdraw, hpos⟩ := havail (by decide +kernel)
  have hfirst : ((ofProb [0, 1] none).draw false 0).1 = some 0 := by decide +kernel
  obtain rfl : 0 = t := Option.some.inj (hfirst.symm.trans hdraw)
  rw [leaf_ofProb] at hpos
  exact lt_irrefl 0 hpos

end DglAscend.Random
