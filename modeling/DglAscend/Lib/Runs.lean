import Mathlib.Data.List.Chain
import Mathlib.Data.List.Count
import Mathlib.Data.List.Flatten
import Mathlib.Algebra.BigOperators.Group.List.Basic
import Mathlib.Algebra.GroupWithZero.Nat
import Mathlib.Data.List.GetD

/-!
# Runs of equal elements

A list is cut where neighbours differ.  Every run has its element and its length.  What is collected
run by run is a collection of distinct elements exactly if equal elements stand together, and under an
order that means that the list is sorted.
-/

namespace DglAscend

variable {α : Type*}

/-- The list that runs stand for. -/
def expandRuns (rs : List (α × ℕ)) : List α := rs.flatMap fun r => List.replicate r.2 r.1

/-- The runs of a list: they make up the list, none is empty, and neighbours differ. -/
structure IsRuns (l : List α) (rs : List (α × ℕ)) : Prop where
  expand : expandRuns rs = l
  pos : ∀ r ∈ rs, 0 < r.2
  chain : (rs.map Prod.fst).IsChain (· ≠ ·)

variable {l : List α} {rs : List (α × ℕ)} {a : α} {n : ℕ}

lemma expandRuns_append (rs rs' : List (α × ℕ)) :
    expandRuns (rs ++ rs') = expandRuns rs ++ expandRuns rs' := List.flatMap_append

lemma expandRuns_singleton (a : α) (n : ℕ) : expandRuns [(a, n)] = List.replicate n a :=
  List.flatMap_singleton _ _

/-! ## Collecting the runs -/

lemma isRuns_nil : IsRuns ([] : List α) [] := ⟨rfl, nofun, List.isChain_nil⟩

/-- **An equal element** lengthens the last run. -/
lemma IsRuns.grow (h : IsRuns l (rs ++ [(a, n)])) : IsRuns (l ++ [a]) (rs ++ [(a, n + 1)]) where
  expand := by
    rw [← h.expand, expandRuns_append, expandRuns_append, expandRuns_singleton, expandRuns_singleton,
      List.replicate_succ', List.append_assoc]
  pos r hr := by
    rcases List.mem_append.1 hr with hr | hr
    · exact h.pos r (List.mem_append_left _ hr)
    · rw [List.mem_singleton.1 hr]
      exact Nat.succ_pos n
  chain := by
    have hchain := h.chain
    rw [List.map_append] at hchain ⊢
    exact hchain

/-- **Another element** begins a run. -/
lemma IsRuns.begin (h : IsRuns l rs) (hne : (rs.map Prod.fst).getLast? ≠ some a) :
    IsRuns (l ++ [a]) (rs ++ [(a, 1)]) where
  expand := by
    rw [← h.expand, expandRuns_append, expandRuns_singleton]
    rfl
  pos r hr := by
    rcases List.mem_append.1 hr with hr | hr
    · exact h.pos r hr
    · rw [List.mem_singleton.1 hr]
      exact Nat.one_pos
  chain := by
    rw [List.map_append, List.isChain_append]
    refine ⟨h.chain, List.isChain_singleton _, fun x hx y hy hxy => hne ?_⟩
    have hay : a = y := Option.some_inj.1 hy
    rw [hay, ← hxy]
    exact hx

/-- **Side by side**, where nothing in the one list is in the other. -/
lemma IsRuns.append {l' : List α} {rs' : List (α × ℕ)} (h : IsRuns l rs) (h' : IsRuns l' rs')
    (hne : ∀ a ∈ rs.map Prod.fst, ∀ b ∈ rs'.map Prod.fst, a ≠ b) : IsRuns (l ++ l') (rs ++ rs') where
  expand := by rw [expandRuns_append, h.expand, h'.expand]
  pos r hr := (List.mem_append.1 hr).elim (h.pos r) (h'.pos r)
  chain := by
    rw [List.map_append, List.isChain_append]
    exact ⟨h.chain, h'.chain, fun a ha b hb =>
      hne a (List.mem_of_getLast? ha) b (List.mem_of_head? hb)⟩

lemma map_expandRuns {β : Type*} (f : α → β) (rs : List (α × ℕ)) :
    (expandRuns rs).map f = expandRuns (rs.map fun r => (f r.1, r.2)) := by
  rw [expandRuns, expandRuns, List.map_flatMap, List.flatMap_map]
  congr 1
  funext r
  exact List.map_replicate

lemma IsRuns.map {β : Type*} {f : α → β} (h : IsRuns l rs) (hf : Function.Injective f) :
    IsRuns (l.map f) (rs.map fun r => (f r.1, r.2)) where
  expand := by rw [← map_expandRuns, h.expand]
  pos r hr := by
    obtain ⟨s, hs, rfl⟩ := List.mem_map.1 hr
    exact h.pos s hs
  chain := by
    have hkeys : (rs.map fun r => (f r.1, r.2)).map Prod.fst = (rs.map Prod.fst).map f := by
      rw [List.map_map, List.map_map]
      rfl
    rw [hkeys, List.isChain_map]
    exact h.chain.imp fun a b hab heq => hab (hf heq)

/-! ## What the runs say -/

namespace IsRuns

lemma mem_iff (h : IsRuns l rs) : a ∈ rs.map Prod.fst ↔ a ∈ l := by
  rw [← h.expand, expandRuns, List.mem_flatMap, List.mem_map]
  constructor
  · rintro ⟨r, hr, rfl⟩
    exact ⟨r, hr, List.mem_replicate.2 ⟨(h.pos r hr).ne', rfl⟩⟩
  · rintro ⟨r, hr, ha⟩
    exact ⟨r, hr, (List.mem_replicate.1 ha).2.symm⟩

lemma sum_eq (h : IsRuns l rs) : (rs.map Prod.snd).sum = l.length := by
  rw [← h.expand, expandRuns, List.length_flatMap]
  congr 1
  exact List.map_congr_left fun r _ => List.length_replicate.symm

/-- **Multiplicities.**  Where no element has two runs, a run is as long as its element is frequent. -/
theorem count_eq [BEq α] [LawfulBEq α] (h : IsRuns l rs) (hnodup : (rs.map Prod.fst).Nodup) {r : α × ℕ}
    (hr : r ∈ rs) : l.count r.1 = r.2 := by
  rw [← h.expand]
  obtain ⟨before, after, rfl⟩ := List.append_of_mem hr
  rw [List.map_append, List.map_cons, List.nodup_append] at hnodup
  have hbefore : r.1 ∉ expandRuns before := by
    intro hmem
    obtain ⟨s, hs, hrs⟩ := List.mem_flatMap.1 hmem
    have heq := (List.mem_replicate.1 hrs).2
    exact hnodup.2.2 s.1 (List.mem_map_of_mem hs) r.1 List.mem_cons_self heq.symm
  have hafter : r.1 ∉ expandRuns after := by
    intro hmem
    obtain ⟨s, hs, hrs⟩ := List.mem_flatMap.1 hmem
    have heq := (List.mem_replicate.1 hrs).2
    exact (List.nodup_cons.1 hnodup.2.1).1 (heq ▸ List.mem_map_of_mem hs)
  have hself : expandRuns (r :: after) = List.replicate r.2 r.1 ++ expandRuns after :=
    List.flatMap_cons
  rw [expandRuns_append, hself, List.count_append, List.count_append, List.count_eq_zero.2 hbefore,
    List.count_eq_zero.2 hafter, List.count_replicate_self]
  omega

/-- **Sorted runs.**  The elements of the runs are in strict order exactly if the list is sorted. -/
theorem pairwise_iff (h : IsRuns l rs) {R : α → α → Prop} (hrefl : ∀ a, R a a)
    (htrans : ∀ a b c, R a b → R b c → R a c) (hanti : ∀ a b, R a b → R b a → a = b) :
    (rs.map Prod.fst).Pairwise (fun a b => R a b ∧ a ≠ b) ↔ l.Pairwise R := by
  rw [← h.expand, expandRuns, List.pairwise_flatMap, List.pairwise_map]
  constructor
  · intro hkeys
    constructor
    · intro r _
      exact List.pairwise_replicate.2 (Or.inr (hrefl r.1))
    · apply hkeys.imp
      intro r s hrs x hx y hy
      rw [(List.mem_replicate.1 hx).2, (List.mem_replicate.1 hy).2]
      exact hrs.1
  · intro hlist
    have hle : (rs.map Prod.fst).Pairwise R := by
      rw [List.pairwise_map]
      apply hlist.2.imp_of_mem
      intro r s hr hs hrs
      exact hrs _ (List.mem_replicate.2 ⟨(h.pos r hr).ne', rfl⟩) _
        (List.mem_replicate.2 ⟨(h.pos s hs).ne', rfl⟩)
    have htrans' : Trans (fun a b => R a b ∧ a ≠ b) (fun a b => R a b ∧ a ≠ b)
        (fun a b => R a b ∧ a ≠ b) := by
      constructor
      rintro a b c ⟨hab, hne⟩ ⟨hbc, -⟩
      refine ⟨htrans a b c hab hbc, fun hac => hne (hanti a b hab ?_)⟩
      rw [hac]
      exact hbc
    have hstrict : (rs.map Prod.fst).IsChain fun a b => R a b ∧ a ≠ b := by
      rw [List.isChain_iff_getElem]
      intro i hi
      exact ⟨List.isChain_iff_getElem.1 hle.isChain i hi, List.isChain_iff_getElem.1 h.chain i hi⟩
    exact List.pairwise_map.1 hstrict.pairwise

end IsRuns

/-! ## The number of the run -/

lemma mem_expandRuns {rs : List (α × ℕ)} (h : a ∈ expandRuns rs) : a ∈ rs.map Prod.fst := by
  obtain ⟨r, hr, ha⟩ := List.mem_flatMap.1 h
  rw [(List.mem_replicate.1 ha).2]
  exact List.mem_map_of_mem hr

/-- **Repeating the numbers** `0, 1, …` by the lengths of the runs gives every element the number of
its run. -/
theorem IsRuns.numbers (h : IsRuns l rs) (d : α) :
    (expandRuns ((List.range rs.length).zip (rs.map Prod.snd))).map
      (fun i => (rs.map Prod.fst).getD i d) = l := by
  rw [map_expandRuns, ← h.expand]
  congr 1
  apply List.ext_getElem
  · simp
  · intro i hi hi'
    simp only [List.getElem_map, List.getElem_zip, List.getElem_range]
    rw [List.getD_eq_getElem _ _ (by rwa [List.length_map]), List.getElem_map]

lemma lt_of_mem_numbers {ns : List ℕ} {i : ℕ} (h : i ∈ expandRuns ((List.range ns.length).zip ns)) :
    i < ns.length := by
  obtain ⟨r, hr, rfl⟩ := List.mem_map.1 (mem_expandRuns h)
  exact List.mem_range.1 (List.of_mem_zip hr).1

/-- Lists one behind the other, each with a number of its own. -/
theorem isRuns_flatMap {n : ℕ} {part : ℕ → List α} {runs : ℕ → List (α × ℕ)}
    (h : ∀ i < n, IsRuns (part i) (runs i)) :
    IsRuns ((List.range n).flatMap fun i => (part i).map fun a => (i, a))
      ((List.range n).flatMap fun i => (runs i).map fun r => ((i, r.1), r.2)) := by
  induction n with
  | zero => exact isRuns_nil
  | succ n ih =>
      rw [List.range_succ, List.flatMap_append, List.flatMap_append, List.flatMap_singleton,
        List.flatMap_singleton]
      refine (ih fun i hi => h i (Nat.lt_succ_of_lt hi)).append
        ((h n (Nat.lt_succ_self n)).map fun a b hab => congrArg Prod.snd hab) fun a ha b hb hab => ?_
      rw [List.map_flatMap] at ha
      obtain ⟨i, hi, ha⟩ := List.mem_flatMap.1 ha
      rw [List.map_map] at ha hb
      obtain ⟨r, -, rfl⟩ := List.mem_map.1 ha
      obtain ⟨r', -, rfl⟩ := List.mem_map.1 hb
      exact (List.mem_range.1 hi).ne (congrArg Prod.fst hab)

end DglAscend
