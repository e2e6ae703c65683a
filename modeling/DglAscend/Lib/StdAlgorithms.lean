import Mathlib.Data.List.Sort
import Mathlib.Data.List.TakeDrop
import Mathlib.Data.List.TakeWhile

/-!
# Algorithms of the standard library

What the algorithms of `<algorithm>` promise: sorting leaves equal elements in any order, and the
searches are about ranges that are sorted.
-/

namespace DglAscend

/-- `std::sort` with a comparison that is a strict weak order: elements that compare equal may come
in any order. -/
structure StdSort (α : Type) where
  run : (α → α → Bool) → List α → List α
  perm : ∀ lt l, (run lt l).Perm l
  sorted : ∀ lt l, (∀ a b, lt a b = true → lt b a = false) →
    (∀ a b c, lt b a = false → lt c b = false → lt c a = false) →
    (run lt l).Pairwise fun a b => lt b a = false

/-- Elements that compare equal stay in their order. -/
def stableSort (α : Type) : StdSort α where
  run lt l := l.insertionSort fun a b => lt b a = false
  perm _ l := List.perm_insertionSort _ l
  sorted lt l hasymm htrans := by
    have htotal : Std.Total fun a b => lt b a = false := by
      refine ⟨fun a b => ?_⟩
      cases hab : lt b a with
      | false => exact Or.inl rfl
      | true => exact Or.inr (hasymm b a hab)
    have htrans' : IsTrans α fun a b => lt b a = false := ⟨fun a b c => htrans a b c⟩
    exact List.pairwise_insertionSort _ l

/-- An order that the library does not specify. -/
structure AnyOrder (α : Type) where
  run : List α → List α
  perm : ∀ l, (run l).Perm l

/-- A sorted list keeps an order if only elements that come apart do. -/
lemma pairwise_iff_of_sorted {α : Type*} {R S : α → α → Prop} {l : List α} (hl : l.Pairwise R)
    (hrefl : ∀ a, R a a) (htie : ∀ a b, R a b → R b a → S a b) :
    l.Pairwise S ↔ ∀ a ∈ l, ∀ b ∈ l, ¬ R b a → S a b := by
  constructor
  · intro hS a ha b hb hba
    obtain ⟨i, hi, rfl⟩ := List.mem_iff_getElem.1 ha
    obtain ⟨j, hj, rfl⟩ := List.mem_iff_getElem.1 hb
    rcases Nat.lt_trichotomy i j with hij | rfl | hij
    · exact List.pairwise_iff_getElem.1 hS i j hi hj hij
    · exact absurd (hrefl _) hba
    · exact absurd (List.pairwise_iff_getElem.1 hl j i hj hi hij) hba
  · intro hall
    apply List.Pairwise.imp_of_mem _ hl
    intro a b ha hb hab
    by_cases hba : R b a
    · exact htie a b hab hba
    · exact hall a ha b hb hba

/-! ## Searching -/

section Search

variable {α : Type*} {key : α → ℕ} {v : ℕ} {l : List α}

/-- `std::lower_bound`: the elements from the first one on whose key is not less. -/
def lowerBound (key : α → ℕ) (v : ℕ) (l : List α) : List α := l.dropWhile fun a => key a < v

/-- `std::binary_search`. -/
def binarySearch (key : α → ℕ) (v : ℕ) (l : List α) : Bool :=
  match lowerBound key v l with
  | [] => false
  | a :: _ => key a = v

/-- The loop of `std::lower_bound` over `count` places from `first` on. -/
def lowerBoundLoop (below : ℕ → Bool) : ℕ → ℕ → ℕ → ℕ
  | 0, first, _ => first
  | fuel + 1, first, count =>
    if count = 0 then first
    else if below (first + count / 2) then
      lowerBoundLoop below fuel (first + count / 2 + 1) (count - (count / 2 + 1))
    else lowerBoundLoop below fuel first (count / 2)

/-- The loop ends between the places below and the others. -/
lemma lowerBoundLoop_spec {below : ℕ → Bool} {n fuel first count : ℕ}
    (hbelow : ∀ i j, i ≤ j → j < n → below j = true → below i = true) (hfuel : count ≤ fuel)
    (hn : first + count ≤ n) (hlow : ∀ j < first, below j = true)
    (hhigh : ∀ j, first + count ≤ j → j < n → below j = false) :
    lowerBoundLoop below fuel first count ≤ n ∧
      (∀ j < lowerBoundLoop below fuel first count, below j = true) ∧
      ∀ j, lowerBoundLoop below fuel first count ≤ j → j < n → below j = false := by
  induction fuel generalizing first count with
  | zero =>
      obtain rfl : count = 0 := Nat.le_zero.1 hfuel
      exact ⟨hn, hlow, hhigh⟩
  | succ fuel ih =>
      rw [lowerBoundLoop]
      split_ifs with hcount hmid
      · subst hcount
        exact ⟨hn, hlow, hhigh⟩
      · refine ih (by omega) (by omega) (fun j hj => ?_) fun j hj => hhigh j (by omega)
        exact hbelow j (first + count / 2) (by omega) (by omega) hmid
      · refine ih (by omega) (by omega) hlow fun j hj hjn => ?_
        exact Bool.eq_false_iff.2 fun hlt => hmid (hbelow _ j hj hjn hlt)

section

variable (h : (l.map key).Pairwise (· ≤ ·))
include h

/-- **The binary search** comes to the same place as a search from the front, if the keys are sorted. -/
theorem lowerBound_eq_drop : lowerBound key v l =
      l.drop (lowerBoundLoop (fun i => l[i]?.any (key · < v)) l.length 0 l.length) := by
  have hbelow : ∀ i j, i ≤ j → j < l.length → (l[j]?.any (key · < v)) = true →
      (l[i]?.any (key · < v)) = true := by
    intro i j hij hj hlt
    rw [List.getElem?_eq_getElem hj] at hlt
    rw [List.getElem?_eq_getElem (hij.trans_lt hj)]
    simp only [Option.any_some, decide_eq_true_eq] at hlt ⊢
    rcases hij.eq_or_lt with rfl | hij
    · exact hlt
    · exact (List.pairwise_iff_getElem.1 (List.pairwise_map.1 h) i j _ hj hij).trans_lt hlt
  obtain ⟨-, hlow, hhigh⟩ := lowerBoundLoop_spec hbelow le_rfl (Nat.zero_add l.length).le
    (fun j hj => absurd hj (Nat.not_lt_zero j)) (fun j hj hjn => by omega)
  set place := lowerBoundLoop (fun i => l[i]?.any (key · < v)) l.length 0 l.length
  have hfront : ∀ a ∈ l.take place, decide (key a < v) = true := by
    intro a ha
    obtain ⟨i, hi, rfl⟩ := List.getElem_of_mem ha
    rw [List.length_take, Nat.lt_min] at hi
    simpa [List.getElem?_eq_getElem hi.2] using hlow i hi.1
  rw [lowerBound]
  nth_rewrite 1 [← List.take_append_drop place l]
  rw [List.dropWhile_append_of_pos hfront, List.dropWhile_eq_self_iff]
  intro hpos hlt
  rw [List.length_drop] at hpos
  have hplace := hhigh place le_rfl (by omega)
  rw [List.getElem?_eq_getElem (by omega)] at hplace
  rw [List.getElem_drop] at hlt
  simp only [Nat.add_zero, Option.any_some] at hlt hplace
  rw [hlt] at hplace
  cases hplace

/-- Behind the lower bound the elements with the key come first. -/
lemma takeWhile_of_le (hle : ∀ a ∈ l, v ≤ key a) :
    (l.takeWhile fun a => key a = v) = l.filter fun a => key a = v := by
  induction l with
  | nil => rfl
  | cons a l ih =>
      rw [List.map_cons, List.pairwise_cons] at h
      by_cases hav : key a = v
      · rw [List.takeWhile_cons_of_pos (by simpa using hav),
          List.filter_cons_of_pos (by simpa using hav),
          ih h.2 fun b hb => hle b (List.mem_cons_of_mem _ hb)]
      · have hlt : v < key a := lt_of_le_of_ne (hle a List.mem_cons_self) (Ne.symm hav)
        rw [List.takeWhile_cons_of_neg (by simpa using hav), Eq.comm, List.filter_eq_nil_iff]
        intro b hb
        rcases List.mem_cons.1 hb with rfl | hb
        · simpa using hav
        · have hle := h.1 (key b) (List.mem_map_of_mem hb)
          simp only [decide_eq_true_eq]
          omega

/-- **The elements with a key** are those from the lower bound on, up to the first other key. -/
theorem takeWhile_lowerBound :
    ((lowerBound key v l).takeWhile fun a => key a = v) = l.filter fun a => key a = v := by
  induction l with
  | nil => rfl
  | cons a l ih =>
      have hl := h
      rw [List.map_cons, List.pairwise_cons] at hl
      rw [lowerBound]
      by_cases hav : key a < v
      · rw [List.dropWhile_cons_of_pos (by simpa using hav),
          List.filter_cons_of_neg (by simpa using hav.ne)]
        exact ih hl.2
      · rw [List.dropWhile_cons_of_neg (by simpa using hav)]
        apply takeWhile_of_le h
        intro b hb
        rcases List.mem_cons.1 hb with rfl | hb
        · exact Nat.le_of_not_lt hav
        · exact (Nat.le_of_not_lt hav).trans (hl.1 _ (List.mem_map_of_mem hb))

/-- The first element with a key is the lower bound. -/
lemma head?_lowerBound :
    ((lowerBound key v l).head?.filter fun a => key a = v) = l.find? fun a => key a = v := by
  rw [← List.head?_takeWhile, takeWhile_lowerBound h, List.head?_filter]

theorem binarySearch_eq : binarySearch key v l = l.any fun a => key a = v := by
  have hfilter := takeWhile_lowerBound (v := v) h
  rw [binarySearch]
  cases hlow : lowerBound key v l with
  | nil =>
      rw [hlow, List.takeWhile_nil] at hfilter
      rw [Eq.comm, List.any_eq_false]
      intro a ha hav
      exact (List.filter_eq_nil_iff.1 hfilter.symm) a ha hav
  | cons b rest =>
      rw [hlow] at hfilter
      by_cases hbv : key b = v
      · rw [List.takeWhile_cons_of_pos (by simpa using hbv)] at hfilter
        have hmem : b ∈ l.filter fun a => key a = v := by
          rw [← hfilter]
          exact List.mem_cons_self
        have hany : (l.any fun a => key a = v) = true :=
          List.any_eq_true.2 ⟨b, (List.mem_filter.1 hmem).1, by simpa using hbv⟩
        simp only [hany, hbv, decide_true]
      · rw [List.takeWhile_cons_of_neg (by simpa using hbv)] at hfilter
        have hany : (l.any fun a => key a = v) = false := by
          rw [List.any_eq_false]
          intro a ha hav
          exact (List.filter_eq_nil_iff.1 hfilter.symm) a ha hav
        simp only [hany, hbv, decide_false]

end

end Search

end DglAscend
