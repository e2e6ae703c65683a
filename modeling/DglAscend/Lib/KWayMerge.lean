import Mathlib.Data.List.Basic
import Mathlib.Data.List.Perm.Basic
import Mathlib.Order.Lattice

/-!
# Merging many lists

One step of a merge takes the head of a list whose key is least among the heads.  Whatever list is
taken on equal keys, the merge is a rearrangement of all the items, and it is sorted when every list
is.
-/

namespace DglAscend

variable {α κ : Type*} [LinearOrder κ] {key : α → κ} {rest : List (List α)} {out : List α}

/-- `out` is a merge of the lists of `rest`. -/
inductive Merges (key : α → κ) : List (List α) → List α → Prop
  | done {rest : List (List α)} : (∀ l ∈ rest, l = []) → Merges key rest []
  | step {rest : List (List α)} {j : ℕ} {a : α} {tail out : List α} :
      rest[j]? = some (a :: tail) → (∀ l ∈ rest, ∀ b ∈ l.head?, key a ≤ key b) →
      Merges key (rest.set j tail) out → Merges key rest (a :: out)

/-- Taking the head of one list takes one item. -/
lemma perm_flatten_set {j : ℕ} {a : α} {tail : List α} (hget : rest[j]? = some (a :: tail)) :
    rest.flatten.Perm (a :: (rest.set j tail).flatten) := by
  induction rest generalizing j with
  | nil => cases hget
  | cons l ls ih =>
      cases j with
      | zero =>
          rw [List.getElem?_cons_zero, Option.some.injEq] at hget
          rw [hget]
          exact List.Perm.refl _
      | succ j =>
          rw [List.getElem?_cons_succ] at hget
          rw [List.set_cons_succ, List.flatten_cons, List.flatten_cons]
          exact ((ih hget).append_left l).trans List.perm_middle

/-- A merge has the items of the lists. -/
theorem Merges.perm (h : Merges key rest out) : out.Perm rest.flatten := by
  induction h with
  | done hnil =>
      rw [List.flatten_eq_nil_iff.2 hnil]
  | step hget _ _ ih =>
      exact ((ih.cons _).trans (perm_flatten_set hget).symm)

/-- A merge of sorted lists is sorted. -/
theorem Merges.pairwise (h : Merges key rest out)
    (hsorted : ∀ l ∈ rest, l.Pairwise fun a b => key a ≤ key b) :
    out.Pairwise fun a b => key a ≤ key b := by
  induction h with
  | done _ => exact List.Pairwise.nil
  | @step rest j a tail out hget hleast hrest ih =>
      have hj : a :: tail ∈ rest := List.mem_of_getElem? hget
      have htail : ∀ l ∈ rest.set j tail, l ∈ rest ∨ l = tail := fun l hl =>
        List.mem_or_eq_of_mem_set hl
      have hset : ∀ l ∈ rest.set j tail, l.Pairwise fun a b => key a ≤ key b := by
        intro l hl
        rcases htail l hl with hl | rfl
        · exact hsorted l hl
        · exact (List.pairwise_cons.1 (hsorted _ hj)).2
      refine List.pairwise_cons.2 ⟨?_, ih hset⟩
      intro b hb
      -- an item that is left stands behind the head of its own list
      obtain ⟨l, hl, hbl⟩ := List.mem_flatten.1 (hrest.perm.mem_iff.1 hb)
      rcases htail l hl with hl | rfl
      · cases l with
        | nil => cases hbl
        | cons c cs =>
            have hhead : key a ≤ key c := hleast _ hl c rfl
            rcases List.mem_cons.1 hbl with rfl | hbl
            · exact hhead
            · exact le_trans hhead ((List.pairwise_cons.1 (hsorted _ hl)).1 b hbl)
      · exact (List.pairwise_cons.1 (hsorted _ hj)).1 b hbl

end DglAscend
