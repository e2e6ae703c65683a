import DglAscend.Lib.Loops
import DglAscend.Lib.Slots

/-!
# Loops in chunks

The threads of a loop get consecutive chunks of its numbers, all of one size except where the numbers end.
What the loop writes for a number is then what a single thread writes for it.
-/

namespace DglAscend

/-- `begin_tid`, or the end of the loop. -/
def chunkBegin (n numThreads tid : ℕ) : ℕ := min n (tid * ((n + numThreads - 1) / numThreads))

/-- The numbers of a thread. -/
def chunk (n numThreads tid : ℕ) : List ℕ :=
  List.range' (chunkBegin n numThreads tid)
    (chunkBegin n numThreads (tid + 1) - chunkBegin n numThreads tid)

variable {α ε : Type} {n numThreads : ℕ}

/-- A loop whose body returns what it writes for a number, or throws: every thread works on its chunk, and
the loop throws what a thread has thrown. -/
def parallelFor (numThreads n : ℕ) (body : ℕ → Except ε α) : Except ε (List α) :=
  ((List.range numThreads).mapM fun tid => (chunk n numThreads tid).mapM body).map List.flatten

/-- **The chunks** are all the numbers. -/
theorem flatMap_chunk (h : 0 < numThreads) :
    (List.range numThreads).flatMap (chunk n numThreads) = List.range n := by
  have hmono : ∀ tid < numThreads, chunkBegin n numThreads tid ≤ chunkBegin n numThreads (tid + 1) := by
    intro tid _
    rw [chunkBegin, chunkBegin, Nat.succ_mul]
    exact min_le_min_left _ (Nat.le_add_right _ _)
  have hzero : chunkBegin n numThreads 0 = 0 := by
    rw [chunkBegin, Nat.zero_mul, Nat.min_zero]
  have hlast : chunkBegin n numThreads numThreads = n := by
    have hceil := Nat.div_add_mod (n + numThreads - 1) numThreads
    have hmod := Nat.mod_lt (n + numThreads - 1) h
    rw [chunkBegin]
    apply Nat.min_eq_left
    omega
  have hitems := slotItems_eq_range' hmono
  rw [hzero, hlast, Nat.sub_zero] at hitems
  have hrange : List.range n = List.range' 0 n := List.range_eq_range'
  rw [hrange, ← hitems]
  rfl

/-- Lists of tasks are done one after the other. -/
lemma mapM_flatMap_eq {β γ : Type} (f : β → List γ) (g : γ → Except ε α) (l : List β) :
    (l.mapM fun b => (f b).mapM g).map List.flatten = (l.flatMap f).mapM g := by
  induction l with
  | nil => rfl
  | cons b l ih =>
      rw [List.flatMap_cons, List.mapM_append, ← ih, List.mapM_cons]
      cases hb : (f b).mapM g with
      | error e => rfl
      | ok ys =>
          cases hl : l.mapM fun b => (f b).mapM g with
          | error e => rfl
          | ok yss => rfl

/-- **Threads** do not change what is written. -/
theorem parallelFor_eq (h : 0 < numThreads) (body : ℕ → Except ε α) :
    parallelFor numThreads n body = (List.range n).mapM body := by
  rw [parallelFor, mapM_flatMap_eq, flatMap_chunk h]

lemma mapM_range_getD {β : Type} (l : List β) (d : β) (f : β → Except ε α) :
    (List.range l.length).mapM (fun i => f (l.getD i d)) = l.mapM f := by
  have hl : (List.range l.length).map (l.getD · d) = l := by
    apply List.ext_getElem
    · rw [List.length_map, List.length_range]
    · intro i hi hi'
      rw [List.getElem_map, List.getElem_range, List.getD_eq_getElem _ _ hi']
  conv_rhs => rw [← hl]
  rw [List.mapM_map]
  rfl

end DglAscend
