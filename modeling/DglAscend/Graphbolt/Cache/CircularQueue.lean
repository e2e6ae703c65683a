import Mathlib.Tactic

/-!
# Circular queues (`graphbolt/src/circular_queue.h`)
-/

namespace DglAscend.Graphbolt

/-- A circular queue over a buffer of `capacity` cells, one of which stays unused so that the
empty and the full queue differ. -/
structure CircularQueue (α : Type) where
  tail : ℕ
  head : ℕ
  capacity : ℕ
  data : List α
deriving DecidableEq, Repr

namespace CircularQueue

variable {α : Type}

/-- `CircularQueue(capacity)`; the cells of `new T[capacity + 1]` start with the value `x`. -/
def create (capacity : ℕ) (x : α) : CircularQueue α where
  tail := 0
  head := 0
  capacity := capacity + 1
  data := List.replicate (capacity + 1) x

/-- The index that `PostIncrement(i)` leaves in `i`. -/
def postIncrement (q : CircularQueue α) (i : ℕ) : ℕ :=
  if q.capacity ≤ i + 1 then i + 1 - q.capacity else i + 1

def push (q : CircularQueue α) (x : α) : CircularQueue α :=
  { q with data := q.data.set q.tail x, tail := q.postIncrement q.tail }

/-- The popped element, if the buffer has the cell, and the queue after it. -/
def pop (q : CircularQueue α) : Option α × CircularQueue α :=
  (q.data[q.head]?, { q with head := q.postIncrement q.head })

def popN (q : CircularQueue α) (n : ℕ) : CircularQueue α :=
  let head := q.head + n
  { q with head := if q.capacity ≤ head then head - q.capacity else head }

def size (q : CircularQueue α) : ℕ :=
  if q.tail < q.head then q.tail + q.capacity - q.head else q.tail - q.head

def isEmpty (q : CircularQueue α) : Bool := q.tail = q.head

def isFull (q : CircularQueue α) : Bool :=
  let diff : ℤ := (q.tail : ℤ) + 1 - q.head
  diff = 0 || diff = q.capacity

/-- `Capacity()` -/
def elementCapacity (q : CircularQueue α) : ℕ := q.capacity - 1

/-! ## The elements of a queue -/

/-- `q` holds the elements `xs`, the oldest first. -/
structure Represents (q : CircularQueue α) (xs : List α) : Prop where
  length_data : q.data.length = q.capacity
  head_lt : q.head < q.capacity
  length_lt : xs.length < q.capacity
  tail_eq : q.tail = (q.head + xs.length) % q.capacity
  cell_eq : ∀ i < xs.length, q.data[(q.head + i) % q.capacity]? = xs[i]?

lemma postIncrement_eq {q : CircularQueue α} {i : ℕ} (hi : i < q.capacity) :
    q.postIncrement i = (i + 1) % q.capacity := by
  unfold postIncrement
  by_cases hwrap : q.capacity ≤ i + 1
  · rw [if_pos hwrap, show i + 1 = q.capacity by omega, Nat.sub_self, Nat.mod_self]
  · rw [if_neg hwrap, Nat.mod_eq_of_lt (by omega)]

lemma represents_create (capacity : ℕ) (x : α) : (create capacity x).Represents [] where
  length_data := List.length_replicate
  head_lt := Nat.succ_pos capacity
  length_lt := Nat.succ_pos capacity
  tail_eq := (Nat.zero_mod _).symm
  cell_eq := fun i hi => absurd hi (Nat.not_lt_zero i)

namespace Represents

variable {q : CircularQueue α} {xs : List α}

/-- Two cells less than a round apart are different. -/
lemma cell_ne {i j : ℕ} (hij : i < j) (hj : j < q.capacity) :
    (q.head + j) % q.capacity ≠ (q.head + i) % q.capacity := by
  intro heq
  have hmod : i % q.capacity = j % q.capacity := Nat.ModEq.add_left_cancel' q.head heq.symm
  rw [Nat.mod_eq_of_lt (hij.trans hj), Nat.mod_eq_of_lt hj] at hmod
  exact hij.ne hmod

lemma push (h : q.Represents xs) (hroom : xs.length + 1 < q.capacity) (x : α) :
    (q.push x).Represents (xs ++ [x]) where
  length_data := (List.length_set).trans h.length_data
  head_lt := h.head_lt
  length_lt := by simpa [CircularQueue.push] using hroom
  tail_eq := by
    have htail : q.tail < q.capacity := by
      rw [h.tail_eq]
      exact Nat.mod_lt _ (h.head_lt.trans_le' (Nat.zero_le _))
    show q.postIncrement q.tail = _
    rw [postIncrement_eq htail, h.tail_eq, Nat.mod_add_mod, List.length_append,
      List.length_singleton, Nat.add_assoc]
    rfl
  cell_eq := by
    intro i hi
    rw [List.length_append, List.length_singleton] at hi
    show (q.data.set q.tail x)[(q.head + i) % q.capacity]? = _
    rw [h.tail_eq]
    by_cases hlast : i = xs.length
    · have hlt : (q.head + xs.length) % q.capacity < q.data.length := by
        rw [h.length_data]
        exact Nat.mod_lt _ (by omega)
      rw [hlast, List.getElem?_set_self hlt, List.getElem?_concat_length]
    · have hlt : i < xs.length := by omega
      rw [List.getElem?_set_ne (cell_ne hlt (by omega)), h.cell_eq i hlt,
        List.getElem?_append_left hlt]

lemma pop {x : α} (h : q.Represents (x :: xs)) :
    q.pop.1 = some x ∧ q.pop.2.Represents xs := by
  refine ⟨?_, ?_⟩
  · have hcell := h.cell_eq 0 (Nat.succ_pos _)
    rwa [Nat.add_zero, Nat.mod_eq_of_lt h.head_lt] at hcell
  · have hlen := h.length_lt
    rw [List.length_cons] at hlen
    have hhead : q.pop.2.head = (q.head + 1) % q.capacity := postIncrement_eq h.head_lt
    refine ⟨h.length_data, ?_, by exact Nat.lt_of_succ_lt hlen, ?_, fun i hi => ?_⟩
    · rw [hhead]
      exact Nat.mod_lt _ (by omega)
    · show q.tail = (q.pop.2.head + xs.length) % q.capacity
      rw [hhead, Nat.mod_add_mod, h.tail_eq, List.length_cons, Nat.add_assoc, Nat.add_comm 1]
    · show q.data[(q.pop.2.head + i) % q.capacity]? = _
      rw [hhead, Nat.mod_add_mod, Nat.add_assoc, Nat.add_comm 1,
        h.cell_eq (i + 1) (Nat.succ_lt_succ hi), List.getElem?_cons_succ]

section

variable (h : q.Represents xs)
include h

/-- The tail is behind the elements, perhaps a round back. -/
lemma tail_cases : q.tail = q.head + xs.length ∨ q.tail + q.capacity = q.head + xs.length := by
  have hhead := h.head_lt
  have hlen := h.length_lt
  rw [h.tail_eq]
  by_cases hwrap : q.head + xs.length < q.capacity
  · exact Or.inl (Nat.mod_eq_of_lt hwrap)
  · refine Or.inr ?_
    rw [Nat.mod_eq_sub_mod (by omega), Nat.mod_eq_of_lt (by omega)]
    omega

lemma size_eq : q.size = xs.length := by
  have hhead := h.head_lt
  have hlen := h.length_lt
  have htail := h.tail_cases
  unfold size
  split <;> omega

lemma isEmpty_iff : q.isEmpty = true ↔ xs = [] := by
  have hhead := h.head_lt
  have hlen := h.length_lt
  have htail := h.tail_cases
  rw [isEmpty, decide_eq_true_eq, ← List.length_eq_zero_iff]
  omega

lemma popN {n : ℕ} (hn : n ≤ xs.length) : (q.popN n).Represents (xs.drop n) := by
  have hhead := h.head_lt
  have hlen := h.length_lt
  have hnew : (q.popN n).head = (q.head + n) % q.capacity := by
    show (if q.capacity ≤ q.head + n then q.head + n - q.capacity else q.head + n) = _
    by_cases hwrap : q.capacity ≤ q.head + n
    · rw [if_pos hwrap, Nat.mod_eq_sub_mod hwrap, Nat.mod_eq_of_lt (by omega)]
    · rw [if_neg hwrap, Nat.mod_eq_of_lt (by omega)]
  refine ⟨h.length_data, ?_, ?_, ?_, fun i hi => ?_⟩
  · rw [hnew]
    exact Nat.mod_lt _ (by omega)
  · show (xs.drop n).length < q.capacity
    rw [List.length_drop]
    omega
  · show q.tail = ((q.popN n).head + (xs.drop n).length) % q.capacity
    rw [hnew, Nat.mod_add_mod, h.tail_eq, List.length_drop, Nat.add_assoc,
      Nat.add_sub_cancel' hn]
  · rw [List.length_drop] at hi
    show q.data[((q.popN n).head + i) % q.capacity]? = _
    rw [hnew, Nat.mod_add_mod, Nat.add_assoc, h.cell_eq (n + i) (by omega), List.getElem?_drop]

/-- A queue is full when one more element would make it look empty. -/
lemma isFull_iff : q.isFull = true ↔ xs.length = q.elementCapacity := by
  have hhead := h.head_lt
  have hlen := h.length_lt
  have htail := h.tail_cases
  simp only [isFull, elementCapacity, Bool.or_eq_true, decide_eq_true_eq]
  omega

end

end Represents

end CircularQueue

end DglAscend.Graphbolt
