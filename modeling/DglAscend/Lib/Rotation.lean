import DglAscend.Lib.Outcome

/-!
# Rotating scans of a queue

Replacement policies look for a victim by inspecting the back of a queue.  A busy element is
demoted and moved to the front, and the scan goes on with the new back; the first element that
is not busy leaves the queue.  Nothing bounds the scan, so it is run with fuel.

`rotateUntil_ok` says what a finished scan has done to the queue, and `exists_rotateUntil_ok` when
it finishes.
-/

namespace DglAscend

variable {ε α β : Type*}

/-- `pop_back`: the elements before the last one, and the last one. -/
def popBack? (q : List α) : Option (List α × α) :=
  q.getLast?.map fun x => (q.dropLast, x)

@[simp] lemma popBack?_nil : popBack? ([] : List α) = none := rfl

@[simp] lemma popBack?_concat (q : List α) (x : α) : popBack? (q ++ [x]) = some (q, x) := by
  simp [popBack?]

/-- Demote and requeue the back of `q` while it is busy, then remove the back.  `empty` is the
error of reading the back of an empty queue. -/
def rotateUntil (empty : ε) (busy : α → Bool) (demote : α → α) :
    ℕ → List α → Outcome ε (List α) α
  | 0, _ => .timeout
  | n + 1, q =>
    match popBack? q with
    | none => .error empty q
    | some (rest, x) =>
      if busy x then rotateUntil empty busy demote n (demote x :: rest) else .ok x rest

variable {empty : ε} {busy : α → Bool} {demote : α → α}

@[simp] lemma rotateUntil_zero (q : List α) :
    rotateUntil empty busy demote 0 q = .timeout := rfl

@[simp] lemma rotateUntil_succ_concat (n : ℕ) (q : List α) (x : α) :
    rotateUntil empty busy demote (n + 1) (q ++ [x]) =
      if busy x then rotateUntil empty busy demote n (demote x :: q) else .ok x q := by
  rw [rotateUntil, popBack?_concat]

/-- A finished scan removes one element that is not busy; the others are those of the queue,
up to their order and to what `demote` changes. -/
theorem rotateUntil_ok {n : ℕ} {q r : List α} {v : α}
    (h : rotateUntil empty busy demote n q = .ok v r) :
    busy v = false ∧
      ∀ g : α → β, (∀ x, g (demote x) = g x) → (q.map g).Perm (g v :: r.map g) := by
  induction n generalizing q with
  | zero => simp at h
  | succ n ih =>
      rcases List.eq_nil_or_concat' q with rfl | ⟨q, x, rfl⟩
      · simp [rotateUntil] at h
      rw [rotateUntil_succ_concat] at h
      split at h
      · obtain ⟨hv, hperm⟩ := ih h
        refine ⟨hv, fun g hg => ?_⟩
        have hrot := hperm g hg
        rw [List.map_cons, hg] at hrot
        simpa using (List.perm_append_singleton (g x) (q.map g)).trans hrot
      · rename_i hbusy
        obtain ⟨rfl, rfl⟩ : x = v ∧ q = r := by simpa using h
        refine ⟨by simpa using hbusy, fun g _ => ?_⟩
        simp

/-- The only error of a scan is that of an empty queue. -/
lemma rotateUntil_ne_error {n : ℕ} {q r : List α} {e : ε} (hq : q ≠ []) :
    rotateUntil empty busy demote n q ≠ .error e r := by
  induction n generalizing q with
  | zero => simp
  | succ n ih =>
      obtain ⟨q, x, rfl⟩ := (List.eq_nil_or_concat' q).resolve_left hq
      rw [rotateUntil_succ_concat]
      split
      · exact ih (by simp)
      · simp

/-- A scan finishes if the queue holds an element of a kind `P` whose demotions are bounded by
a rank: every demotion keeps it in `P` and lowers its rank. -/
theorem exists_rotateUntil_ok (P : α → Prop) (rank : α → ℕ) {q : List α} {x : α}
    (hdemote : ∀ y, P y → busy y = true → P (demote y) ∧ rank (demote y) < rank y)
    (hx : x ∈ q) (hP : P x) :
    ∃ n v r, rotateUntil empty busy demote n q = .ok v r := by
  -- The measure counts the full turns that `x` can still survive and its distance to the back.
  obtain ⟨front, back, rfl⟩ := List.append_of_mem hx
  suffices h : ∀ m len (front back : List α) (x : α), P x →
      front.length + back.length = len → rank x * (len + 1) + back.length ≤ m →
      ∃ n v r, rotateUntil empty busy demote n (front ++ x :: back) = .ok v r from
    h _ _ front back x hP rfl le_rfl
  intro m
  induction m with
  | zero =>
      intro len front back x hx hlen hm
      have hback : back = [] := List.length_eq_zero_iff.1 (by omega)
      subst hback
      refine ⟨1, x, front, ?_⟩
      rw [rotateUntil_succ_concat]
      split
      · rename_i hbusy
        have hlt := (hdemote x hx hbusy).2
        have hpos : 0 < rank x * (len + 1) := Nat.mul_pos (by omega) (by omega)
        omega
      · rfl
  | succ m ih =>
      intro len front back x hx hlen hm
      rcases List.eq_nil_or_concat' back with rfl | ⟨back, y, rfl⟩
      · by_cases hbusy : busy x = true
        · obtain ⟨hP', hlt⟩ := hdemote x hx hbusy
          have hturn : rank (demote x) * (len + 1) + (len + 1) ≤ rank x * (len + 1) := by
            have := Nat.mul_le_mul_right (len + 1) hlt
            rwa [Nat.succ_mul] at this
          obtain ⟨n, v, r, h⟩ := ih len [] front (demote x) hP' (by simpa using hlen)
            (by simp only [List.length_nil] at hlen hm; omega)
          exact ⟨n + 1, v, r, by rw [rotateUntil_succ_concat, if_pos hbusy]; exact h⟩
        · exact ⟨1, x, front, by rw [rotateUntil_succ_concat, if_neg hbusy]⟩
      · have hassoc : front ++ x :: (back ++ [y]) = (front ++ x :: back) ++ [y] := by simp
        simp only [List.length_append, List.length_singleton] at hlen hm
        by_cases hbusy : busy y = true
        · obtain ⟨n, v, r, h⟩ := ih len (demote y :: front) back x hx
            (by simp; omega) (by omega)
          exact ⟨n + 1, v, r, by
            rw [hassoc, rotateUntil_succ_concat, if_pos hbusy]; exact h⟩
        · exact ⟨1, y, front ++ x :: back, by
            rw [hassoc, rotateUntil_succ_concat, if_neg hbusy]⟩

end DglAscend
