import Mathlib.Tactic

/-!
# Memory in rows

`load` and `store` read and write the rows of a memory at given positions; both stop at a
position outside of it.  `Stored` is what a sequence of writes leaves behind: the rows that no
write names are as before, and a row that is named holds what one of its writes put there.
-/

namespace DglAscend

variable {α β : Type*}

/-- The row at position `i`. -/
def load (rows : List α) (i : ℤ) : Option α := if 0 ≤ i then rows[i.toNat]? else none

/-- The rows at the positions `is`. -/
def loads (rows : List α) : List ℤ → Option (List α)
  | [] => some []
  | i :: is => (load rows i).bind fun x => (loads rows is).map (x :: ·)

/-- Perform writes in order; `none` if one is outside. -/
def store : List α → List (ℤ × α) → Option (List α)
  | rows, [] => some rows
  | rows, (i, x) :: ws =>
    if 0 ≤ i ∧ i < rows.length then store (rows.set i.toNat x) ws else none

/-- The rows after the writes `ws`, in whatever order a row is written. -/
structure Stored (rows : List α) (ws : List (ℤ × α)) (rows' : List α) : Prop where
  length_eq : rows'.length = rows.length
  frame : ∀ i, (∀ w ∈ ws, w.1 ≠ i) → load rows' i = load rows i
  written : ∀ w ∈ ws, ∃ w' ∈ ws, w'.1 = w.1 ∧ load rows' w.1 = some w'.2

lemma load_natCast (rows : List α) (j : ℕ) : load rows j = rows[j]? := by
  rw [load, if_pos (Int.natCast_nonneg j), Int.toNat_natCast]

lemma load_set {rows : List α} {i : ℤ} (h0 : 0 ≤ i) (hlt : i < rows.length) (x : α) (j : ℤ) :
    load (rows.set i.toNat x) j = if j = i then some x else load rows j := by
  unfold load
  by_cases hj : 0 ≤ j
  · rw [if_pos hj, if_pos hj]
    by_cases hij : j = i
    · rw [if_pos hij, hij, List.getElem?_set_self (by omega)]
    · rw [if_neg hij, List.getElem?_set_ne (by omega)]
  · rw [if_neg hj, if_neg hj, if_neg (by omega)]

/-- What was read at the positions of `cs`. -/
theorem loads_map {rows : List α} {cs : List β} {pos : β → ℤ} {val : β → α}
    (h : ∀ c ∈ cs, load rows (pos c) = some (val c)) :
    loads rows (cs.map pos) = some (cs.map val) := by
  induction cs with
  | nil => rfl
  | cons c cs ih =>
      have ih := ih fun d hd => h d (List.mem_cons_of_mem c hd)
      rw [List.map_cons, loads, h c List.mem_cons_self, Option.bind_some, ih, Option.map_some,
        List.map_cons]

/-- **Writes inside of the memory** are carried out. -/
theorem exists_stored (rows : List α) (ws : List (ℤ × α))
    (h : ∀ w ∈ ws, 0 ≤ w.1 ∧ w.1 < rows.length) :
    ∃ rows', store rows ws = some rows' ∧ Stored rows ws rows' := by
  induction ws generalizing rows with
  | nil => exact ⟨rows, rfl, rfl, fun _ _ => rfl, by simp⟩
  | cons w ws ih =>
      obtain ⟨i, x⟩ := w
      obtain ⟨h0, hlt⟩ := h (i, x) List.mem_cons_self
      obtain ⟨rows', hrun, hst⟩ := ih (rows.set i.toNat x) fun w hw => by
        rw [List.length_set]
        exact h w (List.mem_cons_of_mem _ hw)
      refine ⟨rows', ?_, ?_, fun j hj => ?_, ?_⟩
      · rw [store, if_pos ⟨h0, hlt⟩, hrun]
      · rw [hst.length_eq, List.length_set]
      · rw [hst.frame j fun w hw => hj w (List.mem_cons_of_mem _ hw), load_set h0 hlt,
          if_neg fun hji => hj _ List.mem_cons_self hji.symm]
      · -- A later write to the same row wins over this one.
        intro w hw
        by_cases hlater : ∃ w' ∈ ws, w'.1 = w.1
        · obtain ⟨w', hw', heq⟩ := hlater
          obtain ⟨w'', hw'', heq', hload⟩ := hst.written w' hw'
          exact ⟨w'', List.mem_cons_of_mem _ hw'', heq'.trans heq, heq ▸ hload⟩
        · have hwi : w = (i, x) := by
            rcases List.mem_cons.1 hw with rfl | hw
            · rfl
            · exact absurd ⟨w, hw, rfl⟩ hlater
          subst hwi
          refine ⟨(i, x), List.mem_cons_self, rfl, ?_⟩
          rw [hst.frame i fun w' hw' heq => hlater ⟨w', hw', heq⟩, load_set h0 hlt, if_pos rfl]

/-- Writes of one value to each row leave that value there. -/
lemma Stored.load_eq {rows rows' : List α} {ws : List (ℤ × α)} (h : Stored rows ws rows')
    {w : ℤ × α} (hw : w ∈ ws) (hagree : ∀ w' ∈ ws, w'.1 = w.1 → w'.2 = w.2) :
    load rows' w.1 = some w.2 := by
  obtain ⟨w', hw', heq, hload⟩ := h.written w hw
  rw [hload, hagree w' hw' heq]

end DglAscend
