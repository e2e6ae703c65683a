import Mathlib.Tactic

/-!
# Slots between boundaries

Items are shared out by boundaries: slot `p` has the items from `b p` to `b (p + 1)`.  Boundaries
that start at zero and end at the number of items give every item to exactly one slot if and only
if they never go down.
-/

namespace DglAscend

variable {b : ℕ → ℕ} {n m w i j p : ℕ} {α β : Type*}

/-- Item `w` is in slot `p`. -/
def InSlot (b : ℕ → ℕ) (p w : ℕ) : Prop := b p ≤ w ∧ w < b (p + 1)

instance : Decidable (InSlot b p w) := inferInstanceAs (Decidable (_ ∧ _))

/-- The items of all slots, slot by slot. -/
def slotItems (b : ℕ → ℕ) (n : ℕ) : List ℕ :=
  (List.range n).flatMap fun p => List.range' (b p) (b (p + 1) - b p)

/-- Boundaries that rise from below `w` to above it do so in some slot. -/
lemma exists_inSlot (hij : i ≤ j) (hi : b i ≤ w) (hj : w < b j) :
    ∃ p, i ≤ p ∧ p < j ∧ InSlot b p w := by
  induction j, hij using Nat.le_induction with
  | base => omega
  | succ j hij ih =>
      by_cases hw : w < b j
      · obtain ⟨p, h1, h2, h3⟩ := ih hw
        exact ⟨p, h1, h2.trans (Nat.lt_succ_self j), h3⟩
      · exact ⟨j, hij, Nat.lt_succ_self j, Nat.not_lt.1 hw, hj⟩

lemma boundary_mono (hmono : ∀ p < n, b p ≤ b (p + 1)) (hij : i ≤ j) (hj : j ≤ n) :
    b i ≤ b j := by
  induction j, hij using Nat.le_induction with
  | base => exact le_refl _
  | succ j _ ih => exact (ih (by omega)).trans (hmono j (by omega))

/-- **Every item is in exactly one slot** if and only if the boundaries never go down. -/
theorem existsUnique_inSlot_iff (h0 : b 0 = 0) (hn : b n = m) (hle : ∀ p ≤ n, b p ≤ m) :
    (∀ w < m, ∃! p, p < n ∧ InSlot b p w) ↔ ∀ p < n, b p ≤ b (p + 1) := by
  constructor
  · intro h p hp
    by_contra hdown
    -- An item just above the drop is in a slot before it and in one after it.
    have hlt : b (p + 1) < b p := Nat.not_le.1 hdown
    have hwm : b (p + 1) < m := hlt.trans_le (hle p hp.le)
    obtain ⟨q, -, hq, hin⟩ := exists_inSlot (Nat.zero_le p) (by omega : b 0 ≤ b (p + 1)) hlt
    obtain ⟨q', hq', hqn, hin'⟩ := exists_inSlot (Nat.succ_le_of_lt hp) (le_refl (b (p + 1)))
      (by omega : b (p + 1) < b n)
    have heq := (h _ hwm).unique ⟨hq.trans hp, hin⟩ ⟨hqn, hin'⟩
    omega
  · intro hmono w hw
    obtain ⟨p, -, hp, hin⟩ := exists_inSlot (Nat.zero_le n) (by omega : b 0 ≤ w)
      (by omega : w < b n)
    refine ⟨p, ⟨hp, hin⟩, fun q ⟨hq, hin'⟩ => ?_⟩
    obtain ⟨h1, h2⟩ := hin
    obtain ⟨h3, h4⟩ := hin'
    rcases lt_trichotomy q p with hlt | heq | hgt
    · have hle : b (q + 1) ≤ b p := boundary_mono hmono hlt hp.le
      omega
    · exact heq
    · have hle : b (p + 1) ≤ b q := boundary_mono hmono hgt hq.le
      omega

/-- The slots one after the other, from the first boundary to the last one. -/
lemma slotItems_eq_range' (hmono : ∀ p < n, b p ≤ b (p + 1)) :
    slotItems b n = List.range' (b 0) (b n - b 0) := by
  induction n with
  | zero =>
      rw [Nat.sub_self]
      rfl
  | succ n ih =>
      have ih := ih fun p hp => hmono p (hp.trans (Nat.lt_succ_self n))
      have hle := hmono n (Nat.lt_succ_self n)
      have hfirst : b 0 ≤ b n := boundary_mono hmono (Nat.zero_le n) (Nat.le_succ n)
      rw [slotItems, List.range_succ, List.flatMap_append, List.flatMap_singleton]
      rw [slotItems] at ih
      have happ := List.range'_append_1 (s := b 0) (m := b n - b 0) (n := b (n + 1) - b n)
      rw [Nat.add_sub_cancel' hfirst] at happ
      rw [ih, happ]
      congr 1
      omega

/-- **Slots one after the other** are all items in order. -/
theorem slotItems_eq (h0 : b 0 = 0) (hmono : ∀ p < n, b p ≤ b (p + 1)) :
    slotItems b n = List.range (b n) := by
  rw [slotItems_eq_range' hmono, h0, Nat.sub_zero, List.range_eq_range']

/-! ## Blocks in a row -/

/-- The blocks of the members of a list, by their places. -/
lemma flatMap_range_getD (l : List α) {d : α} (f : α → List β) :
    (List.range l.length).flatMap (fun i => f (l.getD i d)) = l.flatMap f := by
  have hl : (List.range l.length).map (l.getD · d) = l := by
    apply List.ext_getElem
    · simp
    · intro i hi hi'
      simp [hi']
  conv_rhs => rw [← hl]
  rw [List.flatMap_map]

/-- Cell `k` of block `i` of a list of blocks in a row. -/
lemma getElem?_flatMap (l : List α) (f : α → List β) {x : α} {k : ℕ} (hx : l[i]? = some x)
    (hk : k < (f x).length) :
    (l.flatMap f)[((l.take i).flatMap f).length + k]? = (f x)[k]? := by
  obtain ⟨hi, rfl⟩ := List.getElem?_eq_some_iff.1 hx
  have hsplit : l.flatMap f = (l.take i).flatMap f ++ (l.drop i).flatMap f := by
    rw [← List.flatMap_append, List.take_append_drop]
  rw [hsplit, List.getElem?_append_right (Nat.le_add_right _ _), Nat.add_sub_cancel_left,
    List.drop_eq_getElem_cons hi, List.flatMap_cons, List.getElem?_append_left hk]

/-- Block `i` of a list of blocks in a row, cut out. -/
lemma take_drop_flatMap (l : List α) (f : α → List β) {x : α} (hx : l[i]? = some x) :
    ((l.flatMap f).drop ((l.take i).flatMap f).length).take (f x).length = f x := by
  obtain ⟨hi, rfl⟩ := List.getElem?_eq_some_iff.1 hx
  have hsplit : l.flatMap f = (l.take i).flatMap f ++ (l.drop i).flatMap f := by
    rw [← List.flatMap_append, List.take_append_drop]
  rw [hsplit, List.drop_left, List.drop_eq_getElem_cons hi, List.flatMap_cons, List.take_left]

end DglAscend
