import Mathlib.Data.List.GetD
import Mathlib.Tactic

/-!
# Objects that are filled later

Objects are kept in a list and never removed.  A placeholder is an object without a value yet.  For
every object, placeholders included, it is recorded what it is meant to hold and whether it may
be filled while it is a placeholder.  Adding objects and filling those that may be filled keeps
whatever the holder of a reference knows about it (`At.extend`).
-/

namespace DglAscend

/-- What is recorded of the objects. -/
structure Record (κ : Type*) where
  meant : ℕ → κ
  fillable : ℕ → Bool

section Placeholders

variable {α κ : Type*} {holds : κ → α → Prop} {r r' r'' : Record κ} {l l' l'' : List (Option α)}
  {p : ℕ} {k : κ} {a : Bool}

/-- The value of an object. -/
def cell (l : List (Option α)) (p : ℕ) : Option α := l.getD p none

/-- The objects that have a value hold what they are meant to. -/
def Sound (holds : κ → α → Prop) (r : Record κ) (l : List (Option α)) : Prop :=
  ∀ p m, cell l p = some m → holds (r.meant p) m

/-- An object that is meant to hold `k`; `a` says whether it may be filled if it is a placeholder. -/
structure At (r : Record κ) (l : List (Option α)) (p : ℕ) (k : κ) (a : Bool) : Prop where
  lt : p < l.length
  meant : r.meant p = k
  fillable : cell l p = none → r.fillable p = a

/-- Objects were added, and placeholders that may be filled were filled. -/
structure Grown (r : Record κ) (l : List (Option α)) (r' : Record κ) (l' : List (Option α)) :
    Prop where
  le : l.length ≤ l'.length
  old : ∀ p < l.length, r'.meant p = r.meant p ∧ r'.fillable p = r.fillable p ∧
    (cell l' p = cell l p ∨ cell l p = none ∧ r.fillable p = true)

lemma Grown.refl (r : Record κ) (l : List (Option α)) : Grown r l r l :=
  ⟨le_rfl, fun _ _ => ⟨rfl, rfl, Or.inl rfl⟩⟩

lemma Grown.trans (h₁ : Grown r l r' l') (h₂ : Grown r' l' r'' l'') : Grown r l r'' l'' where
  le := h₁.le.trans h₂.le
  old := by
    intro p hp
    obtain ⟨e₁, a₁, c₁⟩ := h₁.old p hp
    obtain ⟨e₂, a₂, c₂⟩ := h₂.old p (hp.trans_le h₁.le)
    refine ⟨e₂.trans e₁, a₂.trans a₁, ?_⟩
    rcases c₁ with c₁ | c₁
    · rw [c₁, a₁] at c₂
      exact c₂
    · exact Or.inr c₁

lemma Grown.cell_eq (hg : Grown r l r' l') (hp : p < l.length) (hsome : (cell l p).isSome = true) :
    cell l' p = cell l p := by
  obtain ⟨-, -, hcell | ⟨hnone, -⟩⟩ := hg.old p hp
  · exact hcell
  · rw [hnone] at hsome
    cases hsome

lemma Grown.isSome (hg : Grown r l r' l') (hp : p < l.length) (hsome : (cell l p).isSome = true) :
    (cell l' p).isSome = true := by
  rwa [hg.cell_eq hp hsome]

/-- **What the holder of a reference knows stays true.** -/
theorem At.extend (hat : At r l p k a) (hg : Grown r l r' l') : At r' l' p k a where
  lt := hat.lt.trans_le hg.le
  meant := (hg.old p hat.lt).1.trans hat.meant
  fillable := by
    intro hnone
    obtain ⟨-, hfillable, hcell⟩ := hg.old p hat.lt
    rw [hfillable]
    rcases hcell with hcell | hcell
    · exact hat.fillable (hcell ▸ hnone)
    · exact hat.fillable hcell.1

/-- A value was there before, or the object could be filled. -/
lemma At.value_before (hat : At r l p k a) (hg : Grown r l r' l')
    (hsome : (cell l' p).isSome = true) : (cell l p).isSome = true ∨ a = true := by
  obtain ⟨-, -, hcell | ⟨hnone, hfillable⟩⟩ := hg.old p hat.lt
  · exact Or.inl (hcell ▸ hsome)
  · exact Or.inr ((hat.fillable hnone).symm.trans hfillable)

lemma At.of_value (hat : At r l p k a) (hsome : (cell l p).isSome = true) (b : Bool) :
    At r l p k b where
  lt := hat.lt
  meant := hat.meant
  fillable := by
    intro hnone
    rw [hnone] at hsome
    cases hsome

/-! ## Adding an object -/

lemma cell_append_left (m : Option α) (hp : p < l.length) : cell (l ++ [m]) p = cell l p := by
  rw [cell, cell, List.getD_eq_getElem?_getD, List.getD_eq_getElem?_getD,
    List.getElem?_append_left hp]

lemma cell_append_self (l : List (Option α)) (m : Option α) : cell (l ++ [m]) l.length = m := by
  rw [cell, List.getD_eq_getElem?_getD, List.getElem?_append_right le_rfl, Nat.sub_self]
  rfl

lemma lt_of_cell {m : α} (h : cell l p = some m) : p < l.length := by
  by_contra hge
  rw [cell, List.getD_eq_default _ _ (Nat.le_of_not_lt hge)] at h
  cases h

/-- The record with one more object. -/
def Record.add (r : Record κ) (n : ℕ) (k : κ) (a : Bool) : Record κ :=
  ⟨Function.update r.meant n k, Function.update r.fillable n a⟩

lemma Sound.append (hs : Sound holds r l) {m : Option α} (hm : ∀ x, m = some x → holds k x)
    (a : Bool) : Sound holds (r.add l.length k a) (l ++ [m]) := by
  intro p x hx
  have hlt := lt_of_cell hx
  rw [List.length_append, List.length_singleton] at hlt
  show holds (Function.update r.meant _ k p) x
  rcases (Nat.lt_succ_iff.1 hlt).lt_or_eq with hlt | rfl
  · rw [cell_append_left m hlt] at hx
    rw [Function.update_of_ne hlt.ne]
    exact hs p x hx
  · rw [cell_append_self] at hx
    rw [Function.update_self]
    exact hm x hx

lemma Grown.append (r : Record κ) (l : List (Option α)) (m : Option α) (k : κ) (a : Bool) :
    Grown r l (r.add l.length k a) (l ++ [m]) where
  le := by
    rw [List.length_append]
    exact Nat.le_add_right _ _
  old _ hp := ⟨Function.update_of_ne hp.ne _ _, Function.update_of_ne hp.ne _ _,
    Or.inl (cell_append_left m hp)⟩

lemma At.append (r : Record κ) (l : List (Option α)) (m : Option α) (k : κ) (a : Bool) :
    At (r.add l.length k a) (l ++ [m]) l.length k a where
  lt := by
    rw [List.length_append]
    exact Nat.lt_succ_self _
  meant := Function.update_self _ _ _
  fillable _ := Function.update_self _ _ _

/-! ## Filling a placeholder -/

lemma cell_set (m : α) (hp : p < l.length) {q : ℕ} :
    cell (l.set p (some m)) q = if p = q then some m else cell l q := by
  rw [cell, cell, List.getD_eq_getElem?_getD, List.getElem?_set, List.getD_eq_getElem?_getD]
  by_cases heq : p = q
  · rw [if_pos heq, if_pos heq, if_pos hp, Option.getD_some]
  · rw [if_neg heq, if_neg heq]

lemma cell_set_ne {q : ℕ} (hne : p ≠ q) (m : Option α) : cell (l.set p m) q = cell l q := by
  rw [cell, cell, List.getD_eq_getElem?_getD, List.getD_eq_getElem?_getD, List.getElem?_set_ne hne]

lemma Sound.set (hs : Sound holds r l) (hat : At r l p k a) {m : α} (hm : holds k m) :
    Sound holds r (l.set p (some m)) := by
  intro q x hx
  rw [cell_set m hat.lt] at hx
  by_cases heq : p = q
  · rw [if_pos heq] at hx
    obtain rfl := Option.some.inj hx
    rwa [← heq, hat.meant]
  · rw [if_neg heq] at hx
    exact hs q x hx

lemma Grown.set (hat : At r l p k true) (hnone : cell l p = none) (m : α) :
    Grown r l r (l.set p (some m)) where
  le := by rw [List.length_set]
  old := by
    intro q _
    refine ⟨rfl, rfl, ?_⟩
    rw [cell_set m hat.lt]
    by_cases heq : p = q
    · exact Or.inr (heq ▸ ⟨hnone, hat.fillable hnone⟩)
    · exact Or.inl (if_neg heq)

end Placeholders

end DglAscend
