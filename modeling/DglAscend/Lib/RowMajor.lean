import Mathlib.Algebra.BigOperators.Group.List.Basic
import Mathlib.Data.List.GetD
import Mathlib.Tactic

/-!
# Row-major order

The elements of a dense array lie in the order of their indices, the last index running fastest.  An axis
splits an index into what comes before it, the index on the axis, and what comes behind it.
-/

namespace DglAscend

/-- The place of an element. -/
def flat : List ℕ → List ℕ → ℕ
  | _ :: shape, i :: idx => i * shape.prod + flat shape idx
  | _, _ => 0

/-- Each index is below the extent of its dimension. -/
def Within (shape idx : List ℕ) : Prop := List.Forall₂ (· < ·) idx shape

variable {shape idx : List ℕ} {axis : ℕ}

lemma flat_append {s₁ i₁ : List ℕ} (h : i₁.length = s₁.length) (s₂ i₂ : List ℕ) :
    flat (s₁ ++ s₂) (i₁ ++ i₂) = flat s₁ i₁ * s₂.prod + flat s₂ i₂ := by
  induction s₁ generalizing i₁ with
  | nil =>
      obtain rfl := List.length_eq_zero_iff.1 h
      show flat s₂ i₂ = 0 * s₂.prod + flat s₂ i₂
      rw [Nat.zero_mul, Nat.zero_add]
  | cons n s₁ ih =>
      cases i₁ with
      | nil => cases h
      | cons i i₁ =>
          rw [List.cons_append, List.cons_append, flat, flat, ih (Nat.succ.inj h), List.prod_append]
          ring

lemma flat_lt (h : Within shape idx) : flat shape idx < shape.prod := by
  induction h with
  | nil => exact Nat.one_pos
  | @cons i n idx shape hi _ ih =>
      rw [flat, List.prod_cons]
      calc i * shape.prod + flat shape idx
          < i * shape.prod + shape.prod := Nat.add_lt_add_left ih _
        _ = (i + 1) * shape.prod := by ring
        _ ≤ n * shape.prod := Nat.mul_le_mul_right _ hi

/-- The dimensions before an axis, the axis and the dimensions behind it. -/
lemma split_axis {l : List ℕ} (h : axis < l.length) :
    l = l.take axis ++ l.getD axis 0 :: l.drop (axis + 1) := by
  conv_lhs => rw [← List.take_append_drop axis l, List.drop_eq_getElem_cons h]
  rw [List.getD_eq_getElem _ _ h]

namespace Within

variable (h : Within shape idx)
include h

lemma length_eq : idx.length = shape.length := List.Forall₂.length_eq h

lemma getD_lt (haxis : axis < shape.length) : idx.getD axis 0 < shape.getD axis 0 := by
  have hidx : axis < idx.length := h.length_eq ▸ haxis
  rw [List.getD_eq_getElem _ _ haxis, List.getD_eq_getElem _ _ hidx]
  exact List.Forall₂.get h hidx haxis

lemma take (n : ℕ) : Within (shape.take n) (idx.take n) := List.forall₂_take n h

lemma drop (n : ℕ) : Within (shape.drop n) (idx.drop n) := List.forall₂_drop n h

end Within

/-- **The place of an element, by its index on an axis.** -/
theorem flat_axis (h : idx.length = shape.length) (haxis : axis < shape.length) :
    flat shape idx = flat (shape.take axis) (idx.take axis) *
        (shape.getD axis 0 * (shape.drop (axis + 1)).prod) +
      (idx.getD axis 0 * (shape.drop (axis + 1)).prod +
        flat (shape.drop (axis + 1)) (idx.drop (axis + 1))) := by
  have hidx : axis < idx.length := h ▸ haxis
  conv_lhs => rw [split_axis haxis, split_axis hidx]
  rw [flat_append (by rw [List.length_take, List.length_take, h]), List.prod_cons, flat]

lemma prod_axis (haxis : axis < shape.length) :
    shape.prod = (shape.take axis).prod * (shape.getD axis 0 * (shape.drop (axis + 1)).prod) := by
  conv_lhs => rw [split_axis haxis]
  rw [List.prod_append, List.prod_cons]

end DglAscend
