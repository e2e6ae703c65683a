import Mathlib.Tactic

/-!
# Buffers filled from both ends

A batch of lookups writes what it found to the front of a buffer, in order, and what it missed
to the back, in reverse order.  When there were as many writes as cells, the two parts meet.
-/

namespace DglAscend

variable {α β : Type*}

/-- A buffer of `cells` whose cells before `front` and from `back` on have been written. -/
structure TwoEnded (α : Type*) where
  cells : List α
  front : ℕ
  back : ℕ
deriving DecidableEq

namespace TwoEnded

/-- A buffer of `n` cells, none of which has been written. -/
def empty (n : ℕ) (x : α) : TwoEnded α := ⟨List.replicate n x, 0, n⟩

/-- `cells[front++] = x` -/
def pushFront (b : TwoEnded α) (x : α) : TwoEnded α := ⟨b.cells.set b.front x, b.front + 1, b.back⟩

/-- `cells[--back] = x` -/
def pushBack (b : TwoEnded α) (x : α) : TwoEnded α :=
  ⟨b.cells.set (b.back - 1) x, b.front, b.back - 1⟩

/-- The buffer holds `xs` at its front and `ys`, in the order of writing, at its back, and
`room` cells of it are unwritten. -/
structure Holds (b : TwoEnded α) (xs ys : List α) (room : ℕ) : Prop where
  cells_eq : ∃ mid : List α, mid.length = room ∧ b.cells = xs ++ mid ++ ys.reverse
  front_eq : b.front = xs.length
  back_eq : b.back = xs.length + room

lemma holds_empty (n : ℕ) (x : α) : (empty n x).Holds [] [] n :=
  ⟨⟨List.replicate n x, by simp, by simp [empty]⟩, rfl, by simp [empty]⟩

lemma Holds.pushFront {b : TwoEnded α} {xs ys : List α} {room : ℕ} (h : b.Holds xs ys (room + 1))
    (x : α) : (b.pushFront x).Holds (xs ++ [x]) ys room := by
  obtain ⟨⟨mid, hmid, hcells⟩, hfront, hback⟩ := h
  obtain ⟨y, mid, rfl⟩ := List.exists_cons_of_length_eq_add_one hmid
  refine ⟨⟨mid, by simpa using hmid, ?_⟩, by simp [TwoEnded.pushFront, hfront], ?_⟩
  · simp [TwoEnded.pushFront, hcells, hfront, List.set_append_right]
  · simp [TwoEnded.pushFront, hback]
    omega

lemma Holds.pushBack {b : TwoEnded α} {xs ys : List α} {room : ℕ} (h : b.Holds xs ys (room + 1))
    (x : α) : (b.pushBack x).Holds xs (ys ++ [x]) room := by
  obtain ⟨⟨mid, hmid, hcells⟩, hfront, hback⟩ := h
  obtain ⟨mid, y, rfl⟩ := (List.eq_nil_or_concat' mid).resolve_left (by
    rintro rfl
    simp at hmid)
  have hlen : mid.length = room := by simpa using hmid
  refine ⟨⟨mid, hlen, ?_⟩, hfront, by simp [TwoEnded.pushBack, hback]⟩
  simp [TwoEnded.pushBack, hcells, hback, ← hlen, List.set_append_right, ← Nat.add_assoc]

/-- A buffer without room is the front followed by the back, last write first. -/
lemma Holds.full {b : TwoEnded α} {xs ys : List α} (h : b.Holds xs ys 0) :
    b.cells = xs ++ ys.reverse ∧ b.front = xs.length ∧ b.back = xs.length := by
  obtain ⟨⟨mid, hmid, hcells⟩, hfront, hback⟩ := h
  obtain rfl := List.length_eq_zero_iff.1 hmid
  exact ⟨by simpa using hcells, hfront, by simpa using hback⟩

end TwoEnded

end DglAscend
