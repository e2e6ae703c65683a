import Mathlib.Data.Set.BooleanAlgebra
import Mathlib.Order.CompletePartialOrder
import Mathlib.Data.List.Basic

/-!
# Arrays in device memory

An array is a range of addresses of one device.  The program holds arrays, and somebody else (a
cache) may pin more of them.  The allocator hands out memory that nobody holds: the same addresses
may come back once they were released.
-/

namespace DglAscend

/-- A byte of a device. -/
abbrev Address := ℤ × ℕ

/-- The contents of the memory of all devices. -/
abbrev Memory (B : Type) := Address → B

/-- An array: `bytes` addresses of `device` from `ptr` on. -/
structure Region where
  device : ℤ
  ptr : ℕ
  bytes : ℕ
  deriving DecidableEq, Repr

namespace Region

variable {B : Type} {m m' : Memory B} {r r' : Region}

/-- The addresses of an array. -/
def addresses (r : Region) : Set Address :=
  {a | a.1 = r.device ∧ r.ptr ≤ a.2 ∧ a.2 < r.ptr + r.bytes}

/-- The contents of an array. -/
def read (m : Memory B) (r : Region) : List B :=
  (List.range r.bytes).map fun i => m (r.device, r.ptr + i)

/-- The contents depend on the memory of the array only. -/
lemma read_congr (h : Set.EqOn m m' r.addresses) : r.read m = r.read m' := by
  refine List.map_congr_left fun i hi => h ⟨rfl, Nat.le_add_right _ _, ?_⟩
  have := List.mem_range.1 hi
  simp only
  omega

@[simp] lemma length_read : (r.read m).length = r.bytes := by
  simp [read]

end Region

/-- The addresses of a list of arrays. -/
def addressesOf (rs : List Region) : Set Address :=
  {a | ∃ r ∈ rs, a ∈ r.addresses}

lemma addresses_subset_addressesOf {rs : List Region} {r : Region} (h : r ∈ rs) :
    r.addresses ⊆ addressesOf rs :=
  fun _ ha => ⟨r, h, ha⟩

lemma addressesOf_subset {rs rs' : List Region} (h : rs ⊆ rs') :
    addressesOf rs ⊆ addressesOf rs' :=
  fun _ ⟨r, hr, ha⟩ => ⟨r, h hr, ha⟩

/-- The memory and the arrays that the program holds. -/
structure Heap (B : Type) where
  memory : Memory B
  arrays : List Region

namespace Heap

variable {B : Type} {pinned : List Region} {used : Set Address} {h h' : Heap B}

/-- What the program does with its arrays while `pinned` arrays are held by somebody else.  An
array may be written as long as none of its addresses is in `used`; the allocation of an array ends
the use of its addresses. -/
inductive Step (pinned : List Region) : Heap B → Set Address → Heap B → Set Address → Prop
  /-- The allocator returns memory that nobody holds. -/
  | alloc {h : Heap B} {used : Set Address} (r : Region)
      (hfree : Disjoint r.addresses (addressesOf (h.arrays ++ pinned))) :
      Step pinned h used { h with arrays := r :: h.arrays } (used \ r.addresses)
  /-- A view into an array is one more array. -/
  | view {h : Heap B} {used : Set Address} (r r' : Region) (hr : r ∈ h.arrays)
      (hview : r'.addresses ⊆ r.addresses) :
      Step pinned h used { h with arrays := r' :: h.arrays } used
  /-- An array is let go. -/
  | release {h : Heap B} {used : Set Address} (r : Region) :
      Step pinned h used { h with arrays := h.arrays.erase r } used
  /-- An array is written in place. -/
  | write {h : Heap B} {used : Set Address} (r : Region) (hr : r ∈ h.arrays) (m : Memory B)
      (hunused : Disjoint r.addresses used) (hm : Set.EqOn m h.memory r.addressesᶜ) :
      Step pinned h used { h with memory := m } used
  /-- Memory that nobody holds has no lasting contents. -/
  | scratch {h : Heap B} {used : Set Address} (m : Memory B)
      (hm : Set.EqOn m h.memory (addressesOf (h.arrays ++ pinned))) :
      Step pinned h used { h with memory := m } used

/-- **Pinned arrays in use keep their contents** and stay in use. -/
theorem Step.keeps {used' : Set Address} (hstep : Step pinned h used h' used')
    (hpinned : addressesOf pinned ⊆ used) :
    Set.EqOn h'.memory h.memory (addressesOf pinned) ∧ addressesOf pinned ⊆ used' := by
  have hsub (rs : List Region) : addressesOf pinned ⊆ addressesOf (rs ++ pinned) :=
    addressesOf_subset (List.subset_append_right _ _)
  cases hstep with
  | alloc r hfree =>
      refine ⟨fun _ _ => rfl, fun a ha => ⟨hpinned ha, fun har => ?_⟩⟩
      exact Set.disjoint_left.1 hfree har (hsub _ ha)
  | view r r' hr hview => exact ⟨fun _ _ => rfl, hpinned⟩
  | release r => exact ⟨fun _ _ => rfl, hpinned⟩
  | write r hr m hunused hm =>
      exact ⟨fun a ha => hm fun har => Set.disjoint_left.1 hunused har (hpinned ha), hpinned⟩
  | scratch m hm => exact ⟨fun a ha => hm (hsub _ ha), hpinned⟩

end Heap

end DglAscend
