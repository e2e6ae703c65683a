import Mathlib.Tactic
import Mathlib.Data.List.ReduceOption

/-!
# Output tensors

Kernels allocate an output tensor and fill it cell by cell, often from several threads that each
own a segment.  `tensor` is the result of such a kernel: a list of values if the writes stay
inside of the tensor and leave no cell unwritten, and nothing otherwise.

The second half is about tensors that are filled segment by segment, with offsets that are the
prefix sums of the lengths of the segments.
-/

namespace DglAscend

variable {α β : Type*}

/-- Perform writes in order; `none` if one is outside. -/
def writeAll : List (Option α) → List (ℤ × α) → Option (List (Option α))
  | cells, [] => some cells
  | cells, (i, x) :: ws =>
    if 0 ≤ i ∧ i < cells.length then writeAll (cells.set i.toNat (some x)) ws else none

/-- A tensor of `size` cells after the writes `ws`. -/
def tensor (size : ℤ) (ws : List (ℤ × α)) : Option (List α) :=
  if 0 ≤ size then
    (writeAll (List.replicate size.toNat none) ws).bind fun cells =>
      if cells.all Option.isSome then some cells.reduceOption else none
  else none

variable {cells cells' : List (Option α)}

lemma length_writeAll {ws : List (ℤ × α)} (h : writeAll cells ws = some cells') :
    cells'.length = cells.length := by
  induction ws generalizing cells with
  | nil => simp_all [writeAll]
  | cons w ws ih =>
      obtain ⟨i, x⟩ := w
      rw [writeAll] at h
      split at h
      · simpa using ih h
      · simp at h

variable {p j : ℕ}

/-- A cell that is filled after some writes was filled before, or has been written. -/
lemma written_of_writeAll {ws : List (ℤ × α)} (h : writeAll cells ws = some cells') {x : α}
    (hj : cells'[j]? = some (some x)) : (∃ y, cells[j]? = some (some y)) ∨ ∃ w ∈ ws, w.1 = j := by
  induction ws generalizing cells with
  | nil =>
      obtain rfl : cells = cells' := by simpa [writeAll] using h
      exact Or.inl ⟨x, hj⟩
  | cons w ws ih =>
      obtain ⟨i, y⟩ := w
      rw [writeAll] at h
      split at h
      · rename_i hi
        rcases ih h with ⟨z, hz⟩ | ⟨w, hw, hwj⟩
        · by_cases hij : i.toNat = j
          · exact Or.inr ⟨(i, y), List.mem_cons_self, by simp only; omega⟩
          · rw [List.getElem?_set_ne hij] at hz
            exact Or.inl ⟨z, hz⟩
        · exact Or.inr ⟨w, List.mem_cons_of_mem _ hw, hwj⟩
      · simp at h

variable {l : List α}

/-- **Coverage.**  Every cell of a tensor has been written. -/
theorem written_of_tensor {size : ℤ} {ws : List (ℤ × α)} (h : tensor size ws = some l)
    (hj : (j : ℤ) < size) : ∃ w ∈ ws, w.1 = j := by
  unfold tensor at h
  split at h
  · obtain ⟨cells, hcells, hall⟩ := Option.bind_eq_some_iff.1 h
    split at hall
    · rename_i hsome
      have hlen := length_writeAll hcells
      rw [List.length_replicate] at hlen
      have hlt : j < cells.length := by omega
      obtain ⟨x, hx⟩ := Option.isSome_iff_exists.1
        (List.all_eq_true.1 hsome _ (List.getElem_mem hlt))
      rcases written_of_writeAll hcells (List.getElem?_eq_some_iff.2 ⟨hlt, hx⟩) with ⟨y, hy⟩ | hw
      · rw [List.getElem?_replicate] at hy
        split at hy <;> simp at hy
      · exact hw
    · simp at hall
  · simp at h

/-- Writes that agree with `l` keep the cells in agreement with it. -/
lemma writeAll_of_agree {ws : List (ℤ × α)} (hws : ∀ w ∈ ws, 0 ≤ w.1 ∧ l[w.1.toNat]? = some w.2)
    (cells : List (Option α)) (hlen : cells.length = l.length)
    (hcells : ∀ (j : ℕ) x, cells[j]? = some (some x) → l[j]? = some x) :
    ∃ cells', writeAll cells ws = some cells' ∧ cells'.length = l.length ∧
      (∀ (j : ℕ) x, cells'[j]? = some (some x) → l[j]? = some x) ∧
      ∀ j : ℕ, ((∃ w ∈ ws, w.1 = j) ∨ ∃ x, cells[j]? = some (some x)) →
        ∃ x, cells'[j]? = some (some x) := by
  induction ws generalizing cells with
  | nil => exact ⟨cells, rfl, hlen, hcells, fun j hj => by simpa using hj⟩
  | cons w ws ih =>
      obtain ⟨i, x⟩ := w
      obtain ⟨hi, hx⟩ := hws (i, x) List.mem_cons_self
      have hlt : i.toNat < l.length := (List.getElem?_eq_some_iff.1 hx).1
      obtain ⟨cells', hrun, hlen', hagree, hcover⟩ :=
        ih (fun w hw => hws w (List.mem_cons_of_mem _ hw)) (cells.set i.toNat (some x))
          (by simpa using hlen) (fun j y hy => by
            by_cases hij : i.toNat = j
            · subst hij
              rw [List.getElem?_set_self (by omega)] at hy
              simp_all
            · rw [List.getElem?_set_ne hij] at hy
              exact hcells j y hy)
      refine ⟨cells', ?_, hlen', hagree, fun j hj => hcover j ?_⟩
      · rw [writeAll, if_pos ⟨hi, by omega⟩, hrun]
      · by_cases hij : i.toNat = j
        · subst hij
          exact Or.inr ⟨x, List.getElem?_set_self (by omega)⟩
        · rcases hj with ⟨w, hw, hwj⟩ | ⟨y, hy⟩
          · rcases List.mem_cons.1 hw with rfl | hw
            · exact absurd (by simp only at hwj; omega) hij
            · exact Or.inl ⟨w, hw, hwj⟩
          · exact Or.inr ⟨y, by rw [List.getElem?_set_ne hij]; exact hy⟩

/-- **Fill rule.**  Writes that agree with `l` and come to all of its cells, in whatever order,
give `l`. -/
theorem tensor_eq_some {ws : List (ℤ × α)} (hws : ∀ w ∈ ws, 0 ≤ w.1 ∧ l[w.1.toNat]? = some w.2)
    (hcover : ∀ j : ℕ, j < l.length → ∃ w ∈ ws, w.1 = j) : tensor l.length ws = some l := by
  obtain ⟨cells, hrun, hlen, hagree, hfull⟩ := writeAll_of_agree hws
    (List.replicate l.length none) (by simp) (fun j x hx => by
      rw [List.getElem?_replicate] at hx
      split at hx <;> simp at hx)
  have hcells : cells = l.map some := by
    refine List.ext_getElem? fun j => ?_
    rcases Nat.lt_or_ge j l.length with hj | hj
    · obtain ⟨x, hx⟩ := hfull j (Or.inl (hcover j hj))
      rw [hx, List.getElem?_map, hagree j x hx]
      rfl
    · rw [List.getElem?_eq_none (by omega), List.getElem?_eq_none (by simpa using hj)]
  rw [tensor, if_pos (Int.natCast_nonneg _), Int.toNat_natCast, hrun, Option.bind_some, hcells]
  simp [List.reduceOption, List.filterMap_map]

/-! ## Segments -/

/-- The writes of consecutive values from the cell `b` on. -/
def writesFrom : ℤ → List α → List (ℤ × α)
  | _, [] => []
  | b, x :: xs => (b, x) :: writesFrom (b + 1) xs

/-- A thread copies the first `e - b` values of `xs` to the cells from `b` up to `e`; `none` if
that is no number of values that `xs` has. -/
def segment (b e : ℤ) (xs : List α) : Option (List (ℤ × α)) :=
  if 0 ≤ e - b ∧ e - b ≤ xs.length then some (writesFrom b (xs.take (e - b).toNat)) else none

/-- Each thread copies its values to the segment between two consecutive offsets. -/
def segments : List ℤ → List (List α) → Option (List (ℤ × α))
  | _, [] => some []
  | b :: e :: offsets, xs :: xss =>
    (segment b e xs).bind fun ws => (segments (e :: offsets) xss).map (ws ++ ·)
  | _, _ :: _ => none

/-- The prefix sums of `lengths`, from `b` on. -/
def offsetsFrom : ℤ → List ℕ → List ℤ
  | b, [] => [b]
  | b, n :: lengths => b :: offsetsFrom (b + n) lengths

variable (b : ℤ) (lengths : List ℕ)

@[simp] lemma length_offsetsFrom : (offsetsFrom b lengths).length = lengths.length + 1 := by
  induction lengths generalizing b with
  | nil => rfl
  | cons n lengths ih => simp [offsetsFrom, ih]

lemma writesFrom_append (xs ys : List α) :
    writesFrom b (xs ++ ys) = writesFrom b xs ++ writesFrom (b + xs.length) ys := by
  induction xs generalizing b with
  | nil => simp [writesFrom]
  | cons x xs ih =>
      simp only [List.cons_append, writesFrom, ih, List.length_cons]
      push_cast
      rw [add_assoc, add_comm (1 : ℤ)]

@[simp] lemma length_writesFrom (xs : List α) : (writesFrom b xs).length = xs.length := by
  induction xs generalizing b with
  | nil => rfl
  | cons x xs ih => simp [writesFrom, ih]

lemma getElem_writesFrom (xs : List α) (hj : j < xs.length) (hj' : j < (writesFrom b xs).length) :
    (writesFrom b xs)[j] = (b + j, xs[j]) := by
  induction xs generalizing b j with
  | nil => cases hj
  | cons x xs ih =>
      cases j with
      | zero => simp [writesFrom]
      | succ j =>
          have htail := ih (b + 1) (Nat.lt_of_succ_lt_succ hj) (Nat.lt_of_succ_lt_succ hj')
          simp only [writesFrom, List.getElem_cons_succ, htail]
          push_cast
          ring_nf

lemma mem_writesFrom {b : ℤ} {xs : List α} {w : ℤ × α} :
    w ∈ writesFrom b xs ↔ b ≤ w.1 ∧ xs[(w.1 - b).toNat]? = some w.2 := by
  induction xs generalizing b with
  | nil => simp [writesFrom]
  | cons x xs ih =>
      rw [writesFrom, List.mem_cons, ih]
      obtain ⟨i, y⟩ := w
      constructor
      · rintro (h | ⟨hle, hget⟩)
        · obtain ⟨rfl, rfl⟩ := Prod.mk.injEq .. ▸ h
          simp
        · refine ⟨by simp only at hle ⊢; omega, ?_⟩
          simp only at hle hget ⊢
          rw [show (i - b).toNat = (i - (b + 1)).toNat + 1 by omega, List.getElem?_cons_succ]
          exact hget
      · rintro ⟨hle, hget⟩
        simp only at hle hget
        rcases eq_or_lt_of_le hle with rfl | hlt
        · left
          simpa using hget.symm
        · right
          refine ⟨by simp only; omega, ?_⟩
          rw [show (i - b).toNat = (i - (b + 1)).toNat + 1 by omega, List.getElem?_cons_succ] at hget
          exact hget

/-- Copying all of `xs` from the first cell on gives `xs`. -/
theorem tensor_writesFrom (xs : List α) : tensor xs.length (writesFrom 0 xs) = some xs := by
  refine tensor_eq_some (fun w hw => ?_) fun j hj => ?_
  · simpa using mem_writesFrom.1 hw
  · exact ⟨(j, xs[j]), mem_writesFrom.2 ⟨Int.natCast_nonneg j, by simp [hj]⟩, rfl⟩

lemma offsetsFrom_eq_cons : ∃ offsets, offsetsFrom b lengths = b :: offsets := by
  cases lengths with
  | nil => exact ⟨[], rfl⟩
  | cons n lengths => exact ⟨_, rfl⟩

variable {xss yss : List (List α)}

/-- **Segment rule.**  With the prefix sums of `lengths` as offsets, the first values of every
thread, `lengths` of them, are copied one behind the other. -/
theorem segments_offsetsFrom {lengths : List ℕ}
    (h : List.Forall₂ (fun n xs => n ≤ xs.length) lengths xss) (b : ℤ) (more : List ℕ) :
    segments (offsetsFrom b (lengths ++ more)) xss =
      some (writesFrom b (List.zipWith List.take lengths xss).flatten) := by
  induction h generalizing b with
  | nil => cases more <;> rfl
  | @cons n xs lengths xss hle _ ih =>
      have hseg : segment b (b + n) xs = some (writesFrom b (xs.take n)) := by
        rw [segment, if_pos (by omega)]
        simp
      obtain ⟨offsets, hoff⟩ := offsetsFrom_eq_cons (b + n) (lengths ++ more)
      have ih := ih (b + n)
      rw [hoff] at ih
      rw [List.cons_append, offsetsFrom, hoff, segments, hseg, Option.bind_some, ih,
        List.zipWith_cons_cons, List.flatten_cons, writesFrom_append, List.length_take,
        Nat.min_eq_left hle]
      rfl

/-- Segments that are copied whole. -/
theorem segments_offsetsFrom_length (xss : List (List α)) (more : List ℕ) :
    segments (offsetsFrom b (xss.map List.length ++ more)) xss =
      some (writesFrom b xss.flatten) := by
  have hle : List.Forall₂ (fun n xs => n ≤ xs.length) (xss.map List.length) xss := by
    rw [List.forall₂_map_left_iff]
    exact List.forall₂_same.2 fun _ _ => le_rfl
  rw [segments_offsetsFrom hle b more]
  congr 2
  induction xss with
  | nil => rfl
  | cons xs xss ih => simp_all

lemma offsetsFrom_append (ls ms : List ℕ) :
    (offsetsFrom b (ls ++ ms)).drop ls.length = offsetsFrom (b + ls.sum) ms := by
  induction ls generalizing b with
  | nil => simp
  | cons n ls ih =>
      simp only [List.cons_append, offsetsFrom, List.length_cons, List.drop_succ_cons, ih,
        List.sum_cons]
      push_cast
      rw [add_assoc]

/-- The writes of segments stay below the ends of the segments. -/
lemma lt_of_mem_segments {offsets : List ℤ} {ws : List (ℤ × α)} (h : segments offsets xss = some ws)
    {w : ℤ × α} (hw : w ∈ ws) : ∃ e ∈ offsets, w.1 < e := by
  induction xss generalizing offsets ws with
  | nil =>
      obtain rfl : [] = ws := by simpa [segments] using h
      simp at hw
  | cons xs xss ih =>
      match offsets, h with
      | b :: e :: offsets, h =>
          obtain ⟨ws₁, hseg, hrest⟩ := Option.bind_eq_some_iff.1 h
          obtain ⟨ws₂, hsegs, rfl⟩ := Option.map_eq_some_iff.1 hrest
          rcases List.mem_append.1 hw with hw | hw
          · unfold segment at hseg
            split at hseg
            · rename_i hlen
              obtain rfl := Option.some.inj hseg
              have hget := (mem_writesFrom.1 hw).2
              have hlt := (List.getElem?_eq_some_iff.1 hget).1
              rw [List.length_take] at hlt
              exact ⟨e, by simp, by have := (mem_writesFrom.1 hw).1; omega⟩
            · simp at hseg
          · obtain ⟨e', he', hlt⟩ := ih hsegs hw
            exact ⟨e', List.mem_cons_of_mem _ he', hlt⟩

/-- The differences of consecutive offsets. -/
def gaps : List ℤ → List ℕ
  | b :: e :: offsets => (e - b).toNat :: gaps (e :: offsets)
  | _ => []

@[simp] lemma gaps_offsetsFrom : gaps (offsetsFrom b lengths) = lengths := by
  induction lengths generalizing b with
  | nil => rfl
  | cons n lengths ih =>
      obtain ⟨offsets, hoff⟩ := offsetsFrom_eq_cons (b + n) lengths
      have ih := ih (b + n)
      rw [hoff] at ih
      rw [offsetsFrom, hoff, gaps, ih]
      congr 1
      omega

lemma getD_offsetsFrom (hp : p ≤ lengths.length) :
    (offsetsFrom b lengths).getD p 0 = b + ((lengths.take p).sum : ℕ) := by
  induction lengths generalizing b p with
  | nil => simp_all [offsetsFrom]
  | cons n lengths ih =>
      cases p with
      | zero => simp [offsetsFrom]
      | succ p =>
          rw [offsetsFrom, List.getD_cons_succ, ih _ (by simpa using hp), List.take_succ_cons,
            List.sum_cons]
          push_cast
          ring

/-- `tensor.slice(0, begin, end)` -/
def slice (l : List α) (b e : ℤ) : List α := (l.take e.toNat).drop b.toNat

lemma slice_map (f : α → β) (l : List α) (b e : ℤ) :
    slice (l.map f) b e = (slice l b e).map f := by
  simp [slice]

/-- The segment between two consecutive offsets. -/
def nthSlice (l : List α) (offsets : List ℤ) (p : ℕ) : List α :=
  slice l (offsets.getD p 0) (offsets.getD (p + 1) 0)

lemma nthSlice_map (f : α → β) (l : List α) (offsets : List ℤ) (p : ℕ) :
    nthSlice (l.map f) offsets p = (nthSlice l offsets p).map f :=
  slice_map f l _ _

/-- The offsets of a concatenation delimit its parts. -/
theorem nthSlice_flatten {xs : List α} (h : xss[p]? = some xs) :
    nthSlice xss.flatten (offsetsFrom 0 (xss.map List.length)) p = xs := by
  obtain ⟨hp, rfl⟩ := List.getElem?_eq_some_iff.1 h
  rw [nthSlice, getD_offsetsFrom _ _ (by simpa using hp.le), getD_offsetsFrom _ _ (by simpa using hp),
    slice, zero_add, zero_add, Int.toNat_natCast, Int.toNat_natCast]
  exact List.drop_take_succ_flatten_eq_getElem xss p hp

/-- The cell `j` of a part, found from the beginning of the part. -/
lemma getElem?_of_nthSlice {offsets : List ℤ} {x : α} (h : (nthSlice l offsets p)[j]? = some x) :
    l[(offsets.getD p 0).toNat + j]? = some x := by
  rw [nthSlice, slice, List.getElem?_drop, List.getElem?_take] at h
  split at h
  · exact h
  · simp at h

lemma headD_offsetsFrom (d : ℤ) : (offsetsFrom b lengths).headD d = b := by
  cases lengths <;> rfl

lemma getLastD_offsetsFrom (d : ℤ) :
    (offsetsFrom b lengths).getLastD d = b + (lengths.sum : ℕ) := by
  induction lengths generalizing b d with
  | nil => simp [offsetsFrom]
  | cons n lengths ih =>
      rw [offsetsFrom, List.getLastD_cons, ih, List.sum_cons]
      push_cast
      ring

lemma map_sub_offsetsFrom (b c : ℤ) (lengths : List ℕ) :
    (offsetsFrom b lengths).map (· - c) = offsetsFrom (b - c) lengths := by
  induction lengths generalizing b with
  | nil => rfl
  | cons n lengths ih =>
      rw [offsetsFrom, List.map_cons, ih, offsetsFrom, add_sub_right_comm]

lemma map_sub_writesFrom (b c : ℤ) (xs : List α) :
    (writesFrom b xs).map (fun w => (w.1 - c, w.2)) = writesFrom (b - c) xs := by
  induction xs generalizing b with
  | nil => rfl
  | cons x xs ih => rw [writesFrom, List.map_cons, ih, writesFrom, add_sub_right_comm]

/-- Offsets that are counted from the first one. -/
lemma rebase_offsetsFrom :
    0 :: (offsetsFrom b lengths).tail.map (· - b) = offsetsFrom 0 lengths := by
  have h := map_sub_offsetsFrom b b lengths
  obtain ⟨offsets, hoff⟩ := offsetsFrom_eq_cons b lengths
  rw [hoff, List.map_cons, sub_self] at h
  rw [hoff, List.tail_cons, h]

/-- Segments that are copied by their lengths alone. -/
lemma flatMap_zip_offsetsFrom (xss : List (List α)) :
    ((offsetsFrom b (xss.map List.length)).zip xss).flatMap (fun x => writesFrom x.1 x.2) =
      writesFrom b xss.flatten := by
  induction xss generalizing b with
  | nil => rfl
  | cons xs xss ih =>
      rw [List.map_cons, offsetsFrom, List.zip_cons_cons, List.flatMap_cons, ih, List.flatten_cons,
        writesFrom_append]

/-- Writes to a permutation of the cells. -/
theorem tensor_scatter (ws : List (ℕ × α)) (n : ℕ) (h : (ws.map Prod.fst).Perm (List.range n)) :
    ∃ l, tensor n (ws.map fun w => ((w.1 : ℤ), w.2)) = some l ∧ l.length = n ∧
      ∀ w ∈ ws, l[w.1]? = some w.2 := by
  have hmem (i : ℕ) : (∃ w ∈ ws, w.1 = i) ↔ i < n := by
    rw [← List.mem_range, ← h.mem_iff, List.mem_map]
  have huniq : (ws.map Prod.fst).Nodup := h.nodup_iff.2 List.nodup_range
  have hex (i : Fin n) : ∃ x, (i.1, x) ∈ ws := by
    obtain ⟨w, hw, hi⟩ := (hmem i).2 i.2
    exact ⟨w.2, hi ▸ hw⟩
  choose f hf using hex
  have hget (w : ℕ × α) (hw : w ∈ ws) : (List.ofFn f)[w.1]? = some w.2 := by
    have hlt : w.1 < n := (hmem w.1).1 ⟨w, hw, rfl⟩
    rw [List.getElem?_ofFn, dif_pos hlt]
    have heq := List.inj_on_of_nodup_map huniq (hf ⟨w.1, hlt⟩) hw rfl
    exact congrArg (fun v => some v.2) heq
  refine ⟨List.ofFn f, ?_, List.length_ofFn, hget⟩
  have htensor := @tensor_eq_some _ (List.ofFn f) (ws.map fun w => ((w.1 : ℤ), w.2))
  rw [List.length_ofFn] at htensor
  refine htensor (fun w hw => ?_) fun j hj => ?_
  · obtain ⟨v, hv, rfl⟩ := List.mem_map.1 hw
    exact ⟨Int.natCast_nonneg _, by rw [Int.toNat_natCast]; exact hget v hv⟩
  · obtain ⟨w, hw, rfl⟩ := (hmem j).2 hj
    exact ⟨_, List.mem_map_of_mem hw, rfl⟩

/-! ## Two rows of segments

A tensor whose segments hold the first parts of the results of all threads, followed by
segments for their second parts. -/

section TwoRows

variable {γ : Type*} (f g : γ → List α) (ms : List γ)

/-- The offsets of both rows. -/
def rowOffsets : List ℤ :=
  offsetsFrom 0 ((ms.map fun m => (f m).length) ++ ms.map fun m => (g m).length)

lemma take_rowOffsets : (rowOffsets f g ms).take (ms.length + 1) =
    offsetsFrom 0 (ms.map fun m => (f m).length) := by
  suffices h : ∀ (b : ℤ) (ls ks : List ℕ), (offsetsFrom b (ls ++ ks)).take (ls.length + 1) =
      offsetsFrom b ls by
    simpa [rowOffsets] using h 0 (ms.map fun m => (f m).length) (ms.map fun m => (g m).length)
  intro b ls ks
  induction ls generalizing b with
  | nil => obtain ⟨offsets, hoff⟩ := offsetsFrom_eq_cons b ks; simp [hoff, offsetsFrom]
  | cons n ls ih => simp [offsetsFrom, ih]

lemma drop_rowOffsets : (rowOffsets f g ms).drop ms.length =
    offsetsFrom (ms.flatMap f).length (ms.map fun m => (g m).length) := by
  have h := offsetsFrom_append 0 (ms.map fun m => (f m).length) (ms.map fun m => (g m).length)
  rw [List.length_map, zero_add] at h
  rw [rowOffsets, h, List.length_flatMap]

lemma segments_firstRow : segments (rowOffsets f g ms) (ms.map fun m => f m ++ g m) =
    some (writesFrom 0 (ms.flatMap f)) := by
  have hle : List.Forall₂ (fun n xs => n ≤ xs.length) (ms.map fun m => (f m).length)
      (ms.map fun m => f m ++ g m) := by
    rw [List.forall₂_map_left_iff, List.forall₂_map_right_iff]
    exact List.forall₂_same.2 fun m _ => by simp
  rw [rowOffsets, segments_offsetsFrom hle]
  congr 2
  induction ms with
  | nil => rfl
  | cons m ms ih => simp_all

lemma segments_secondRow : segments ((rowOffsets f g ms).drop ms.length)
    (List.zipWith List.drop (gaps (rowOffsets f g ms)) (ms.map fun m => f m ++ g m)) =
      some (writesFrom (ms.flatMap f).length (ms.flatMap g)) := by
  have hdrop (ks : List ℕ) : List.zipWith List.drop ((ms.map fun m => (f m).length) ++ ks)
      (ms.map fun m => f m ++ g m) = ms.map g := by
    induction ms with
    | nil => simp
    | cons m ms ih => simp_all
  have hlen : (ms.map fun m => (g m).length) = (ms.map g).map List.length := by simp
  rw [rowOffsets, gaps_offsetsFrom, hdrop, ← rowOffsets, drop_rowOffsets, hlen,
    ← List.append_nil ((ms.map g).map List.length), segments_offsetsFrom_length]
  rfl

/-- Both rows fill a tensor. -/
theorem tensor_rows {size : ℤ} (hsize : ((ms.flatMap f ++ ms.flatMap g).length : ℤ) = size) :
    tensor size (writesFrom 0 (ms.flatMap f) ++
      writesFrom (ms.flatMap f).length (ms.flatMap g)) =
        some (ms.flatMap f ++ ms.flatMap g) := by
  have happ := writesFrom_append 0 (ms.flatMap f) (ms.flatMap g)
  rw [zero_add] at happ
  rw [← happ, ← hsize, tensor_writesFrom]

end TwoRows

/-! ## Scans in 32 bits -/

/-- Storing `x` in an `int32_t`. -/
def wrapInt32 (x : ℤ) : ℤ := x.bmod (2 ^ 32)

lemma wrapInt32_of_lt {x : ℤ} (h1 : 0 ≤ x) (h2 : x < 2 ^ 31) : wrapInt32 x = x :=
  Int.bmod_eq_of_le (by norm_num; omega) (by norm_num; omega)

lemma wrapInt32_lt (x : ℤ) : wrapInt32 x < 2 ^ 31 := by
  have := Int.bmod_lt (x := x) (m := 2 ^ 32) (by norm_num)
  unfold wrapInt32
  norm_num at this ⊢
  omega

/-- `std::exclusive_scan(lengths, …, acc)` with an accumulator of type `int`; the last element is
the sum. -/
def scanInt32 : ℤ → List ℕ → List ℤ
  | acc, [] => [acc]
  | acc, n :: lengths => acc :: scanInt32 (wrapInt32 (acc + n)) lengths

lemma scanInt32_eq {b : ℤ} {lengths : List ℕ} (hb : 0 ≤ b) (h : b + lengths.sum < 2 ^ 31) :
    scanInt32 b lengths = offsetsFrom b lengths := by
  induction lengths generalizing b with
  | nil => rfl
  | cons n lengths ih =>
      rw [List.sum_cons, Nat.cast_add, ← add_assoc] at h
      rw [scanInt32, offsetsFrom, wrapInt32_of_lt (by omega) (by omega), ih (by omega) (by omega)]

lemma scanInt32_lt {b : ℤ} (hb : b < 2 ^ 31) (lengths : List ℕ) :
    ∀ x ∈ scanInt32 b lengths, x < 2 ^ 31 := by
  induction lengths generalizing b with
  | nil => simpa [scanInt32] using hb
  | cons n lengths ih =>
      intro x hx
      rcases List.mem_cons.1 hx with rfl | hx
      · exact hb
      · exact ih (wrapInt32_lt _) x hx

/-- A tensor of `2^31` cells or more is not filled by segments whose offsets are scanned in 32
bits. -/
theorem tensor_scanInt32_eq_none {lengths : List ℕ} {k : ℕ} {ws₁ ws₂ : List (ℤ × α)}
    (h₁ : segments (scanInt32 0 lengths) xss = some ws₁)
    (h₂ : segments ((scanInt32 0 lengths).drop k) yss = some ws₂) {len : ℕ} (hlen : 2 ^ 31 ≤ len) :
    tensor len (ws₁ ++ ws₂) = none := by
  by_contra hne
  obtain ⟨l, hl⟩ := Option.ne_none_iff_exists'.1 hne
  obtain ⟨w, hw, hlast⟩ := written_of_tensor hl (j := len - 1) (by omega)
  have hlt : ∃ e ∈ scanInt32 0 lengths, w.1 < e := by
    rcases List.mem_append.1 hw with hw | hw
    · exact lt_of_mem_segments h₁ hw
    · obtain ⟨e, he, hlt⟩ := lt_of_mem_segments h₂ hw
      exact ⟨e, List.mem_of_mem_drop he, hlt⟩
  obtain ⟨e, he, hwe⟩ := hlt
  have := scanInt32_lt (by norm_num) lengths e he
  omega

end DglAscend
