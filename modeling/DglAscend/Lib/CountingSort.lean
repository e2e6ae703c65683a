import Mathlib.Data.List.GetD
import DglAscend.Lib.BucketOrder

/-!
# Counting sort on arrays

The three loops of a counting sort: count the keys, turn the counts into the first places of the
buckets, and put every item at the next place of its bucket.  Together they list the items in
bucket order (`placeItems_eq`), and the places that they end at are the bucket boundaries
(`shift_cursors`).  A sort that computes the places ahead gives the same list (`writeAt_eq`).
-/

namespace DglAscend

variable {α : Type*} {n : ℕ}

/-- Counting the keys. -/
def countKeys (n : ℕ) (keys : List ℕ) : List ℕ :=
  keys.foldl (fun b k => b.set k (b.getD k 0 + 1)) (List.replicate n 0)

/-- `temp = Bp[i]; Bp[i] = cumsum; cumsum += temp` -/
def exclusiveSum : ℕ → List ℕ → List ℕ
  | _, [] => []
  | cumsum, c :: cs => cumsum :: exclusiveSum (cumsum + c) cs

/-- `B[Bp[key]] = value; Bp[key]++` -/
def placeItem (s : List ℕ × List α) (item : ℕ × α) : List ℕ × List α :=
  (s.1.set item.1 (s.1.getD item.1 0 + 1), s.2.set (s.1.getD item.1 0) item.2)

/-- `last = 0; temp = Bp[i]; Bp[i] = last; last = temp`, over `n + 1` entries. -/
def shift (b : List ℕ) : List ℕ := 0 :: b

/-- Writing the items at places that are known. -/
def writeAt (place : ℕ → ℕ) (value : ℕ → α) (N : ℕ) (out : List α) : List α :=
  (List.range N).foldl (fun out i => out.set (place i) (value i)) out

/-- The key of an item. -/
def keyAt (keys : List ℕ) (i : ℕ) : ℕ := keys.getD i 0

section Counting

variable {keys : List ℕ}

lemma length_countKeys (n : ℕ) (keys : List ℕ) : (countKeys n keys).length = n := by
  have hlen (b : List ℕ) : (keys.foldl (fun b k => b.set k (b.getD k 0 + 1)) b).length = b.length := by
    induction keys generalizing b with
    | nil => rfl
    | cons k ks ih => rw [List.foldl_cons, ih, List.length_set]
  rw [countKeys, hlen, List.length_replicate]

lemma getD_set (b : List ℕ) {k p : ℕ} (v : ℕ) (hp : p < b.length) :
    (b.set k v).getD p 0 = if k = p then v else b.getD p 0 := by
  rw [List.getD_eq_getElem?_getD, List.getElem?_set, List.getD_eq_getElem?_getD]
  by_cases h : k = p
  · rw [if_pos h, if_pos h, if_pos (h ▸ hp), Option.getD_some]
  · rw [if_neg h, if_neg h]

lemma countKeys_getD {p : ℕ} (hp : p < n) : (countKeys n keys).getD p 0 = keys.count p := by
  have hadd (b : List ℕ) (hb : p < b.length) :
      (keys.foldl (fun b k => b.set k (b.getD k 0 + 1)) b).getD p 0 =
        b.getD p 0 + keys.count p := by
    induction keys generalizing b with
    | nil => simp
    | cons k ks ih =>
        rw [List.foldl_cons, ih _ (by rwa [List.length_set]), getD_set b _ hb, List.count_cons]
        by_cases h : k = p
        · rw [if_pos h, if_pos (by simp [h]), h]
          omega
        · rw [if_neg h, if_neg (by simpa using h)]
          omega
  rw [countKeys, hadd _ (by simpa using hp), List.getD_replicate _ hp, Nat.zero_add]

lemma count_eq_countIn (keys : List ℕ) (p : ℕ) :
    keys.count p = countIn (keyAt keys) p 0 keys.length := by
  rw [List.count, countP_eq_countIn]
  intro i hi
  rw [keyAt, List.getD_eq_getElem _ _ hi]
  simp [beq_eq_decide]

lemma countKeys_eq (n : ℕ) (keys : List ℕ) :
    countKeys n keys = (List.range n).map fun p => countIn (keyAt keys) p 0 keys.length := by
  apply List.ext_getElem
  · rw [length_countKeys, List.length_map, List.length_range]
  · intro p hp hp'
    rw [length_countKeys] at hp
    rw [← List.getD_eq_getElem _ 0, countKeys_getD hp, count_eq_countIn, List.getElem_map,
      List.getElem_range]

lemma exclusiveSum_map (f : ℕ → ℕ) (c a n : ℕ) :
    exclusiveSum c ((List.range' a n).map f) =
      (List.range' a n).map fun p => c + ((List.range' a (p - a)).map f).sum := by
  induction n generalizing c a with
  | zero => rfl
  | succ n ih =>
      rw [List.range'_succ, List.map_cons, List.map_cons, exclusiveSum, ih, Nat.sub_self]
      congr 1
      apply List.map_congr_left
      intro p hp
      have hle := (List.mem_range'_1.1 hp).1
      rw [show p - a = p - (a + 1) + 1 by omega, List.range'_succ, List.map_cons, List.sum_cons]
      omega

/-- The counts become the first places of the buckets. -/
theorem exclusiveSum_countKeys (n : ℕ) (keys : List ℕ) :
    exclusiveSum 0 (countKeys n keys) =
      (List.range n).map (bucketStart (keyAt keys) keys.length) := by
  rw [countKeys_eq, List.range_eq_range', exclusiveSum_map]
  apply List.map_congr_left
  intro p hp
  rw [bucketStart, List.range_eq_range', Nat.sub_zero, Nat.zero_add]

end Counting

/-! ## Placing the items -/

section Placing

variable {items : List (ℕ × α)} {place : ℕ → ℕ} {value : ℕ → α} {part : ℕ → ℕ} {N : ℕ}

/-- The place of an index in the bucket order. -/
def placeOf (part : ℕ → ℕ) (N i : ℕ) : ℕ :=
  bucketStart part N (part i) + countIn part (part i) 0 i

lemma placeOf_inj (h : ∀ i < N, part i < n) {i j : ℕ} (hi : i < N) (hj : j < N)
    (heq : placeOf part N i = placeOf part N j) : i = j := by
  have hgeti := bucketOrder_place hi (h i hi)
  have hgetj := bucketOrder_place hj (h j hj)
  rw [← placeOf, heq] at hgeti
  rw [← placeOf, hgeti] at hgetj
  exact Option.some.inj hgetj

lemma placeOf_lt (h : ∀ i < N, part i < n) {i : ℕ} (hi : i < N) : placeOf part N i < N := by
  have hget := bucketOrder_place hi (h i hi)
  have hlt := (List.getElem?_eq_some_iff.1 hget).1
  rwa [length_bucketOrder h] at hlt

/-- A list that holds every item at its place is the bucket order. -/
lemma eq_bucketOrder_map {out : List α} (h : ∀ i < N, part i < n) (hlen : out.length = N)
    (hget : ∀ i < N, out[placeOf part N i]? = some (value i)) :
    out = (bucketOrder part n N).map value := by
  apply List.ext_getElem?
  intro j
  by_cases hj : j < N
  · obtain ⟨i, hi, hplace⟩ := exists_place h hj
    rw [← hplace, ← placeOf, hget i hi, placeOf, List.getElem?_map, bucketOrder_place hi (h i hi),
      Option.map_some]
  · rw [List.getElem?_eq_none (by omega), List.getElem?_eq_none]
    rw [List.length_map, length_bucketOrder h]
    omega

lemma writeAt_succ (place : ℕ → ℕ) (value : ℕ → α) (m : ℕ) (out : List α) :
    writeAt place value (m + 1) out = (writeAt place value m out).set (place m) (value m) := by
  simp [writeAt, List.range_succ]

lemma length_writeAt (place : ℕ → ℕ) (value : ℕ → α) (m : ℕ) (out : List α) :
    (writeAt place value m out).length = out.length := by
  induction m with
  | zero => rfl
  | succ m ih => rw [writeAt_succ, List.length_set, ih]

lemma writeAt_getElem? {m i : ℕ} {out : List α} (hi : i < m) (hlt : place i < out.length)
    (hinj : ∀ j < m, place j = place i → j = i) :
    (writeAt place value m out)[place i]? = some (value i) := by
  induction m with
  | zero => omega
  | succ m ih =>
      rw [writeAt_succ, List.getElem?_set]
      split
      · rename_i heq
        rw [hinj m (Nat.lt_succ_self m) heq, if_pos (by rwa [length_writeAt])]
      · rename_i hne
        have him : i ≠ m := fun h => hne (by rw [h])
        exact ih (by omega) fun j hj => hinj j (by omega)

/-- **Places known ahead**: writing every item at its place gives the bucket order. -/
theorem writeAt_eq (h : ∀ i < N, part i < n) {out : List α} (hlen : out.length = N)
    (hplace : ∀ i < N, place i = placeOf part N i) :
    writeAt place value N out = (bucketOrder part n N).map value := by
  apply eq_bucketOrder_map h
  · rw [length_writeAt, hlen]
  · intro i hi
    rw [← hplace i hi]
    apply writeAt_getElem? hi
    · rw [hlen, hplace i hi]
      exact placeOf_lt h hi
    · intro j hj heq
      rw [hplace i hi, hplace j hj] at heq
      exact placeOf_inj h hj hi heq

/-- What the loop has done after `m` items. -/
structure Placed (part : ℕ → ℕ) (value : ℕ → α) (n N m : ℕ) (s : List ℕ × List α) : Prop where
  cursors : s.1 = (List.range n).map fun p => bucketStart part N p + countIn part p 0 m
  out : ∃ out : List α, out.length = N ∧ s.2 = writeAt (placeOf part N) value m out

lemma Placed.step {m : ℕ} {s : List ℕ × List α} (hs : Placed part value n N m s)
    (hp : part m < n) : Placed part value n N (m + 1) (placeItem s (part m, value m)) := by
  have hcursor : s.1.getD (part m) 0 = placeOf part N m := by
    rw [hs.cursors, List.getD_eq_getElem _ _ (by simpa using hp), List.getElem_map,
      List.getElem_range, placeOf]
  obtain ⟨out, hlen, hout⟩ := hs.out
  constructor
  · show s.1.set (part m) (s.1.getD (part m) 0 + 1) = _
    apply List.ext_getElem
    · rw [List.length_set, hs.cursors, List.length_map, List.length_map]
    · intro p hp1 hp2
      rw [List.length_map, List.length_range] at hp2
      rw [List.getElem_set, List.getElem_map, List.getElem_range,
        ← countIn_add part p (Nat.zero_le m) (Nat.le_succ m), countIn_succ_left part p
          (Nat.lt_succ_self m), countIn_self]
      by_cases h : part m = p
      · rw [if_pos h, if_pos h, hcursor, placeOf, h]
        omega
      · rw [if_neg h, if_neg h]
        simp only [hs.cursors, List.getElem_map, List.getElem_range]
        omega
  · refine ⟨out, hlen, ?_⟩
    show s.2.set (s.1.getD (part m) 0) (value m) = _
    rw [hcursor, hout, writeAt_succ]

/-- The placing loop after some of the items. -/
lemma placed_take (items : List (ℕ × α)) (d : α) (out : List α) (hkeys : ∀ x ∈ items, x.1 < n)
    (hlen : out.length = items.length) {m : ℕ} (hm : m ≤ items.length) :
    Placed (keyAt (items.map Prod.fst)) (fun i => (items.getD i (0, d)).2) n items.length m
      ((items.take m).foldl placeItem
        ((List.range n).map (bucketStart (keyAt (items.map Prod.fst)) items.length), out)) := by
  set part := keyAt (items.map Prod.fst) with hpart
  have hget {i : ℕ} (hi : i < items.length) : items[i] = (part i, (items.getD i (0, d)).2) := by
    rw [hpart, keyAt, List.getD_eq_getElem _ _ (by simpa using hi),
      List.getD_eq_getElem _ _ hi, List.getElem_map]
  have hlt (i : ℕ) (hi : i < items.length) : part i < n := by
    have hmem := hkeys _ (List.getElem_mem hi)
    rwa [hget hi] at hmem
  induction m with
  | zero =>
      refine ⟨?_, out, hlen, rfl⟩
      simp [countIn_self]
  | succ m ih =>
      rw [List.take_add_one, List.getElem?_eq_getElem hm, Option.toList_some, List.foldl_append,
        List.foldl_cons, List.foldl_nil, hget hm]
      exact (ih (by omega)).step (hlt m hm)

lemma keyAt_lt {items : List (ℕ × α)} (hkeys : ∀ x ∈ items, x.1 < n) :
    ∀ i < items.length, keyAt (items.map Prod.fst) i < n := by
  intro i hi
  rw [keyAt, List.getD_eq_getElem _ _ (by simpa using hi), List.getElem_map]
  exact hkeys _ (List.getElem_mem hi)

/-- **The placing loop**: the items come to stand in bucket order, every cursor at the end of its
bucket. -/
theorem placeItems_eq (items : List (ℕ × α)) (d : α) (out : List α)
    (hkeys : ∀ x ∈ items, x.1 < n) (hlen : out.length = items.length) :
    items.foldl placeItem
        ((List.range n).map (bucketStart (keyAt (items.map Prod.fst)) items.length), out) =
      ((List.range n).map fun p => bucketStart (keyAt (items.map Prod.fst)) items.length (p + 1),
        (bucketOrder (keyAt (items.map Prod.fst)) n items.length).map fun i =>
          (items.getD i (0, d)).2) := by
  have hend := placed_take items d out hkeys hlen le_rfl
  rw [List.take_length] at hend
  obtain ⟨out', hlen', hout'⟩ := hend.out
  apply Prod.ext
  · rw [hend.cursors]
    apply List.map_congr_left
    intro p _
    rw [bucketStart_succ]
  · rw [hout']
    exact writeAt_eq (keyAt_lt hkeys) hlen' fun _ _ => rfl

/-- The cursors, shifted by one, are the bucket boundaries. -/
lemma shift_cursors (part : ℕ → ℕ) (n N : ℕ) :
    shift ((List.range n).map fun p => bucketStart part N (p + 1)) =
      (List.range (n + 1)).map (bucketStart part N) := by
  rw [shift, List.range_succ_eq_map, List.map_cons, List.map_map]
  rfl

end Placing

end DglAscend
